import Narrative.Proofs.Tool.Protocol
import Narrative.Tool.Lint

namespace Narrative

-- How the options file is named on a command line
def configArgs : Option Text → List Text
  | none => []
  | some path => ["--config".toList, path]

section Arguments

variable {file : Text} (hfile : file.head? ≠ some '-')

include hfile

theorem ne_of_head?_ne {arg : Text} (harg : arg.head? = some '-') : file ≠ arg := by
  rintro rfl
  exact hfile harg

theorem isFlag_of_head?_ne : isFlag file = false := by
  cases file with
  | nil => rfl
  | cons c file =>
      have hc : '-' ≠ c := fun h => hfile (h ▸ rfl)
      simp [isFlag, Text.stripPrefix?, hc]

theorem asksForHelp_of_head?_ne (args : List Text) : asksForHelp (file :: args) = false := by
  have hhelp : file ≠ "--help".toList := ne_of_head?_ne hfile rfl
  have hh : file ≠ "-h".toList := ne_of_head?_ne hfile rfl
  rw [asksForHelp, beq_eq_false_iff_ne.2 hhelp, beq_eq_false_iff_ne.2 hh]
  rfl

end Arguments

theorem ne_of_isFlag {arg flag : Text} (harg : isFlag arg = false) (hflag : isFlag flag = true) : arg ≠ flag := by
  rintro rfl
  rw [hflag] at harg
  cases harg

namespace Lint

variable {readOptions : OptionsReader} {files : Files} {options : ParseOptions}

theorem checkFile_eq_ok_iff {path : Text} {v : Verdict} :
    checkFile files options path = .ok v ↔ ∃ source issues story, files path = .ok source ∧
      Story.ofSource options source = .ok (issues, story) ∧ verdictOf path story issues = v := by
  unfold checkFile
  cases hsource : files path with
  | error e => simp
  | ok source =>
      cases hstory : Story.ofSource options source with
      | error message => simp [Except.map, hstory]
      | ok read =>
          obtain ⟨issues, story⟩ := read
          simp [Except.map, hstory]

-- A strict check passes just those rows of files of which every one is there, can be read, and
-- has nothing to be said about it.
theorem fails_checkFiles_eq_false_iff (hstrict : options.strict = true) {paths : List Text} :
    (checkFiles files options paths).fails options = false ↔
      ∀ path ∈ paths, ∃ v, checkFile files options path = .ok v ∧ v.issues = 0 := by
  have hfails : ∀ t : Tally, t.fails options = false ↔ t.failed = 0 ∧ t.issues = 0 := by
    intro t
    simp [Tally.fails, hstrict]
  induction paths with
  | nil => simp [hfails, checkFiles]
  | cons path paths ih =>
      refine Iff.trans ?_ (List.forall_mem_cons.trans (and_congr_right fun _ => ih.symm)).symm
      rw [hfails, hfails, checkFiles]
      cases checkFile files options path with
      | error message => simp [Tally.add]
      | ok v =>
          simp only [Tally.add, Except.ok.injEq, exists_eq_left', Nat.add_eq_zero_iff]
          tauto

section Arguments

variable {rest : List Text} {r : Request}

theorem readArgs_nil : readArgs [] r = .ok r := by
  rw [readArgs]

theorem readArgs_config (path : Text) :
    readArgs ("--config".toList :: path :: rest) r = readArgs rest { r with config := some path } := by
  rw [readArgs.eq_def]
  rfl

theorem readArgs_strict : readArgs ("--strict".toList :: rest) r = readArgs rest { r with strict := true } := by
  rw [readArgs.eq_def]
  rfl

theorem readArgs_keepComments :
    readArgs ("--keep-comments".toList :: rest) r = readArgs rest { r with keepComments := true } := by
  rw [readArgs.eq_def]
  rfl

theorem readArgs_file {file : Text} (hfile : isFlag file = false) :
    readArgs (file :: rest) r = readArgs rest { r with files := r.files ++ [file] } := by
  rw [readArgs.eq_def]
  dsimp only
  rw [if_neg (ne_of_isFlag hfile rfl), if_neg (ne_of_isFlag hfile rfl), if_neg (ne_of_isFlag hfile rfl), hfile]
  rfl

-- One file that is read strictly
theorem ofArgs_strict {file : Text} (hfile : file.head? ≠ some '-') (config : Option Text) :
    Request.ofArgs (file :: "--strict".toList :: configArgs config) = .ok ⟨[file], config, true, false⟩ := by
  rw [Request.ofArgs, readArgs_file (isFlag_of_head?_ne hfile), readArgs_strict]
  cases config with
  | none => rw [configArgs, readArgs_nil]; rfl
  | some path => rw [configArgs, readArgs_config, readArgs_nil]; rfl

end Arguments

-- A file that passes the strict check is a story that there is nothing to say about.
theorem exists_story_of_code {file : Text} (hfile : file.head? ≠ some '-') {config : Option Text}
    (h : (runWith readOptions files (file :: "--strict".toList :: configArgs config)).code = 0) :
    ∃ options source story, readOptions.loadConfig files config = .ok options ∧
      files file = .ok source ∧ Story.ofSource options source = .ok ([], story) := by
  rw [runWith, asksForHelp_of_head?_ne hfile, if_neg Bool.false_ne_true, ofArgs_strict hfile] at h
  dsimp only at h
  cases hload : readOptions.loadConfig files config with
  | error message =>
      rw [hload] at h
      cases h
  | ok options =>
      rw [hload] at h
      dsimp only at h
      have hfails : (checkFiles files (Request.options ⟨[file], config, true, false⟩ options)
          [file]).fails (Request.options ⟨[file], config, true, false⟩ options) = false := by
        by_contra hfails
        rw [Bool.not_eq_false] at hfails
        rw [hfails, if_pos rfl] at h
        cases h
      rw [fails_checkFiles_eq_false_iff (Bool.or_true _)] at hfails
      obtain ⟨v, hv, hissues⟩ := hfails file (List.mem_singleton_self file)
      obtain ⟨source, issues, story, hsource, hstory, rfl⟩ := checkFile_eq_ok_iff.1 hv
      obtain rfl : issues = [] := List.length_eq_zero_iff.1 hissues
      -- what is kept of comments is what the options say, as the command line asks for nothing
      rw [Story.ofSource_congr (Bool.or_false _)] at hstory
      exact ⟨options, source, story, rfl, hsource, hstory⟩

end Lint

namespace Play

-- How a command line goes on that says nothing about files
inductive Flags : List Text → Prop where
  | nil : Flags []
  | auto {flags : List Text} (h : Flags flags) : Flags ("--auto".toList :: flags)
  | max {flags : List Text} (n : Text) (h : Flags flags) : Flags ("--max".toList :: n :: flags)
  | seed {flags : List Text} (n : Text) (h : Flags flags) : Flags ("--seed".toList :: n :: flags)

section Arguments

variable {rest : List Text} {r : Request}

theorem readArgs_nil : readArgs [] r = .ok r := by
  rw [readArgs]

theorem readArgs_config (path : Text) :
    readArgs ("--config".toList :: path :: rest) r = readArgs rest { r with config := some path } := by
  rw [readArgs.eq_def]
  rfl

theorem readArgs_seed (n : Text) :
    readArgs ("--seed".toList :: n :: rest) r = readArgs rest { r with seed := readCount defaultSeed n } := by
  rw [readArgs.eq_def]
  rfl

theorem readArgs_max (n : Text) :
    readArgs ("--max".toList :: n :: rest) r = readArgs rest { r with maxSteps := readCount defaultMax n } := by
  rw [readArgs.eq_def]
  rfl

theorem readArgs_auto : readArgs ("--auto".toList :: rest) r = readArgs rest { r with auto := true } := by
  rw [readArgs.eq_def]
  rfl

theorem readArgs_file {file : Text} (hfile : isFlag file = false) (hr : r.file = none) :
    readArgs (file :: rest) r = readArgs rest { r with file := some file } := by
  rw [readArgs.eq_def]
  dsimp only
  rw [if_neg (ne_of_isFlag hfile rfl), if_neg (ne_of_isFlag hfile rfl), if_neg (ne_of_isFlag hfile rfl),
    if_neg (ne_of_isFlag hfile rfl), hfile, hr]
  rfl

theorem Flags.exists_readArgs {flags : List Text} (h : Flags flags) (r : Request) :
    ∃ r', readArgs flags r = .ok r' ∧ r'.file = r.file ∧ r'.config = r.config := by
  induction h generalizing r with
  | nil => exact ⟨r, readArgs_nil, rfl, rfl⟩
  | auto _ ih =>
      rw [readArgs_auto]
      exact ih { r with auto := true }
  | max n _ ih =>
      rw [readArgs_max]
      exact ih { r with maxSteps := readCount defaultMax n }
  | seed n _ ih =>
      rw [readArgs_seed]
      exact ih { r with seed := readCount defaultSeed n }

-- The flags that follow a file and its options change neither.
theorem Flags.exists_ofArgs {flags : List Text} (h : Flags flags) {file : Text}
    (hfile : file.head? ≠ some '-') (config : Option Text) :
    ∃ r, Request.ofArgs (file :: configArgs config ++ flags) = .ok r ∧ r.file = some file ∧
      r.config = config := by
  rw [Request.ofArgs, List.cons_append, readArgs_file (isFlag_of_head?_ne hfile) rfl]
  cases config with
  | none => exact h.exists_readArgs _
  | some path =>
      rw [configArgs, List.cons_append, List.singleton_append, readArgs_config]
      exact h.exists_readArgs _

end Arguments

variable {readOptions : OptionsReader} {files : Files} {file : Text} {config : Option Text}

-- A story that a strict check finds nothing wrong with opens without a warning. However it is
-- played, and however far, no error is written and the tool does not fail.
theorem plays_without_error_of_lint (hfile : file.head? ≠ some '-')
    (hlint : (Lint.runWith readOptions files (file :: "--strict".toList :: configArgs config)).code = 0)
    {flags : List Text} (hflags : Flags flags) (picks : Nat → Nat → Nat) :
    ∃ opening, start readOptions files picks (file :: configArgs config ++ flags) = .ok opening ∧
      opening.warnings = [] ∧
      ∀ (moves steps : Nat) (input : List (Option Text)) (report : Report),
        runWith readOptions files picks moves steps (file :: configArgs config ++ flags) input = some report →
        report.code = 0 ∧ report.err = [] := by
  obtain ⟨options, source, story, hload, hsource, hstory⟩ := Lint.exists_story_of_code hfile hlint
  obtain ⟨request, hrequest, hpath, hconfig⟩ := hflags.exists_ofArgs hfile config
  have hclean := Story.clean_of_ofSource hstory
  have hstart : ∃ player,
      start readOptions files picks (file :: configArgs config ++ flags) = .ok ⟨story, player, []⟩ := by
    refine ⟨if request.auto then .auto request.maxSteps (picks request.seed) else .person, ?_⟩
    rw [start, List.cons_append, asksForHelp_of_head?_ne hfile, if_neg Bool.false_ne_true,
      ← List.cons_append, hrequest]
    simp only [hpath, hconfig, hload, hsource, openText, hstory, List.flatMap_nil, ne_eq, not_true,
      and_false, if_false]
  obtain ⟨player, hstart⟩ := hstart
  refine ⟨⟨story, player, []⟩, hstart, rfl, ?_⟩
  intro moves steps input report hrun
  obtain ⟨err, herr, hproper⟩ := (kept_runNoting hstart moves steps input).result report hrun
  obtain ⟨hcode, rfl⟩ := hproper.ends_well hclean
  exact ⟨hcode, herr⟩

-- A story that goes round for ever, below options that say to keep its comments
theorem plays_without_error_of_lint_round :
    let files : Files := fun path =>
      if path = "s".toList then .ok "# note\n> a\n\t-> A\n== A\nb\n-> A".toList
      else if path = "o".toList then .ok "(keep_comments: true)".toList
      else .error .notFound
    let args := ["s", "--config", "o", "--auto", "--max", "5"].map String.toList
    (Lint.run files (["s", "--strict", "--config", "o"].map String.toList)).code = 0 ∧
      (run files (fun _ n => n) 9 9 args []).isSome = true ∧
      ∃ opening, start ParseOptions.ofRon files (fun _ n => n) args = .ok opening ∧ opening.warnings = [] ∧
        ∀ (moves steps : Nat) (input : List (Option Text)) (report : Report),
          run files (fun _ n => n) moves steps args input = some report →
          report.code = 0 ∧ report.err = [] := by
  intro files args
  have hlint : (Lint.run files
      ("s".toList :: "--strict".toList :: configArgs (some "o".toList))).code = 0 := by
    decide +kernel
  have hrun : (run files (fun _ n => n) 9 9 args []).isSome = true := by
    decide +kernel
  exact ⟨hlint, hrun, plays_without_error_of_lint (by decide) hlint (.auto (.max "5".toList .nil)) fun _ n => n⟩

end Play

end Narrative
