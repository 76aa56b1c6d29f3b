import Mathlib.Algebra.GroupWithZero.Nat
import Mathlib.Data.List.Forall2
import Mathlib.Data.List.Infix
import Narrative.Proofs.Tool.Playing

namespace Narrative.Lint

-- What the arguments of a command line say. A configuration takes the argument behind it along,
-- whatever that is, and what has the form of a flag is no file.
inductive Argument where
  | file (path : Text) (h : isFlag path = false)
  | config (path : Text)
  | strict
  | keepComments
deriving DecidableEq

namespace Argument

def written : Argument → List Text
  | file path _ => [path]
  | config path => ["--config".toList, path]
  | strict => ["--strict".toList]
  | keepComments => ["--keep-comments".toList]

def file? : Argument → Option Text
  | file path _ => some path
  | _ => none

def config? : Argument → Option Text
  | config path => some path
  | _ => none

end Argument

-- Behind some arguments there is one that has the form of a flag and is none. A configuration
-- with nothing behind it is none either.
def Unknown (args : List Text) : Prop :=
  ∃ (known : List Argument) (arg : Text) (rest : List Text),
    args = known.flatMap Argument.written ++ arg :: rest ∧ isFlag arg = true ∧
      arg ≠ "--strict".toList ∧ arg ≠ "--keep-comments".toList ∧ (arg = "--config".toList → rest = [])

theorem Unknown.behind {args : List Text} (h : Unknown args) (a : Argument) : Unknown (a.written ++ args) := by
  obtain ⟨known, arg, rest, rfl, hunknown⟩ := h
  exact ⟨a :: known, arg, rest, by rw [List.flatMap_cons, List.append_assoc], hunknown⟩

-- The induction is on how arguments are read, whatever has been read before.
theorem exists_arguments {args : List Text} (h : ¬ Unknown args) (r : Request) :
    ∃ known : List Argument, args = known.flatMap Argument.written := by
  have further : ∀ {rest : List Text} (a : Argument), ¬ Unknown (a.written ++ rest) →
      (¬ Unknown rest → ∃ known : List Argument, rest = known.flatMap Argument.written) →
      ∃ known : List Argument, a.written ++ rest = known.flatMap Argument.written := by
    intro rest a h ih
    obtain ⟨known, rfl⟩ := ih fun hunknown => h (hunknown.behind a)
    exact ⟨a :: known, rfl⟩
  fun_induction readArgs args r with
  | case1 => exact ⟨[], rfl⟩
  | case2 r path rest ih => exact further (.config path) h ih
  | case3 => exact absurd ⟨[], _, [], rfl, rfl, by decide, by decide, fun _ => rfl⟩ h
  | case4 rest r _ ih => exact further .strict h ih
  | case5 rest r _ _ ih => exact further .keepComments h ih
  | case6 arg rest r hconfig hstrict hkeep hflag =>
      exact absurd ⟨[], arg, rest, rfl, hflag, hstrict, hkeep, fun he => absurd he hconfig⟩ h
  | case7 arg rest r _ _ _ hflag ih => exact further (.file arg (eq_false_of_ne_true hflag)) h ih

-- What arguments add to a request: all files, in their order, of the configurations the last one,
-- and a switch wherever it stands.
def Request.extend (r : Request) (known : List Argument) : Request :=
  ⟨r.files ++ known.filterMap Argument.file?, (known.filterMap Argument.config?).getLast?.or r.config,
    r.strict || decide (.strict ∈ known), r.keepComments || decide (.keepComments ∈ known)⟩

theorem readArgs_written_append (known : List Argument) (rest : List Text) (r : Request) :
    readArgs (known.flatMap Argument.written ++ rest) r = readArgs rest (r.extend known) := by
  induction known generalizing r with
  | nil => simp [Request.extend]
  | cons a known ih =>
      rw [List.flatMap_cons, List.append_assoc]
      cases a with
      | file path hpath =>
          rw [Argument.written, List.singleton_append, readArgs_file hpath, ih]
          simp [Request.extend, List.filterMap_cons, Argument.file?, Argument.config?]
      | config path =>
          rw [Argument.written, List.cons_append, List.singleton_append, readArgs_config, ih]
          simp only [Request.extend, List.filterMap_cons, Argument.file?, Argument.config?, List.getLast?_cons,
            List.mem_cons, reduceCtorEq, false_or]
          cases (known.filterMap Argument.config?).getLast? <;> rfl
      | strict =>
          rw [Argument.written, List.singleton_append, readArgs_strict, ih]
          simp [Request.extend, List.filterMap_cons, Argument.file?, Argument.config?]
      | keepComments =>
          rw [Argument.written, List.singleton_append, readArgs_keepComments, ih]
          simp [Request.extend, List.filterMap_cons, Argument.file?, Argument.config?]

theorem ofArgs_written (known : List Argument) :
    Request.ofArgs (known.flatMap Argument.written) =
      .ok ⟨known.filterMap Argument.file?, (known.filterMap Argument.config?).getLast?, decide (.strict ∈ known),
        decide (.keepComments ∈ known)⟩ := by
  have hread := readArgs_written_append known [] ⟨[], none, false, false⟩
  rw [List.append_nil, readArgs_nil] at hread
  rw [Request.ofArgs, hread, Request.extend, List.nil_append, Option.or_none, Bool.false_or, Bool.false_or]

-- A command line is refused for an unknown argument only, and always.
theorem unknown_iff {args : List Text} : Unknown args ↔ ∃ arg, Request.ofArgs args = .error arg := by
  constructor
  · rintro ⟨known, arg, rest, rfl, hflag, hstrict, hkeep, hconfig⟩
    refine ⟨arg, ?_⟩
    rw [Request.ofArgs, readArgs_written_append, readArgs.eq_def]
    by_cases hc : arg = "--config".toList
    · simp only [hc, if_true, hconfig hc]
    · simp only [hc, hstrict, hkeep, hflag, if_false, if_true]
  · rintro ⟨arg, harg⟩
    by_contra hunknown
    obtain ⟨known, rfl⟩ := exists_arguments hunknown ⟨[], none, false, false⟩
    rw [ofArgs_written] at harg
    cases harg

def switches : List Text := ["--strict".toList, "--keep-comments".toList]

-- A request with the switches turned on that are among the arguments
def Request.switched (r : Request) (args : List Text) : Request :=
  { r with strict := r.strict || decide ("--strict".toList ∈ args)
           keepComments := r.keepComments || decide ("--keep-comments".toList ∈ args) }

section Switches

variable {args rest : List Text} {arg : Text} {r : Request}

theorem switched_cons (h : arg ∉ switches) : r.switched (arg :: rest) = r.switched rest := by
  simp only [switches, List.mem_cons, List.not_mem_nil, or_false, not_or] at h
  simp only [Request.switched, List.mem_cons, Ne.symm h.1, Ne.symm h.2, false_or]

theorem switched_cons_strict :
    r.switched ("--strict".toList :: rest) = Request.switched { r with strict := true } rest := by
  have hne : "--keep-comments".toList ≠ "--strict".toList := by decide
  simp only [Request.switched, List.mem_cons, hne, true_or, false_or, decide_true, Bool.or_true, Bool.true_or]

theorem switched_cons_keepComments :
    r.switched ("--keep-comments".toList :: rest) = Request.switched { r with keepComments := true } rest := by
  have hne : "--strict".toList ≠ "--keep-comments".toList := by decide
  simp only [Request.switched, List.mem_cons, hne, true_or, false_or, decide_true, Bool.or_true, Bool.true_or]

-- No switch stands where it would be the path of a configuration.
def Apart (args : List Text) : Prop := ∀ switch ∈ switches, ¬ ["--config".toList, switch] <:+: args

instance (args : List Text) : Decidable (Apart args) :=
  inferInstanceAs (Decidable (∀ switch ∈ switches, ¬ ["--config".toList, switch] <:+: args))

theorem Apart.tail (h : Apart (arg :: rest)) : Apart rest :=
  fun switch hswitch hwithin => h switch hswitch (hwithin.trans (List.suffix_cons arg rest).isInfix)

theorem Apart.not_mem (h : Apart ("--config".toList :: arg :: rest)) : arg ∉ switches :=
  fun hmem => h arg hmem ⟨[], rest, rfl⟩

theorem not_mem_switches (hstrict : arg ≠ "--strict".toList) (hkeep : arg ≠ "--keep-comments".toList) :
    arg ∉ switches := by
  simp only [switches, List.mem_cons, List.not_mem_nil, or_false, not_or]
  exact ⟨hstrict, hkeep⟩

theorem filter_cons_of_mem (h : arg ∈ switches) :
    (arg :: rest).filter (· ∉ switches) = rest.filter (· ∉ switches) :=
  List.filter_cons_of_neg (by simpa using h)

theorem filter_cons_of_not_mem (h : arg ∉ switches) :
    (arg :: rest).filter (· ∉ switches) = arg :: rest.filter (· ∉ switches) :=
  List.filter_cons_of_pos (by simpa using h)

-- The switches can be taken out and turned on beforehand.
theorem readArgs_apart (h : Apart args) (r : Request) :
    readArgs args r = readArgs (args.filter (· ∉ switches)) (r.switched args) := by
  have hconfig : "--config".toList ∉ switches := by decide
  fun_induction readArgs args r with
  | case1 r => simp [readArgs_nil, Request.switched]
  | case2 r path rest ih =>
      rw [ih h.tail.tail, filter_cons_of_not_mem hconfig, filter_cons_of_not_mem h.not_mem, readArgs_config,
        switched_cons hconfig, switched_cons h.not_mem]
      rfl
  | case3 r => rw [filter_cons_of_not_mem hconfig, List.filter_nil, readArgs, if_pos rfl]
  | case4 rest r _ ih => rw [ih h.tail, filter_cons_of_mem (by decide), switched_cons_strict]
  | case5 rest r _ _ ih => rw [ih h.tail, filter_cons_of_mem (by decide), switched_cons_keepComments]
  | case6 arg rest r hne hstrict hkeep hflag =>
      have hkept := not_mem_switches hstrict hkeep
      rw [filter_cons_of_not_mem hkept, readArgs.eq_def]
      simp only [hne, hstrict, hkeep, hflag, if_false, if_true]
  | case7 arg rest r hne hstrict hkeep hflag ih =>
      have hkept := not_mem_switches hstrict hkeep
      rw [ih h.tail, filter_cons_of_not_mem hkept, readArgs_file (eq_false_of_ne_true hflag), switched_cons hkept]
      rfl

-- Where the switches stand among the other arguments does not matter.
theorem ofArgs_eq_of_filter_eq {moved : List Text} (hperm : args.Perm moved)
    (hothers : args.filter (· ∉ switches) = moved.filter (· ∉ switches)) (h : Apart args) (hmoved : Apart moved) :
    Request.ofArgs args = Request.ofArgs moved := by
  have hswitched : ∀ r : Request, r.switched args = r.switched moved := by
    intro r
    simp only [Request.switched, hperm.mem_iff]
  rw [Request.ofArgs, Request.ofArgs, readArgs_apart h, readArgs_apart hmoved, hothers, hswitched]

end Switches

-- What there is to say about a file, and among the errors, and the number of issues if it is a
-- story
structure Account where
  out : Text
  err : Text
  issues? : Option Nat

def Account.failure (path message : Text) : Account := ⟨[], errorLine (path ++ ": ".toList ++ message), none⟩

def Account.failed (a : Account) : Bool := a.issues?.isNone

-- The account of a file follows from what is read of it, and from nothing else.
inductive Accounts (options : ParseOptions) (path : Text) : Except FileError Text → Account → Prop
  | unread {e : FileError} : Accounts options path (.error e) (.failure path e.message)
  | unscanned {source : Text} {e : FormatError}
      (h : (Template.ofSource source [] : Except FormatError (Template Empty)) = .error e) :
      Accounts options path (.ok source) (.failure path e.message)
  | unparsed {source : Text} {document : Template Empty} {issues : List Issue} {e : ParseError}
      (hdocument : Template.ofSource source [] = .ok document)
      (hparse : parse Story.host.isGate document options = (issues, .error e)) :
      Accounts options path (.ok source) (.failure path e.message)
  | parsed {source : Text} {document : Template Empty} {issues : List Issue} {story : Story}
      (hdocument : Template.ofSource source [] = .ok document)
      (hparse : parse Story.host.isGate document options = (issues, .ok story)) :
      Accounts options path (.ok source) ⟨(verdictOf path story issues).shown, [], some issues.length⟩

-- All accounts together
def Tally.ofAccounts (accounts : List Account) : Tally :=
  ⟨accounts.flatMap (·.out), accounts.flatMap (·.err), (accounts.filterMap (·.issues?)).sum,
    accounts.countP (·.failed)⟩

section Accounts

variable (files : Files) (options : ParseOptions)

theorem exists_account (path : Text) : ∃ account, Accounts options path (files path) account ∧
    ∀ accounts, (Tally.ofAccounts accounts).add path (checkFile files options path) =
      Tally.ofAccounts (account :: accounts) := by
  have hfailure : ∀ message accounts, (Tally.ofAccounts accounts).add path (.error message) =
      Tally.ofAccounts (.failure path message :: accounts) := by
    intro message accounts
    simp [Tally.add, Tally.ofAccounts, Account.failure, Account.failed, Nat.add_comm]
  have hverdict : ∀ (v : Verdict) accounts, (Tally.ofAccounts accounts).add path (.ok v) =
      Tally.ofAccounts (⟨v.shown, [], some v.issues⟩ :: accounts) := by
    intro v accounts
    simp [Tally.add, Tally.ofAccounts, Account.failed]
  unfold checkFile Story.ofSource
  cases hsource : files path with
  | error e => exact ⟨_, .unread, hfailure _⟩
  | ok source =>
      dsimp only
      cases hdocument : (Template.ofSource source [] : Except FormatError (Template Empty)) with
      | error e => exact ⟨_, .unscanned hdocument, hfailure _⟩
      | ok document =>
          dsimp only
          rcases hparse : parse Story.host.isGate document options with ⟨issues, e | story⟩
          · exact ⟨_, .unparsed hdocument hparse, hfailure _⟩
          · exact ⟨_, .parsed hdocument hparse, hverdict (verdictOf path story issues)⟩

-- The induction is on the files: each adds its own account to those of the files behind it.
theorem exists_accounts (paths : List Text) : ∃ accounts,
    List.Forall₂ (fun path => Accounts options path (files path)) paths accounts ∧
      checkFiles files options paths = Tally.ofAccounts accounts := by
  induction paths with
  | nil => exact ⟨[], .nil, rfl⟩
  | cons path paths ih =>
      obtain ⟨accounts, haccounts, htally⟩ := ih
      obtain ⟨account, haccount, hadd⟩ := exists_account files options path
      exact ⟨account :: accounts, .cons haccount haccounts, by rw [checkFiles, htally, hadd]⟩

end Accounts

-- A check says about each file what there is to say about it, whatever becomes of the others, and
-- then how many files, issues and failures there are. It fails if a file does, or if there are
-- issues and the command line or the options ask for strictness. Where the two switches stand does
-- not matter.
theorem run_gives_verdict_on_files (readOptions : OptionsReader) (files : Files) {args : List Text}
    (hhelp : asksForHelp args = false) (hknown : ¬ Unknown args) :
    (∃ known : List Argument, args = known.flatMap Argument.written ∧
      ∀ base, readOptions.loadConfig files (known.filterMap Argument.config?).getLast? = .ok base →
        let options : ParseOptions :=
          ⟨base.strict || decide (.strict ∈ known), base.keepComments || decide (.keepComments ∈ known)⟩
        let paths := known.filterMap Argument.file?
        ∃ accounts, List.Forall₂ (fun path => Accounts options path (files path)) paths accounts ∧
          let issues := (accounts.filterMap (·.issues?)).sum
          let failed := accounts.countP (·.failed)
          (runWith readOptions files args).out = accounts.flatMap (·.out) ++ outputLine ("\nSummary: ".toList ++
            Numeral.ofNat paths.length ++ " files, ".toList ++ Numeral.ofNat issues ++ " issues, ".toList ++
            Numeral.ofNat failed ++ " failed".toList) ∧
          (runWith readOptions files args).err = accounts.flatMap (·.err) ∧
          (runWith readOptions files args).code =
            if 0 < failed ∨ options.strict = true ∧ 0 < issues then 1 else 0) ∧
    ∀ moved, args.Perm moved → args.filter (· ∉ switches) = moved.filter (· ∉ switches) → Apart args →
      Apart moved → asksForHelp moved = false →
        runWith readOptions files moved = runWith readOptions files args := by
  constructor
  · obtain ⟨known, rfl⟩ := exists_arguments hknown ⟨[], none, false, false⟩
    refine ⟨known, rfl, fun base hload => ?_⟩
    intro options paths
    obtain ⟨accounts, haccounts, htally⟩ := exists_accounts files options paths
    have hrun : runWith readOptions files (known.flatMap Argument.written) =
        let t := Tally.ofAccounts accounts
        ⟨if t.fails options then 1 else 0, t.out ++ summary paths.length t, t.err⟩ := by
      rw [runWith, hhelp, if_neg Bool.false_ne_true, ofArgs_written]
      dsimp only
      rw [hload]
      dsimp only
      rw [← htally]
      rfl
    rw [hrun]
    refine ⟨accounts, haccounts, rfl, rfl, ?_⟩
    simp only [Tally.fails, Bool.or_eq_true, Bool.and_eq_true, decide_eq_true_eq]
    rfl
  · intro moved hperm hothers hargs hmoved hasks
    unfold runWith
    rw [hhelp, hasks, ofArgs_eq_of_filter_eq hperm hothers hargs hmoved]

-- An issue, a file that is not there, one that does not scan and one that names a scope twice. The
-- first configuration is not there either, and the second asks for strictness.
theorem run_gives_verdict_on_files_mixed :
    let files : Files := fun path =>
      if path = "a".toList then .ok "-> X".toList
      else if path = "c".toList then .ok "\x7b".toList
      else if path = "d".toList then .ok "== S\n== S".toList
      else if path = "o".toList then .ok "(strict: true)".toList
      else .error .notFound
    let args := ["a", "--config", "x", "b", "--config", "o", "c", "--keep-comments", "d"].map String.toList
    let moved := ["--keep-comments", "a", "--config", "x", "b", "--config", "o", "c", "d"].map String.toList
    asksForHelp args = false ∧ ¬ Unknown args ∧ Apart args ∧ Apart moved ∧ asksForHelp moved = false ∧
      (∃ accounts, List.Forall₂ (fun path => Accounts ⟨true, true⟩ path (files path))
          (["a", "b", "c", "d"].map String.toList) accounts ∧
        (run files args).err = accounts.flatMap (·.err)) ∧
      run files moved = run files args ∧ (run files moved).code = 1 := by
  intro files args moved
  have hhelp : asksForHelp args = false := by decide
  have hrequest : Request.ofArgs args =
      .ok ⟨["a", "b", "c", "d"].map String.toList, some "o".toList, false, true⟩ := by
    decide
  have hknown : ¬ Unknown args := by
    rw [unknown_iff, hrequest]
    rintro ⟨arg, harg⟩
    cases harg
  have hargs : Apart args := by decide
  have hmoved : Apart moved := by decide
  obtain ⟨⟨known, hwritten, hrun⟩, hmove⟩ := run_gives_verdict_on_files ParseOptions.ofRon files hhelp hknown
  rw [hwritten, ofArgs_written, Except.ok.injEq, Request.mk.injEq] at hrequest
  obtain ⟨hpaths, hconfig, hstrict, hkeep⟩ := hrequest
  rw [hconfig, hpaths, hstrict, hkeep] at hrun
  have hload : ParseOptions.ofRon.loadConfig files (some "o".toList) = .ok ⟨true, false⟩ := by decide +kernel
  obtain ⟨accounts, haccounts, -, herr, -⟩ := hrun _ hload
  have hsame := hmove moved (by decide) (by decide) hargs hmoved (by decide)
  exact ⟨hhelp, hknown, hargs, hmoved, by decide, ⟨accounts, haccounts, herr⟩, hsame, by decide +kernel⟩

end Narrative.Lint
