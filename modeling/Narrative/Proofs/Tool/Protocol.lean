import Narrative.Proofs.Tool.Session

namespace Narrative.Play

section Run

variable {readOptions : OptionsReader} {files : Files} {picks : Nat → Nat → Nat} {args : List Text}
  {opening : Opening}

theorem playable_of_start (h : start readOptions files picks args = .ok opening) :
    opening.story.Playable Story.host := by
  unfold start at h
  split at h
  · cases h
  · split at h
    · cases h
    · split at h
      · cases h
      · split at h
        · cases h
        · split at h
          · cases h
          · unfold openText at h
            split at h
            · cases h
            · next hstory =>
              dsimp only at h
              split at h
              · cases h
              · cases h
                exact Story.playable_of_ofSource hstory

theorem runNoting_of_start (h : start readOptions files picks args = .ok opening) (moves steps : Nat)
    (input : List (Option Text)) :
    runNoting readOptions files picks moves steps args input =
      ((Session.goNoting opening.story opening.player moves steps (.ofStory opening.story)).bind fun stretch =>
        stretch.finishNoting opening.story opening.player moves steps input).map
          fun report => { report with err := opening.warnings ++ report.err } := by
  rw [runNoting, h]

-- What is kept is the calls, and the report but for the warnings.
theorem kept_runNoting (h : start readOptions files picks args = .ok opening) (moves steps : Nat)
    (input : List (Option Text)) :
    (runNoting readOptions files picks moves steps args input).Kept opening.story fun report =>
      ∃ err, report.err = opening.warnings ++ err ∧ Turn.Proper opening.story (.ends report.code err) := by
  have htree := playable_of_start h
  have hgo := Session.kept_goNoting opening.player moves steps htree (Session.poised_start htree.traversable)
  have hfinish := hgo.bind fun _ hproper => Stretch.kept_finishNoting opening.player moves steps htree input hproper
  rw [runNoting_of_start h]
  exact hfinish.map fun report hreport => ⟨report.err, rfl, hreport⟩

-- The tool keeps to what a reader is for, whatever the story, the picks and the input are: it never
-- asks it to go on while options are pending, finds something to show wherever the reader stops to
-- show it, and chooses only what is there. So the one thing that a reader refuses it is to follow a
-- go-to that leads nowhere. Where options are pending, a line picks one if it is their number; the
-- end of the input and a line to quit end the session well; any other line is asked for again.
theorem run_keeps_protocol (h : start readOptions files picks args = .ok opening) (moves steps : Nat)
    (input : List (Option Text)) :
    (runNoting readOptions files picks moves steps args input).result? =
      runWith readOptions files picks moves steps args input ∧
    (∀ call ∈ (runNoting readOptions files picks moves steps args input).calls, call.Kept opening.story) ∧
    (∀ report, runWith readOptions files picks moves steps args input = some report →
      report.code = 0 ∧ report.err = opening.warnings ∨
      report.code = 1 ∧ ∃ target line, opening.story.Unresolved target line ∧
        report.err = opening.warnings ++ errorLine (ReaderError.unresolvedGoTo target line).message) ∧
    ∀ (s : Session) (labels : List (Template Empty)) (out : Text),
      s.reader.output opening.story = some (.choices labels) →
      let finish := Stretch.finish opening.story opening.player moves steps
      let asked : Stretch := ⟨out, .asks s labels.length⟩
      finish [] asked = some ⟨0, out, []⟩ ∧
      ∀ line rest,
        (∀ index, Chooses labels.length line index → ∃ reader, s.reader.choose index = .ok reader ∧
          finish (line :: rest) asked =
            (Session.go opening.story opening.player moves steps { s with reader := reader }).bind fun next =>
              finish rest (next.after out)) ∧
        (Quits line → finish (line :: rest) asked = some ⟨0, out, []⟩) ∧
        (¬ Quits line → (∀ index, ¬ Chooses labels.length line index) →
          finish (line :: rest) asked =
            finish rest ⟨out ++ (tryAgain labels.length ++ prompt), .asks s labels.length⟩) := by
  have hkept := kept_runNoting h moves steps input
  refine ⟨rfl, hkept.calls, ?_, ?_⟩
  · intro report hrun
    obtain ⟨err, herr, ⟨hcode, rfl⟩ | ⟨hcode, target, line, hunresolved, rfl⟩⟩ := hkept.result report hrun
    · exact .inl ⟨hcode, by rw [herr, List.append_nil]⟩
    · exact .inr ⟨hcode, target, line, hunresolved, herr⟩
  · intro s labels out houtput finish asked
    refine ⟨finish_input_over, fun line rest => ⟨?_, finish_of_quits, finish_of_unclear⟩⟩
    intro index hchooses
    obtain ⟨reader, hchoose⟩ := Reader.exists_choose_of_output houtput hchooses.lt
    exact ⟨reader, hchoose, finish_of_chooses hchooses hchoose⟩

end Run

-- Two lines that are asked for again, the second option, and a go-to below it that leads nowhere
theorem run_keeps_protocol_mistyped :
    let files : Files := fun path =>
      if path = "s".toList then .ok "> a\n> b\n\t-> X".toList else .error .notFound
    let args := ["s".toList]
    let lines : List (Option Text) := [some "3\n".toList, some "-1\n".toList, some " +2 \n".toList, none]
    ∃ opening, start ParseOptions.ofRon files (fun _ n => n) args = .ok opening ∧
      (∀ call ∈ (runNoting ParseOptions.ofRon files (fun _ n => n) 9 9 args lines).calls, call.Kept opening.story) ∧
      (runNoting ParseOptions.ofRon files (fun _ n => n) 9 9 args lines).calls.length = 7 ∧
      ∃ report, run files (fun _ n => n) 9 9 args lines = some report ∧ report.code = 1 ∧
        ∃ target line, opening.story.Unresolved target line ∧
          report.err = opening.warnings ++ errorLine (ReaderError.unresolvedGoTo target line).message := by
  intro files args lines
  have hstarts : (start ParseOptions.ofRon files (fun _ n => n) args).toOption.isSome = true := by decide +kernel
  obtain ⟨opening, hstart⟩ : ∃ opening, start ParseOptions.ofRon files (fun _ n => n) args = .ok opening := by
    cases hstart : start ParseOptions.ofRon files (fun _ n => n) args with
    | error report =>
        rw [hstart] at hstarts
        cases hstarts
    | ok opening => exact ⟨opening, rfl⟩
  have hcode : (run files (fun _ n => n) 9 9 args lines).map (·.code) = some 1 := by decide +kernel
  obtain ⟨report, hrun, hone⟩ := Option.map_eq_some_iff.1 hcode
  obtain ⟨-, hkept, hreport, -⟩ := run_keeps_protocol hstart 9 9 lines
  refine ⟨opening, hstart, hkept, by decide +kernel, report, hrun, hone, ?_⟩
  obtain ⟨hzero, -⟩ | ⟨-, hunresolved⟩ := hreport report hrun
  · rw [hone] at hzero
    cases hzero
  · exact hunresolved

end Narrative.Play
