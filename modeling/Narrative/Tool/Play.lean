import Narrative.Reader.Advance
import Narrative.Tool.Options
import Narrative.Tool.Story

namespace Narrative.Play

def usage : Text :=
  outputLine ("Usage: screech_play <file> [--config <options.ron>] [--auto] [--seed <n>] " ++
    "[--max <steps>]").toList

structure Request where
  file : Option Text
  config : Option Text
  auto : Bool
  seed : Nat
  maxSteps : Nat
deriving DecidableEq, Repr

def defaultSeed : Nat := 42

def defaultMax : Nat := 1000

def readCount (default : Nat) (t : Text) : Nat := (Numeral.readNat? Numeral.countBound t).getD default

-- A flag that takes a value is unknown without one, and so is a second file.
def readArgs : List Text → Request → Except Text Request
  | [], r => .ok r
  | arg :: rest, r =>
    if arg = "--config".toList then
      match rest with
      | path :: rest => readArgs rest { r with config := some path }
      | [] => .error arg
    else if arg = "--seed".toList then
      match rest with
      | n :: rest => readArgs rest { r with seed := readCount defaultSeed n }
      | [] => .error arg
    else if arg = "--max".toList then
      match rest with
      | n :: rest => readArgs rest { r with maxSteps := readCount defaultMax n }
      | [] => .error arg
    else if arg = "--auto".toList then readArgs rest { r with auto := true }
    else if isFlag arg || r.file.isSome then .error arg
    else readArgs rest { r with file := some arg }

def Request.ofArgs (args : List Text) : Except Text Request :=
  readArgs args ⟨none, none, false, defaultSeed, defaultMax⟩

-- Who answers choices: a person, or a sequence of picks for so many steps
inductive Player where
  | person
  | auto (maxSteps : Nat) (picks : Nat → Nat)

-- A story under way, with the steps and the automatic picks made so far
structure Session where
  reader : Reader Unit
  steps : Nat
  picked : Nat
deriving DecidableEq, Repr

-- A session waits for an answer among so many options, or is over.
inductive Turn where
  | asks (session : Session) (count : Nat)
  | ends (code : Nat) (err : Text)
deriving DecidableEq, Repr

-- What was written to standard output before a turn
structure Stretch where
  out : Text
  turn : Turn
deriving DecidableEq, Repr

def Stretch.after (out : Text) (s : Stretch) : Stretch := { s with out := out ++ s.out }

def Session.ofStory (story : Story) : Session := ⟨.ofTree story (), 0, 0⟩

def shown (t : Template Empty) : Text := ((t.render Story.host.render).toOption).getD []

def menu (labels : List (Template Empty)) : Text :=
  '\n' :: (labels.mapIdx fun n label =>
    outputLine ("  ".toList ++ Numeral.ofNat (n + 1) ++ ". ".toList ++ shown label)).flatten

def prompt : Text := "choice> ".toList

def Player.outOfSteps (p : Player) (steps : Nat) : Bool :=
  match p with
  | .person => false
  | .auto maxSteps _ => maxSteps ≤ steps

-- What the tool asks the reader, with the reader that is asked and what it gives back, and how
-- often it asks for input
inductive Call where
  | advance (reader : Reader Unit) (reply : Option Pause)
  | output (reader : Reader Unit) (reply : Option (Output Empty))
  | choose (reader : Reader Unit) (index : Nat) (reply : Except ReaderError (Reader Unit))
  | prompt (reader : Reader Unit) (count : Nat)

-- A part of a session: all calls in it, and what it comes to. There is nothing that it comes to
-- if it is not over after so many moves or steps.
structure Noted (β : Type) where
  calls : List Call
  result? : Option β

namespace Noted

variable {β γ : Type}

def ofResult (b : β) : Noted β := ⟨[], some b⟩

def bind (n : Noted β) (f : β → Noted γ) : Noted γ :=
  match n.result? with
  | none => ⟨n.calls, none⟩
  | some b =>
    let further := f b
    ⟨n.calls ++ further.calls, further.result?⟩

def map (f : β → γ) (n : Noted β) : Noted γ := ⟨n.calls, n.result?.map f⟩

@[simp] theorem result?_bind (n : Noted β) (f : β → Noted γ) :
    (n.bind f).result? = n.result?.bind fun b => (f b).result? := by
  unfold bind
  cases n.result? <;> rfl

end Noted

def Session.advanced (s : Session) (reader : Reader Unit) : Session :=
  { s with reader := reader, steps := s.steps + 1 }

-- A step of the tool: how it ends, or what it writes before it goes on
def Session.stepNoting (story : Story) (player : Player) (moves : Nat) (s : Session) :
    Noted (Stretch ⊕ (Text × Session)) :=
  if player.outOfSteps s.steps then
    .ofResult (.inl ⟨outputLine ("\n(stopped after ".toList ++ Numeral.ofNat s.steps ++ " steps)".toList),
      .ends 0 []⟩)
  else
    let reply := s.reader.advance Story.host story moves ()
    let advanced := Call.advance s.reader (reply.map (·.1))
    match reply with
    | none => ⟨[advanced], none⟩
    | some (.ended, _, _) => ⟨[advanced], some (.inl ⟨outputLine "\n(the end)".toList, .ends 0 []⟩)⟩
    | some (.refused e, _, _) => ⟨[advanced], some (.inl ⟨[], .ends 1 (errorLine e.message)⟩)⟩
    -- no reader of a story comes here: without arguments there is nothing that cannot be rendered
    | some (.unrendered _, _, _) => ⟨[advanced], some (.inl ⟨[], .ends 1 []⟩)⟩
    | some (.shown, reader, _) =>
      let s := s.advanced reader
      let output := reader.output story
      let calls := [advanced, .output reader output]
      match output with
      | none => ⟨calls, some (.inr ([], s))⟩
      | some (.line t) => ⟨calls, some (.inr (outputLine (shown t), s))⟩
      | some (.choices labels) =>
        match player with
        | .person => ⟨calls ++ [.prompt reader labels.length],
            some (.inl ⟨menu labels ++ prompt, .asks s labels.length⟩)⟩
        | .auto _ picks =>
          let index := picks s.picked % labels.length
          let out := menu labels ++ outputLine ("> ".toList ++ Numeral.ofNat (index + 1))
          let reply := reader.choose index
          let calls := calls ++ [.choose reader index reply]
          match reply with
          | .ok reader => ⟨calls, some (.inr (out, { s with reader := reader, picked := s.picked + 1 }))⟩
          | .error e => ⟨calls, some (.inl ⟨out, .ends 1 (errorLine e.message)⟩)⟩

-- Goes on until an answer is needed or the session is over, for so many steps.
def Session.goNoting (story : Story) (player : Player) (moves : Nat) : Nat → Session → Noted Stretch
  | 0, _ => ⟨[], none⟩
  | steps + 1, s => (s.stepNoting story player moves).bind fun
    | .inl stretch => .ofResult stretch
    | .inr (out, s) => (goNoting story player moves steps s).map (.after out)

def Session.go (story : Story) (player : Player) (moves steps : Nat) (s : Session) : Option Stretch :=
  (s.goNoting story player moves steps).result?

-- What a line of input says
inductive Answer where
  | quit
  | pick (index : Nat)
  | unclear
deriving DecidableEq, Repr

def Answer.ofWord (count : Nat) (word : Text) : Answer :=
  if word = "quit".toList ∨ word = "exit".toList ∨ word = "q".toList then .quit
  else match Numeral.readNat? Numeral.countBound word with
    | some n => if 1 ≤ n ∧ n ≤ count then .pick (n - 1) else .unclear
    | none => .unclear

-- The end of input, or input that is no text, ends the session.
def Answer.ofInput (count : Nat) : Option Text → Answer
  | none => .quit
  | some input => if input = [] then .quit else ofWord count (Text.trim input)

def tryAgain (count : Nat) : Text :=
  outputLine ("Enter a number from 1 to ".toList ++ Numeral.ofNat count ++ ['.'])

def Session.resumeNoting (story : Story) (player : Player) (moves steps : Nat) (s : Session) (count : Nat)
    (input : Option Text) : Noted Stretch :=
  match Answer.ofInput count input with
  | .quit => .ofResult ⟨[], .ends 0 []⟩
  | .unclear => ⟨[.prompt s.reader count], some ⟨tryAgain count ++ prompt, .asks s count⟩⟩
  | .pick index =>
    let reply := s.reader.choose index
    let chosen := Call.choose s.reader index reply
    match reply with
    | .ok reader => Noted.bind ⟨[chosen], some reader⟩ fun reader =>
        Session.goNoting story player moves steps { s with reader := reader }
    | .error e => ⟨[chosen], some ⟨[], .ends 1 (errorLine e.message)⟩⟩

def Session.resume (story : Story) (player : Player) (moves steps : Nat) (s : Session) (count : Nat)
    (input : Option Text) : Option Stretch :=
  (s.resumeNoting story player moves steps count input).result?

-- Answers one line of input after the other, and ends with the input.
def Stretch.finishNoting (story : Story) (player : Player) (moves steps : Nat) (inputs : List (Option Text))
    (stretch : Stretch) : Noted Report :=
  match stretch.turn with
  | .ends code err => .ofResult ⟨code, stretch.out, err⟩
  | .asks s count =>
    match inputs with
    | [] => .ofResult ⟨0, stretch.out, []⟩
    | input :: rest => (s.resumeNoting story player moves steps count input).bind fun next =>
        finishNoting story player moves steps rest (next.after stretch.out)

def Stretch.finish (story : Story) (player : Player) (moves steps : Nat) (inputs : List (Option Text))
    (stretch : Stretch) : Option Report :=
  (stretch.finishNoting story player moves steps inputs).result?

-- A story that is ready to be played, and the warnings about it
structure Opening where
  story : Story
  player : Player
  warnings : Text

def warning (i : Issue) : Text := outputLine ("WARNING: ".toList ++ i.display)

-- Warnings keep a story from being played only in strict mode.
def openText (request : Request) (options : ParseOptions) (picks : Nat → Nat) (source : Text) :
    Except Report Opening :=
  match Story.ofSource options source with
  | .error message => .error ⟨1, [], errorLine message⟩
  | .ok (issues, story) =>
    let warnings := issues.flatMap warning
    if options.strict ∧ issues ≠ [] then .error ⟨1, [], warnings⟩
    else .ok ⟨story, if request.auto then .auto request.maxSteps picks else .person, warnings⟩

-- Everything up to the first line of the story. The picks may depend on the
-- seed that was asked for.
def start (readOptions : OptionsReader) (files : Files) (picks : Nat → Nat → Nat) (args : List Text) :
    Except Report Opening :=
  if asksForHelp args then .error ⟨0, usage, []⟩
  else match Request.ofArgs args with
    | .error arg => .error ⟨1, usage, outputLine ("Unknown argument: ".toList ++ arg)⟩
    | .ok request =>
      match request.file with
      | none => .error ⟨1, usage, []⟩
      | some path =>
        match readOptions.loadConfig files request.config with
        | .error message => .error ⟨1, [], message⟩
        | .ok options =>
          match files path with
          | .error e =>
            .error ⟨1, [], errorLine ("Failed to read ".toList ++ quotedPath path ++ ": ".toList ++ e.message)⟩
          | .ok source => openText request options (picks request.seed) source

-- A whole session with its input. It comes to nothing if it is not over after so many moves of the
-- reader between two pauses, or steps between two answers. What a log would say among the errors
-- is left out. It says nothing unless it is asked to.
def runNoting (readOptions : OptionsReader) (files : Files) (picks : Nat → Nat → Nat) (moves steps : Nat)
    (args : List Text) (input : List (Option Text)) : Noted Report :=
  match start readOptions files picks args with
  | .error report => .ofResult report
  | .ok opening =>
    let session := Session.goNoting opening.story opening.player moves steps (.ofStory opening.story)
    (session.bind fun stretch => stretch.finishNoting opening.story opening.player moves steps input).map
      fun report => { report with err := opening.warnings ++ report.err }

def runWith (readOptions : OptionsReader) (files : Files) (picks : Nat → Nat → Nat) (moves steps : Nat)
    (args : List Text) (input : List (Option Text)) : Option Report :=
  (runNoting readOptions files picks moves steps args input).result?

def run (files : Files) (picks : Nat → Nat → Nat) (moves steps : Nat) (args : List Text)
    (input : List (Option Text)) : Option Report :=
  runWith ParseOptions.ofRon files picks moves steps args input

-- Numbers that look random, by their place in the sequence of a seed
def scramble (seed place : Nat) : Nat :=
  let z := UInt64.ofNat seed + UInt64.ofNat (place + 1) * 0x9E3779B97F4A7C15
  let z := (z ^^^ (z >>> 30)) * 0xBF58476D1CE4E5B9
  let z := (z ^^^ (z >>> 27)) * 0x94D049BB133111EB
  (z ^^^ (z >>> 31)).toNat

end Narrative.Play
