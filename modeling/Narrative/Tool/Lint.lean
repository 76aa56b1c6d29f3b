import Narrative.Tool.Options
import Narrative.Tool.Story

namespace Narrative.Lint

def usage : Text :=
  outputLine "Usage: screech_lint <file>... [--config <options.ron>] [--strict] [--keep-comments]".toList

structure Request where
  files : List Text
  config : Option Text
  strict : Bool
  keepComments : Bool
deriving DecidableEq, Repr

-- The last of several configurations counts. An argument that looks like a flag
-- and is none is the error.
def readArgs : List Text → Request → Except Text Request
  | [], r => .ok r
  | arg :: rest, r =>
    if arg = "--config".toList then
      match rest with
      | path :: rest => readArgs rest { r with config := some path }
      | [] => .error arg
    else if arg = "--strict".toList then readArgs rest { r with strict := true }
    else if arg = "--keep-comments".toList then readArgs rest { r with keepComments := true }
    else if isFlag arg then .error arg
    else readArgs rest { r with files := r.files ++ [arg] }

def Request.ofArgs (args : List Text) : Except Text Request := readArgs args ⟨[], none, false, false⟩

-- The options of a file, with those turned on that the command line asks for
def Request.options (r : Request) (options : ParseOptions) : ParseOptions :=
  ⟨options.strict || r.strict, options.keepComments || r.keepComments⟩

-- A file that can be parsed has a text about it and a number of issues.
structure Verdict where
  shown : Text
  issues : Nat
deriving DecidableEq, Repr

def verdictOf (path : Text) (story : Story) (issues : List Issue) : Verdict :=
  let head := outputLine ("=== ".toList ++ path ++ " ===".toList) ++
    outputLine ("  ".toList ++ Numeral.ofNat story.nodes.size ++ " nodes, ".toList ++
      Numeral.ofNat story.scopes.length ++ " scopes".toList)
  let body := if issues = [] then outputLine "  All checks passed!".toList
    else issues.flatMap fun i => outputLine ("  ".toList ++ i.display)
  ⟨head ++ body, issues.length⟩

def checkFile (files : Files) (options : ParseOptions) (path : Text) : Except Text Verdict :=
  match files path with
  | .error e => .error e.message
  | .ok source => (Story.ofSource options source).map fun (issues, story) => verdictOf path story issues

-- The verdicts on several files. One that fails does not keep the others from
-- being checked.
structure Tally where
  out : Text
  err : Text
  issues : Nat
  failed : Nat
deriving DecidableEq, Repr

def Tally.add (path : Text) (verdict : Except Text Verdict) (t : Tally) : Tally :=
  match verdict with
  | .ok v => { t with out := v.shown ++ t.out, issues := v.issues + t.issues }
  | .error message =>
    { t with err := errorLine (path ++ ": ".toList ++ message) ++ t.err, failed := 1 + t.failed }

def checkFiles (files : Files) (options : ParseOptions) : List Text → Tally
  | [] => ⟨[], [], 0, 0⟩
  | path :: paths => (checkFiles files options paths).add path (checkFile files options path)

def summary (count : Nat) (t : Tally) : Text :=
  outputLine ("\nSummary: ".toList ++ Numeral.ofNat count ++ " files, ".toList ++ Numeral.ofNat t.issues ++
    " issues, ".toList ++ Numeral.ofNat t.failed ++ " failed".toList)

-- Issues count as failure only in strict mode.
def Tally.fails (t : Tally) (options : ParseOptions) : Bool :=
  0 < t.failed || (options.strict && 0 < t.issues)

-- What a log would say among the errors is left out. It says nothing unless it is asked to.
def runWith (readOptions : OptionsReader) (files : Files) (args : List Text) : Report :=
  if asksForHelp args then ⟨0, usage, []⟩
  else match Request.ofArgs args with
    | .error arg => ⟨2, [], outputLine ("Unknown argument: ".toList ++ arg)⟩
    | .ok r =>
      match readOptions.loadConfig files r.config with
      | .error message => ⟨1, [], message⟩
      | .ok config =>
        let options := r.options config
        let t := checkFiles files options r.files
        ⟨if t.fails options then 1 else 0, t.out ++ summary r.files.length t, t.err⟩

def run (files : Files) (args : List Text) : Report := runWith ParseOptions.ofRon files args

end Narrative.Lint
