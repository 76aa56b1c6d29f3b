import Narrative.Text.Basic

namespace Narrative

-- What a tool leaves behind
structure Report where
  code : Nat
  out : Text
  err : Text
deriving DecidableEq, Repr

-- A line of output
def outputLine (t : Text) : Text := t ++ ['\n']

def errorLine (t : Text) : Text := outputLine ("ERROR: ".toList ++ t)

def quotedPath (path : Text) : Text := '\'' :: path ++ ['\'']

-- Whether an argument has the form of a flag
def isFlag (arg : Text) : Bool := (Text.stripPrefix? "--".toList arg).isSome

-- Without arguments a tool says how it is used.
def asksForHelp : List Text → Bool
  | [] => true
  | arg :: _ => arg == "--help".toList || arg == "-h".toList

end Narrative
