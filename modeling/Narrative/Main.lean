import Narrative.Tool.Lint
import Narrative.Tool.Play

namespace Narrative.Main

def fileError (e : IO.Error) : FileError :=
  match e with
  | .inappropriateType _ code _ =>
    if code = 21 then .isDirectory else .notDirectory
  | _ => .notFound

-- What the files that arguments may name hold
def readFiles (paths : List String) : IO Files := do
  let contents ← paths.mapM fun (path : String) => do
    try
      let bytes ← IO.FS.readBinFile path
      return (path.toList, Files.decode bytes)
    catch e => return (path.toList, .error (fileError e))
  return fun path => (contents.lookup path).getD (.error .notFound)

def finishWith (report : Report) : IO UInt32 := do
  IO.print (String.ofList report.out)
  IO.eprint (String.ofList report.err)
  return UInt32.ofNat report.code

-- Moves and steps that are made before a story counts as endless
def patience : Nat := Nat.pow 2 62

-- Shows a stretch, waits for the answer, and goes on.
partial def converse (opening : Play.Opening) : Option Play.Stretch → IO UInt32
  | none => return 1
  | some stretch => do
    IO.print (String.ofList stretch.out)
    match stretch.turn with
    | .ends code err =>
      IO.eprint (String.ofList err)
      return UInt32.ofNat code
    | .asks session count =>
      (← IO.getStdout).flush
      let input ← try pure (some (← (← IO.getStdin).getLine).toList) catch _ => pure none
      converse opening
        (session.resume opening.story opening.player patience patience count input)

def play (files : Files) (args : List Text) : IO UInt32 :=
  match Play.start ParseOptions.ofRon files Play.scramble args with
  | .error report => finishWith report
  | .ok opening => do
    IO.eprint (String.ofList opening.warnings)
    converse opening
      (Play.Session.go opening.story opening.player patience patience (.ofStory opening.story))

def usage : String := "Usage: (lint | play) <arguments>"

end Narrative.Main

open Narrative in
def main (args : List String) : IO UInt32 :=
  match args with
  | "lint" :: rest => do
    Main.finishWith (Lint.runWith ParseOptions.ofRon (← Main.readFiles rest) (rest.map String.toList))
  | "play" :: rest => do Main.play (← Main.readFiles rest) (rest.map String.toList)
  | _ => do
    IO.eprintln Main.usage
    return 2
