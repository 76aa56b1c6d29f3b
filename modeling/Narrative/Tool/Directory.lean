import Narrative.Tool.File

namespace Narrative

-- Files held in memory under their paths below one directory, as steps
abbrev Directory := List (List Text × ByteArray)

namespace Directory

inductive Entry where
  | file (bytes : ByteArray)
  | directory

def ofPaths (files : List (Text × ByteArray)) : Directory :=
  files.map fun file => (Text.splitOn '/' file.1, file.2)

-- A place is the steps that lead to it. Every directory but the outermost is there
-- for the files below it.
def entry? (d : Directory) (place : List Text) : Option Entry :=
  match d.lookup place with
  | some bytes => some (.file bytes)
  | none => if place = [] || d.any (place.isPrefixOf ·.1) then some .directory else none

-- Where steps lead from a place. Only directories can be stepped through, and there
-- is nothing outside the outermost.
def walk (d : Directory) (place : List Text) : List Text → Except FileError (List Text)
  | [] => .ok place
  | step :: steps =>
    match d.entry? place with
    | none => .error .notFound
    | some (.file _) => .error .notDirectory
    | some .directory =>
      if step = [] ∨ step = ['.'] then walk d place steps
      else if step = ['.', '.'] then
        if place = [] then .error .notFound else walk d place.dropLast steps
      else walk d (place ++ [step]) steps

def read (d : Directory) (path : Text) : Except FileError Text :=
  if path = [] ∨ path.head? = some '/' then .error .notFound
  else do
    match d.entry? (← d.walk [] (Text.splitOn '/' path)) with
    | some (.file bytes) => Files.decode bytes
    | some .directory => .error .isDirectory
    | none => .error .notFound

end Directory

end Narrative
