import Narrative.Text.Basic

namespace Narrative

-- Why a file has no text
inductive FileError where
  | notFound
  | notDirectory
  | isDirectory
  | notText
deriving DecidableEq, Repr

def FileError.message : FileError → Text
  | notFound => "No such file or directory (os error 2)".toList
  | notDirectory => "Not a directory (os error 20)".toList
  | isDirectory => "Is a directory (os error 21)".toList
  | notText => "stream did not contain valid UTF-8".toList

-- What the files of a directory hold, by their paths
abbrev Files := Text → Except FileError Text

namespace Files

def decode? (bytes : ByteArray) : Option Text := (String.fromUTF8? bytes).map String.toList

def decode (bytes : ByteArray) : Except FileError Text :=
  match decode? bytes with
  | some t => .ok t
  | none => .error .notText

-- Lines with their line breaks. The last one may lack its own.
def splitLines : List UInt8 → List (List UInt8)
  | [] => []
  | b :: bytes =>
    if b = 10 then [b] :: splitLines bytes
    else match splitLines bytes with
      | [] => [[b]]
      | line :: lines => (b :: line) :: lines

-- The lines of an input. One that is no text is none.
def inputLines (bytes : ByteArray) : List (Option Text) :=
  (splitLines bytes.toList).map fun line => decode? ⟨line.toArray⟩

end Files

end Narrative
