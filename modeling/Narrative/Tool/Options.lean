import Narrative.Ron.Options
import Narrative.Tool.File
import Narrative.Tool.Report

namespace Narrative

-- What reads the text of an options file, as options or with what there is to say about it. The
-- tools work with any.
abbrev OptionsReader := Text → Except Text ParseOptions

-- Why there are no options
inductive OptionsError where
  | file (e : FileError)
  | format (detail : Text)
deriving DecidableEq, Repr

namespace OptionsError

def message : OptionsError → Text
  | file e => "IO error: ".toList ++ e.message
  | format detail => "RON deserialization error: ".toList ++ detail

-- The same without what the reader has to say
inductive Kind where
  | file (e : FileError)
  | format
deriving DecidableEq, Repr

def kind : OptionsError → Kind
  | file e => .file e
  | format _ => .format

end OptionsError

namespace OptionsReader

def load (read : OptionsReader) (files : Files) (path : Text) : Except OptionsError ParseOptions :=
  match files path with
  | .ok t => (read t).mapError .format
  | .error e => .error (.file e)

-- The options in the file that was named, or the usual ones. The error is what a
-- tool writes about it.
def loadConfig (read : OptionsReader) (files : Files) : Option Text → Except Text ParseOptions
  | none => .ok .default
  | some path =>
    match read.load files path with
    | .ok options => .ok options
    | .error e =>
      .error (errorLine ("Failed to load options ".toList ++ quotedPath path ++ ": ".toList ++ e.message))

end OptionsReader

namespace ParseOptions

-- The reader of options in RON. It does not say where a text goes wrong.
def ofRon : OptionsReader := fun t =>
  match ofRon? t with
  | some options => .ok options
  | none => .error "options expected".toList

def read (t : Text) : Except OptionsError.Kind ParseOptions := (ofRon t).mapError fun _ => .format

def load (files : Files) (path : Text) : Except OptionsError.Kind ParseOptions :=
  (OptionsReader.load ofRon files path).mapError OptionsError.kind

end ParseOptions

end Narrative
