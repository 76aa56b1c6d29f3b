import Narrative.Text.Blank

namespace Narrative

-- What one line of a script says, told by how it begins
inductive Statement where
  | header (name : Text)
  | goTo (target : Text)
  | ret (content : Text)
  | choice (label : Text)
  | closeChoice (content : Text)
  | comment (note : Text)
  | line (shown : Text)
deriving DecidableEq, Repr

namespace Statement

-- A name between runs of equals signs. The run behind it may be missing.
def headerName (t : Text) : Text :=
  Text.trim (Text.dropEndWhile (· = '=') (Text.trimEnd (t.dropWhile (· = '='))))

-- Reads a line without its indentation.
def ofBody : Text → Statement
  | '=' :: '=' :: rest => header (headerName rest)
  | '-' :: '>' :: rest => goTo (Text.trim rest)
  | '<' :: '-' :: rest => ret (Text.trim rest)
  | '>' :: rest => choice (Text.trim rest)
  | '<' :: rest => closeChoice (Text.trim rest)
  | '/' :: '/' :: rest => comment (Text.trim rest)
  | body => line (Text.trimEnd body)

end Statement

end Narrative
