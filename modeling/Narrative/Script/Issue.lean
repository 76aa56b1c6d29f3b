import Narrative.Text.Numeral

namespace Narrative

inductive IssueKind where
  | mixedIndentation
  | unexpectedIndentation
  | tokenEmpty
  | tokenNonEmpty
  | unknownScope
deriving DecidableEq, Repr

namespace IssueKind

def all : List IssueKind :=
  [mixedIndentation, unexpectedIndentation, tokenEmpty, tokenNonEmpty, unknownScope]

def name : IssueKind → Text
  | mixedIndentation => "mixed-indentation".toList
  | unexpectedIndentation => "unexpected-indentation".toList
  | tokenEmpty => "token-empty".toList
  | tokenNonEmpty => "token-non-empty".toList
  | unknownScope => "unknown-scope".toList

end IssueKind

-- What can be wrong with a line of a script. None of it stops the reading.
inductive Fault where
  | mixedIndentation
  | partialUnit
  | tooDeep (depth height : Nat)
  | indentedHeader
  | cannotOwn
  | namelessHeader
  | namelessGoTo
  | returnContent (content : Text)
  | closeContent (content : Text)
  | unknownScope (target : Text)
deriving DecidableEq, Repr

namespace Fault

def kind : Fault → IssueKind
  | mixedIndentation => .mixedIndentation
  | partialUnit | tooDeep _ _ | indentedHeader | cannotOwn => .unexpectedIndentation
  | namelessHeader | namelessGoTo => .tokenEmpty
  | returnContent _ | closeContent _ => .tokenNonEmpty
  | unknownScope _ => .unknownScope

def message : Fault → Text
  | mixedIndentation => "indentation mixes tabs and spaces".toList
  | partialUnit => "indentation is not a whole number of indent units".toList
  | tooDeep depth height =>
    "indented ".toList ++ Numeral.ofNat depth ++ " levels where at most ".toList ++
      Numeral.ofNat height ++ " are open".toList
  | indentedHeader => "scope headers cannot be indented".toList
  | cannotOwn => "the line above cannot own indented lines".toList
  | namelessHeader => "scope header needs a name".toList
  | namelessGoTo => "go-to needs a scope name".toList
  | returnContent content => "return takes no content, found '".toList ++ content ++ ['\'']
  | closeContent content => "close-choice takes no content, found '".toList ++ content ++ ['\'']
  | unknownScope target => "unknown scope '".toList ++ target ++ ['\'']

end Fault

-- A diagnostic. Lines count from zero, and the text is the whole source line.
structure Issue where
  kind : IssueKind
  line : Nat
  text : Option Text
  message : Text
deriving DecidableEq, Repr

namespace Issue

def ofFault (line : Nat) (raw : Text) (fault : Fault) : Issue :=
  ⟨fault.kind, line, some raw, fault.message⟩

-- For people, who count lines from one
def display (i : Issue) : Text :=
  "line ".toList ++ Numeral.ofNat (i.line + 1) ++ " [".toList ++ i.kind.name ++ "]: ".toList ++
    i.message ++ (i.text.map fun t => "\n    | ".toList ++ t).getD []

end Issue

end Narrative
