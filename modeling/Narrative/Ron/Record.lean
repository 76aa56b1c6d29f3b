import Narrative.Ron.Feature
import Narrative.Text.Quoted

namespace Narrative.Ron

-- Named fields between parentheses, behind the name of the record or without
structure Record where
  features : List Feature
  name : Option Text
  fields : List (Text × List Token)
deriving DecidableEq, Repr

-- Tokens between commas. A comma at the end opens no further part.
def splitCommas : List Token → List (List Token)
  | [] => []
  | token :: tokens =>
    if token = .mark ',' then [] :: splitCommas tokens
    else match splitCommas tokens with
      | [] => [[token]]
      | part :: parts => (token :: part) :: parts

def field? : List Token → Option (Text × List Token)
  | token :: .mark ':' :: value => do return (← token.name?, value)
  | _ => none

def fields? (tokens : List Token) : Option (List (Text × List Token)) :=
  (splitCommas tokens).mapM field?

-- What stands before the closing parenthesis that ends the tokens
def enclosed? (tokens : List Token) : Option (List Token) :=
  if tokens.getLast? = some (.mark ')') then some tokens.dropLast else none

def recordOf? (features : List Feature) : List Token → Option Record
  | .mark '(' :: tokens => do return ⟨features, none, ← fields? (← enclosed? tokens)⟩
  | token :: .mark '(' :: tokens => do
    return ⟨features, some (← token.name?), ← fields? (← enclosed? tokens)⟩
  | _ => none

def read? (t : Text) : Option Record := do
  let (features, tokens) ← Feature.requested? (← tokens? t)
  recordOf? features tokens

namespace Record

-- A record may leave out its name.
def isNamed (r : Record) (name : Text) : Bool := r.name.all (· == name)

-- Every field is one of these, and none is there twice.
def hasOnly (r : Record) (names : List Text) : Bool :=
  let own := r.fields.map (·.1)
  own.all (names.contains ·) && own.eraseDups.length == own.length

def value? (r : Record) (name : Text) : Option (List Token) := r.fields.lookup name

end Record

def bool? : List Token → Option Bool
  | [.word w] => if w = "true".toList then some true else if w = "false".toList then some false else none
  | _ => none

def count? : List Token → Option Nat
  | [.word w] => Numeral.readNat? Numeral.countBound w
  | _ => none

def text? : List Token → Option Text
  | [.quoted t] => some t
  | _ => none

def name? : List Token → Option Text
  | [token] => token.name?
  | _ => none

-- A text that is there stands in `Some(…)`, or alone where that is asked for.
def optionalText? (features : List Feature) : List Token → Option (Option Text)
  | [.word w] => if w = "None".toList then some none else none
  | [.quoted t] => if features.contains .implicitSome then some (some t) else none
  | [.word w, .mark '(', .quoted t, .mark ')'] => if w = "Some".toList then some (some t) else none
  | _ => none

def writeText (t : Text) : Text := Quoted.encode .data t

def writeOptionalText : Option Text → Text
  | none => "None".toList
  | some t => "Some(".toList ++ writeText t ++ [')']

-- Fields with what is written for their values, without blanks
def write (fields : List (Text × Text)) : Text :=
  '(' :: List.intercalate [','] (fields.map fun f => f.1 ++ ':' :: f.2) ++ [')']

end Narrative.Ron
