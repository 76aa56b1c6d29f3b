import Narrative.Ron.Token

namespace Narrative.Ron

-- Liberties that the head of a text asks for
inductive Feature where
  | implicitSome
  | unwrapNewtypes
  | unwrapVariantNewtypes
deriving DecidableEq, Repr

namespace Feature

def all : List Feature := [implicitSome, unwrapNewtypes, unwrapVariantNewtypes]

def name : Feature → Text
  | implicitSome => "implicit_some".toList
  | unwrapNewtypes => "unwrap_newtypes".toList
  | unwrapVariantNewtypes => "unwrap_variant_newtypes".toList

def ofToken? (token : Token) : Option Feature :=
  token.name?.bind fun name => all.find? (·.name = name)

mutual

-- The features that a text asks for, and the tokens behind the last request.
-- A request is written `#![enable(…)]` and names one feature at least.
def requested? : List Token → Option (List Feature × List Token)
  | .mark '#' :: .mark '!' :: .mark '[' :: .word w :: .mark '(' :: tokens =>
    if w = "enable".toList then named? tokens else none
  | tokens => some ([], tokens)

-- The rest of a request, from the next name on
def named? : List Token → Option (List Feature × List Token)
  | token :: .mark ')' :: .mark ']' :: tokens
  | token :: .mark ',' :: .mark ')' :: .mark ']' :: tokens => do
    let (features, tokens) ← requested? tokens
    return ((← ofToken? token) :: features, tokens)
  | token :: .mark ',' :: tokens => do
    let (features, tokens) ← named? tokens
    return ((← ofToken? token) :: features, tokens)
  | _ => none

end

end Feature

end Narrative.Ron
