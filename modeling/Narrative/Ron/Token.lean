import Narrative.Text.Numeral

namespace Narrative.Ron

-- Names, numbers and the words for truth and absence are all words here. A marked
-- word stands behind `r#` and is always a name.
inductive Token where
  | word (w : Text)
  | marked (w : Text)
  | quoted (t : Text)
  | mark (c : Char)
deriving DecidableEq, Repr

-- Where the reading stands between two characters. Letters that are read and not
-- yet used are kept last first.
inductive Mode where
  | between
  | word (letters : Text)
  | marked (letters : Text)
  | quoted (letters : Text)
  | escape (letters : Text)
  | codePoint (letters : Text) (digits : Option Text)
  | slash
  | lineComment
  | blockComment (level : Nat) (before : Char)
deriving DecidableEq, Repr

def isSpace (c : Char) : Bool := c == ' ' || c == '\t' || c == '\n' || c == '\r'

def isWordChar (c : Char) : Bool := c.isAlphanum || c == '_' || c == '-' || c == '+' || c == '.'

def isMark (c : Char) : Bool :=
  c == '(' || c == ')' || c == '[' || c == ']' || c == ':' || c == ',' || c == '#' || c == '!'

def Token.name? : Token → Option Text
  | word w | marked w => some w
  | _ => none

def hexValue? (c : Char) : Option Nat :=
  if c.isDigit then some (c.toNat - 48)
  else if 'a' ≤ c ∧ c ≤ 'f' then some (c.toNat - 87)
  else if 'A' ≤ c ∧ c ≤ 'F' then some (c.toNat - 55)
  else none

-- The character of a code point, unless it is a surrogate or too great
def charOfHex? (digits : Text) : Option Char :=
  (digits.foldl (fun n c => do return 16 * (← n) + (← hexValue? c)) (some 0)).bind fun n =>
    if n.isValidChar then some (Char.ofNat n) else none

def unescape? (c : Char) : Option Char :=
  match c with
  | 'n' => some '\n'
  | 't' => some '\t'
  | 'r' => some '\r'
  | '0' => some '\x00'
  | '"' | '\'' | '\\' => some c
  | _ => none

def startToken (c : Char) : Option (List Token × Mode) :=
  if isSpace c then some ([], .between)
  else if isMark c then some ([.mark c], .between)
  else if isWordChar c then some ([], .word [c])
  else if c = '"' then some ([], .quoted [])
  else if c = '/' then some ([], .slash)
  else none

-- Comments between slash and star nest. The two characters that open or close one
-- are used up together.
def stepComment (level : Nat) (before c : Char) : Mode :=
  if before = '/' ∧ c = '*' then .blockComment (level + 1) ' '
  else if before = '*' ∧ c = '/' then
    if level ≤ 1 then .between else .blockComment (level - 1) ' '
  else .blockComment level c

def step (mode : Mode) (c : Char) : Option (List Token × Mode) :=
  match mode with
  | .between => startToken c
  | .word letters =>
    if isWordChar c then some ([], .word (c :: letters))
    else if c = '#' ∧ letters = ['r'] then some ([], .marked [])
    else (startToken c).map fun next => (.word letters.reverse :: next.1, next.2)
  | .marked letters =>
    if isWordChar c then some ([], .marked (c :: letters))
    else if letters = [] then none
    else (startToken c).map fun next => (.marked letters.reverse :: next.1, next.2)
  | .quoted letters =>
    if c = '"' then some ([.quoted letters.reverse], .between)
    else if c = '\\' then some ([], .escape letters)
    else some ([], .quoted (c :: letters))
  | .escape letters =>
    if c = 'u' then some ([], .codePoint letters none)
    else (unescape? c).map fun d => ([], .quoted (d :: letters))
  | .codePoint letters none => if c = '{' then some ([], .codePoint letters (some [])) else none
  | .codePoint letters (some digits) =>
    if c = '}' then (charOfHex? digits.reverse).map fun d => ([], .quoted (d :: letters))
    else some ([], .codePoint letters (some (c :: digits)))
  | .slash =>
    if c = '/' then some ([], .lineComment)
    else if c = '*' then some ([], .blockComment 1 ' ')
    else none
  | .lineComment => some ([], if c = '\n' then .between else .lineComment)
  | .blockComment level before => some ([], stepComment level before c)

-- What may stand at the end of a text
def finish? : Mode → Option (List Token)
  | .between | .lineComment => some []
  | .word letters => some [.word letters.reverse]
  | .marked letters => if letters = [] then none else some [.marked letters.reverse]
  | _ => none

def tokensFrom? : Mode → Text → Option (List Token)
  | mode, [] => finish? mode
  | mode, c :: t => do
    let (tokens, mode) ← step mode c
    let others ← tokensFrom? mode t
    return tokens ++ others

def tokens? (t : Text) : Option (List Token) := tokensFrom? .between t

end Narrative.Ron
