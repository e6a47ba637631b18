import AbapLayout.Text.Alphanumeric
import AbapLayout.Text.Digit

/-!
# Words, pragmas and operators

The shapes of the lexical units that are not quoted.  Each measure takes the text behind the first
character of the unit and gives the number of further characters that belong to it.

* A word goes on through word characters, through a hyphen that selects a component (`ls_row-field`,
  also at the very end of a line) and through a plus sign in front of an offset (`text+3`).
* A field symbol is a name in angle brackets; a component may follow it as in a word.
* A pragma is a name behind two number signs, with any number of arguments in square brackets.
-/

namespace AbapLayout
namespace Word

/-- The characters of words: ASCII letters and digits and the signs names may hold. -/
def isWordChar (c : Char) : Bool :=
  c.isAlphanum || "_%$#/~!@".toList.contains c

/-- The characters of pragma names. -/
def isNameChar (c : Char) : Bool :=
  c.isAlphanum || c == '_'

/-- Whether a hyphen in front of this text selects a component. -/
def selectsComponent : Text → Bool
  | [] => true
  | c :: _ => Text.isAlphanumeric c || c == '_' || c == '<'

/-- Whether a plus sign in front of this text begins an offset. -/
def beginsOffset : Text → Bool
  | [] => false
  | c :: _ => Text.isDigit c

/-- The characters with which a word goes on. -/
def length : Text → Nat
  | [] => 0
  | c :: cs =>
    if isWordChar c || (c == '-' && selectsComponent cs) || (c == '+' && beginsOffset cs) then
      length cs + 1
    else 0

/-- Whether a word begins with this character in front of this text.  A slash begins a name only
before a letter, digit or underscore, an ampersand only before a digit. -/
def begins (c : Char) (rest : Text) : Bool :=
  if c = '/' then
    match rest with
    | [] => false
    | d :: _ => Text.isAlphanumeric d || d == '_'
  else if c = '&' then
    match rest with
    | [] => false
    | d :: _ => Text.isDigit d
  else isWordChar c

/-- The length of a field symbol behind its opening angle bracket. -/
def fieldSymbolLength? (rest : Text) : Option Nat :=
  let name := rest.takeWhile fun c => isNameChar c || c == '/'
  match rest.drop name.length with
  | '>' :: more => if name.isEmpty then none else some (name.length + 1 + length more)
  | _ => none

/-- Dropping characters leaves less than there was with one character more in front. -/
theorem length_drop_lt_length_cons (c : Char) (cs : Text) (n : Nat) :
    (cs.drop n).length < (c :: cs).length := by
  rw [List.length_drop, List.length_cons]
  omega

/-- The length of the bracketed arguments at the front of a text. -/
def argumentsLength : Text → Nat
  | '[' :: cs =>
    let n := (cs.takeWhile (· != ']')).length
    if n < cs.length then n + 2 + argumentsLength (cs.drop (n + 1)) else 0
  | _ => 0
termination_by cs => cs.length
decreasing_by exact length_drop_lt_length_cons _ _ _

/-- The length of a pragma behind its first number sign. -/
def pragmaLength? : Text → Option Nat
  | '#' :: cs =>
    let name := cs.takeWhile isNameChar
    if name.isEmpty then none
    else some (name.length + 1 + argumentsLength (cs.drop name.length))
  | _ => none

/-- The operators, longer ones first. -/
def operators : List String :=
  ["&&=", "->*", "**=", "**", "<>", "<=", ">=", "+=", "-=", "*=", "/=", "?=",
   "&&", "->", "=>", "=", "<", ">", "+", "-", "*", "/", "&", "?"]

/-- The operators that select a member of an object or a class. -/
def arrows : List String :=
  ["->", "=>", "->*"]

/-- The first operator of the table at the front of a text. -/
def operator? (t : Text) : Option String :=
  operators.find? fun op => Text.startsWith t op.toList

end Word
end AbapLayout
