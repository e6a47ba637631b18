import AbapLayout.Text.Digit
import AbapLayout.Token

/-!
# Classes of tokens

Alignment compares tokens by class.  A numeric literal is a number with an optional sign and
fraction, also one in quotes; numbers are aligned at their last digit in front of the point.
-/

namespace AbapLayout

/-- The classes of tokens that alignment tells apart. -/
inductive TokenClass where
  | colon
  | comma
  | period
  | assignment
  | comparison
  | comment
  | pragma
  | literal
  | identifier
deriving DecidableEq, Repr

namespace TokenClass

def assignments : List String :=
  ["=", ":=", "+=", "-=", "*=", "/=", "&&=", "?="]

def comparisons : List String :=
  ["=", "==", "<>", "!=", "<", "<=", ">", ">="]

/-- A text behind an optional sign. -/
def dropSign : Text → Text
  | '+' :: cs => cs
  | '-' :: cs => cs
  | cs => cs

/-- A text without the line feed that may end it. -/
def dropLineFeed : Text → Text
  | [] => []
  | [c] => if c = '\n' then [] else [c]
  | c :: d :: cs => c :: dropLineFeed (d :: cs)

/-- Whether a text is empty or the fraction of a number. -/
def isFraction : Text → Bool
  | [] => true
  | '.' :: cs => !cs.isEmpty && cs.all Text.isDecimalDigit
  | _ => false

/-- Whether a text is a number in quotes with an optional fraction behind it. -/
def isQuotedNumber : Text → Bool
  | '\x27' :: cs =>
    let inner := cs.takeWhile fun c => Text.isDecimalDigit c || c == '.'
    match cs.drop inner.length with
    | '\x27' :: rest => !inner.isEmpty && isFraction rest
    | _ => false
  | _ => false

/-- Whether a text is digits with an optional fraction behind them. -/
def isPlainNumber (t : Text) : Bool :=
  let digits := t.takeWhile Text.isDecimalDigit
  !digits.isEmpty && isFraction (t.drop digits.length)

def isNumeric (t : Text) : Bool :=
  let number := dropSign (dropLineFeed t)
  isPlainNumber number || isQuotedNumber number

def ofToken (t : Token) : TokenClass :=
  if t.role = .colon then .colon
  else if t.role = .punctuation then if t.text = [','] then .comma else .period
  else if t.isOneOf assignments then .assignment
  else if t.isOneOf comparisons then .comparison
  else if t.role = .comment then .comment
  else if t.role = .pragma then .pragma
  else if t.role = .literal || isNumeric t.text then .literal
  else .identifier

/-- Classes that only align with themselves. -/
def isExact : TokenClass → Bool
  | .literal | .identifier => false
  | _ => true

/-- Classes that are never moved. -/
def isSeparator : TokenClass → Bool
  | .comma | .period | .colon => true
  | _ => false

def isOperator : TokenClass → Bool
  | .assignment | .comparison => true
  | _ => false

def aligns (a b : TokenClass) : Bool :=
  if a.isExact || b.isExact then a == b else true

def lastIndex? (p : Char → Bool) : Text → Option Nat
  | [] => none
  | c :: cs =>
    match lastIndex? p cs with
    | some i => some (i + 1)
    | none => if p c then some 0 else none

/-- Where a number is aligned: at the last digit in front of the point, or at the last character
that is neither a quote nor a minus sign. -/
def alignIndex (t : Text) : Nat :=
  let dot := (t.takeWhile (· != '.')).length
  if 0 < dot ∧ dot < t.length then dot - 1
  else (lastIndex? (fun c => !(c == '-' || c == '\x27')) t).getD 0

end TokenClass
end AbapLayout
