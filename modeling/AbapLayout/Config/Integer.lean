import AbapLayout.Config.Value
import AbapLayout.Text.Blank
import AbapLayout.Text.Digit

/-!
# Integers from values

How a value that was given where an integer is wanted is read as one.  A text may have blanks around
it, a sign, and single underscores between its digits, which may be digits of any script.  A
floating-point number loses its fraction.  A text of too many digits is not read.
-/

namespace AbapLayout
namespace Integer

def digitValue? (c : Char) : Option Nat :=
  if c.isDigit then some (c.toNat - '0'.toNat)
  else
    match Text.decimalDigitRanges.find? fun r => r.1 ≤ c.toNat && c.toNat ≤ r.2 with
    | some r => some ((c.toNat - r.1) % 10)
    | none => none

/-- Reads digits behind the number read so far; an underscore stands only between two digits. -/
def readDigits (acc : Nat) : Text → Option Nat
  | [] => some acc
  | '_' :: c :: cs =>
    match digitValue? c with
    | some d => readDigits (10 * acc + d) cs
    | none => none
  | c :: cs =>
    match digitValue? c with
    | some d => readDigits (10 * acc + d) cs
    | none => none

/-- Reads a number of at least one digit. -/
def readNat? : Text → Option Nat
  | [] => none
  | c :: cs =>
    match digitValue? c with
    | some d => readDigits d cs
    | none => none

def maxDigits : Nat := 4300

def isTooLong (t : Text) : Bool :=
  decide (maxDigits < t.countP fun c => (digitValue? c).isSome)

def ofText? (t : Text) : Option Int :=
  if isTooLong t then none
  else match Text.trim t with
  | '-' :: cs => (readNat? cs).map fun n => -(n : Int)
  | '+' :: cs => (readNat? cs).map fun n => (n : Int)
  | cs => (readNat? cs).map fun n => (n : Int)

/-- A finite floating-point number without its fraction. -/
def truncate (x : Float) : Int :=
  let b := Decimal.Binary.ofBits x.toBits
  let size := if b.exponent < 0 then b.mantissa / Nat.pow 2 (-b.exponent).toNat
    else b.mantissa * Nat.pow 2 b.exponent.toNat
  if Decimal.isUnsigned x then size else -(size : Int)

/-- The integer that a floating-point number is, if it has no fraction. -/
def integral? (x : Float) : Option Int :=
  let b := Decimal.Binary.ofBits x.toBits
  if x.isNaN || x.isInf || (decide (b.exponent < 0)
    && b.mantissa % Nat.pow 2 (-b.exponent).toNat != 0) then none
  else some (truncate x)

/-- What comes of reading a value as an integer. -/
inductive Reading where
  | integer (n : Int)
  | notAnInteger
  /-- An infinite number. -/
  | overflow
deriving DecidableEq, Repr

def ofValue : Value → Reading
  | .int n => .integer n
  | .bool b => .integer (if b then 1 else 0)
  | .real x =>
    if x.isInf then .overflow
    else if x.isNaN then .notAnInteger
    else .integer (truncate x)
  | .text s =>
    match ofText? s.toList with
    | some n => .integer n
    | none => .notAnInteger
  | _ => .notAnInteger

end Integer
end AbapLayout
