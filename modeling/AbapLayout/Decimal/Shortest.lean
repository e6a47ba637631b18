/-!
# The shortest decimal of a binary number

A finite floating-point number is `mantissa * 2 ^ exponent`.  All reals between the midpoints to its
two neighbours are read back as this number; the midpoints themselves are if the mantissa is even.
`shortest` finds the least number of digits with which a decimal in this interval can be written,
and among those the decimal nearest to the number.
-/

namespace AbapLayout

/-- The decimal `digits * 10 ^ exponent`. -/
structure Decimal where
  digits : Nat
  exponent : Int
deriving DecidableEq, Repr

namespace Decimal

/-- A positive number `mantissa * 2 ^ exponent`. -/
structure Binary where
  mantissa : Nat
  exponent : Int
  /-- The lower neighbour is only half as far away as the upper one. -/
  narrowBelow : Bool
deriving DecidableEq, Repr

/-- The number with the given bits, without its sign. -/
def Binary.ofBits (bits : UInt64) : Binary :=
  let n := bits.toNat % Nat.pow 2 63
  let fraction : Nat := n % Nat.pow 2 52
  let power : Nat := n / Nat.pow 2 52
  if power = 0 then ⟨fraction, -1074, false⟩
  else ⟨fraction + Nat.pow 2 52, (power : Int) - 1075, fraction == 0 && 1 < power⟩

/-- Whether a floating-point number has no minus sign. -/
def isUnsigned (x : Float) : Bool :=
  x.toBits.toNat < Nat.pow 2 63

/-- A number and the ends of its interval as quotients with one denominator. -/
structure Interval where
  low : Nat
  value : Nat
  high : Nat
  denominator : Nat
  closed : Bool

/-- The interval of the reals that are read back as a number. -/
def Binary.interval (b : Binary) : Interval :=
  let power := b.exponent - 2
  let scale := Nat.pow 2 power.toNat
  { low := (4 * b.mantissa - if b.narrowBelow then 1 else 2) * scale
    value := 4 * b.mantissa * scale
    high := (4 * b.mantissa + 2) * scale
    denominator := Nat.pow 2 (-power).toNat
    closed := b.mantissa % 2 == 0 }

/-- Whether `digits * 10 ^ exponent` lies in an interval. -/
def Interval.holds (i : Interval) (digits : Nat) (exponent : Int) : Bool :=
  let n := digits * Nat.pow 10 exponent.toNat * i.denominator
  let scale := Nat.pow 10 (-exponent).toNat
  if i.closed then i.low * scale ≤ n && n ≤ i.high * scale
  else i.low * scale < n && n < i.high * scale

/-- The number of digits in front of the decimal point of a quotient of at least one, and otherwise
the number of zeros behind the point, as a negative number. -/
def magnitude (value denominator : Nat) : Int :=
  if denominator ≤ value then (Nat.toDigits 10 (value / denominator)).length
  else
    -(((List.range 400).takeWhile fun k => value * Nat.pow 10 (k + 1) < denominator).length : Int)

/-- The decimal with the given number of digits in an interval that is nearest to the number. -/
def Interval.nearest? (i : Interval) (magnitude : Int) (count : Nat) : Option Decimal :=
  let exponent := magnitude - count
  let numerator := i.value * Nat.pow 10 (-exponent).toNat
  let unit := i.denominator * Nat.pow 10 exponent.toNat
  let below := numerator / unit
  let rest := numerator % unit
  match i.holds below exponent, i.holds (below + 1) exponent with
  | true, false => some ⟨below, exponent⟩
  | false, true => some ⟨below + 1, exponent⟩
  | false, false => none
  | true, true =>
    if 2 * rest < unit ∨ (2 * rest = unit ∧ below % 2 = 0) then some ⟨below, exponent⟩
    else some ⟨below + 1, exponent⟩

/-- A decimal without zeros at its end, where `fuel` bounds their number. -/
def strip (fuel : Nat) (d : Decimal) : Decimal :=
  match fuel with
  | 0 => d
  | fuel + 1 =>
    if d.digits % 10 = 0 ∧ d.digits ≠ 0 then strip fuel ⟨d.digits / 10, d.exponent + 1⟩
    else d

/-- The shortest decimal that is read back as a number. -/
def Binary.shortest (b : Binary) : Decimal :=
  let i := b.interval
  let m := magnitude i.value i.denominator
  let counts := (List.range 17).map (· + 1)
  ((counts.findSome? (i.nearest? m)).getD ⟨0, 0⟩).strip 20

end Decimal
end AbapLayout
