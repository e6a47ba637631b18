import AbapLayout.Config.Calendar
import AbapLayout.Decimal.Shortest
import AbapLayout.Text.Quoted

/-!
# Configuration values

The values a configuration may hold, and how they are shown in messages.  A text that is shown on
its own stands as it is; inside a list or mapping it is quoted.
-/

namespace AbapLayout

inductive Value where
  | null
  | bool (b : Bool)
  | int (n : Int)
  | real (x : Float)
  | text (s : String)
  | date (d : Date)
  | moment (m : Moment)
  | list (items : List Value)
  /-- A list that is a key. -/
  | tuple (items : List Value)
  | mapping (members : List (Value × Value))
deriving Inhabited

namespace Value

/-- A decimal: positional from `0.0001` up to sixteen digits in front of the point, with an exponent
otherwise. -/
def showDecimal (d : Decimal) : String :=
  let digits := Nat.toDigits 10 d.digits
  let point : Int := digits.length + d.exponent
  if -4 < point ∧ point ≤ 16 then
    if point ≤ 0 then "0." ++ String.ofList (List.replicate (-point).toNat '0' ++ digits)
    else
      let whole := digits.take point.toNat ++ List.replicate (point.toNat - digits.length) '0'
      let fraction := digits.drop point.toNat
      String.ofList whole ++ "." ++ if fraction.isEmpty then "0" else String.ofList fraction
  else
    let power := point - 1
    let fraction := digits.drop 1
    String.ofList (digits.take 1)
      ++ (if fraction.isEmpty then "" else "." ++ String.ofList fraction)
      ++ "e" ++ (if power < 0 then "-" else "+") ++ padded 2 power.natAbs

/-- A floating-point number with the fewest digits that read back. -/
def showReal (x : Float) : String :=
  if x.isNaN then "nan"
  else
    let sign := if Decimal.isUnsigned x then "" else "-"
    if x.isInf then sign ++ "inf"
    else if x == 0.0 then sign ++ "0.0"
    else sign ++ showDecimal (Decimal.Binary.ofBits x.toBits).shortest

mutual

/-- A value inside a list or mapping. -/
def showNested : Value → String
  | .null => "None"
  | .bool b => if b then "True" else "False"
  | .int n => toString n
  | .real x => showReal x
  | .text s => Text.quoted s
  | .date d => d.shownNested
  | .moment m => m.shownNested
  | .list items => "[" ++ ", ".intercalate (showItems items) ++ "]"
  | .tuple items =>
    "(" ++ ", ".intercalate (showItems items) ++ (if items.length = 1 then ",)" else ")")
  | .mapping members => "\x7b" ++ ", ".intercalate (showMembers members) ++ "\x7d"

def showItems : List Value → List String
  | [] => []
  | v :: rest => showNested v :: showItems rest

def showMembers : List (Value × Value) → List String
  | [] => []
  | (k, v) :: rest => (showNested k ++ ": " ++ showNested v) :: showMembers rest

end

/-- A value as messages show it. -/
def shown : Value → String
  | .text s => s
  | .date d => d.shown
  | .moment m => m.shown
  | v => showNested v

/-- Whether a value counts as nothing: null, false, zero, or empty. -/
def isVoid : Value → Bool
  | .null => true
  | .bool b => !b
  | .int n => n == 0
  | .real x => x == 0.0
  | .text s => s.isEmpty
  | .date _ => false
  | .moment _ => false
  | .list items => items.isEmpty
  | .tuple items => items.isEmpty
  | .mapping members => members.isEmpty

def isNull : Value → Bool
  | .null => true
  | _ => false

end Value
end AbapLayout
