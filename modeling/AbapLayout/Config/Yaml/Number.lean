import AbapLayout.Config.Integer
import AbapLayout.Config.Yaml.Fault
import AbapLayout.Config.Yaml.Scalar
import AbapLayout.Config.Yaml.Timestamp

/-!
# Numbers

The written forms of integers and floating-point numbers.  Underscores may stand between the digits
and count for nothing.  Version 1.1 of the format also has numbers of base sixty, whose parts are
separated by colons, and there a leading zero makes an integer octal.
-/

namespace AbapLayout
namespace Yaml

/-- A text behind an optional sign, and whether the sign is a minus. -/
def splitSign : Text → Bool × Text
  | '-' :: cs => (true, cs)
  | '+' :: cs => (false, cs)
  | cs => (false, cs)

def colonParts : Text → List Text
  | [] => [[]]
  | c :: cs =>
    if c == ':' then [] :: colonParts cs
    else
      match colonParts cs with
      | [] => [[c]]
      | part :: parts => (c :: part) :: parts

/-! ## Written forms -/

/-- Whether a character is a digit of a number or separates such digits. -/
def isDigitPart (c : Char) : Bool :=
  c.isDigit || c == '_'

/-- Whether a character is an octal digit or separates such digits. -/
def isOctalPart (c : Char) : Bool :=
  ('0' ≤ c && c ≤ '7') || c == '_'

/-- Whether a text is a number of base sixty behind its first part: up to 59. -/
def isSixtieth : Text → Bool
  | [c] => c.isDigit
  | [c, d] => '0' ≤ c && c ≤ '5' && d.isDigit
  | _ => false

/-- Whether a text has colons between numbers of base sixty. -/
def isSexagesimal (t : Text) : Bool :=
  match colonParts t with
  | whole :: part :: parts =>
    whole.head?.any Char.isDigit && whole.all isDigitPart && (part :: parts).all isSixtieth
  | _ => false

/-- Whether a text is an exponent with its mark.  Its sign may be required. -/
def isExponent (signed : Bool) : Text → Bool
  | [] => false
  | c :: cs =>
    let digits := (splitSign cs).2
    (c == 'e' || c == 'E') && !digits.isEmpty && digits.all Char.isDigit
      && (!signed || digits.length < cs.length)

/-- Whether a text is a floating-point number without its sign.  Without digits in front of the
point, an exponent has a sign. -/
def isUnsignedReal (t : Text) : Bool :=
  let whole := t.takeWhile isDigitPart
  match t.drop whole.length with
  | '.' :: cs =>
    let fraction := cs.takeWhile isDigitPart
    let tail := cs.drop fraction.length
    if whole.isEmpty then !fraction.isEmpty && (tail.isEmpty || isExponent true tail)
    else whole.head? != some '_' && (tail.isEmpty || isExponent false tail)
  | tail => !whole.isEmpty && whole.head? != some '_' && isExponent false tail

/-- Whether a text is a floating-point number of base sixty without its sign. -/
def isSexagesimalReal (t : Text) : Bool :=
  let whole := t.takeWhile (· != '.')
  match t.drop whole.length with
  | '.' :: fraction => isSexagesimal whole && fraction.all isDigitPart
  | _ => false

def infinities : List Text := [".inf", ".Inf", ".INF"].map String.toList

/-- How it is written that something is no number. -/
def noNumbers : List Text := [".nan", ".NaN", ".NAN"].map String.toList

/-- Whether a text is a floating-point number.  In version 1.1 no sign stands before a point. -/
def isReal (old : Bool) (t : Text) : Bool :=
  let body := (splitSign t).2
  noNumbers.contains t || infinities.contains body
    || (isUnsignedReal body && !(old && body.length < t.length && body.head? == some '.'))
    || (old && isSexagesimalReal body)

/-- Whether a text is an integer without sign and mark of its base. -/
def isUnsignedDecimal (old : Bool) (t : Text) : Bool :=
  !t.isEmpty && if old then
    t.all isOctalPart || (t.head?.any (fun c => c.isDigit && c != '0')
      && (t.all isDigitPart || isSexagesimal t))
  else t.all isDigitPart

def isInteger (old : Bool) (t : Text) : Bool :=
  let body := (splitSign t).2
  let all := fun (p : Char → Bool) (cs : Text) => !cs.isEmpty && cs.all p
  t.head? != some '_' && (isUnsignedDecimal old body ||
    match body with
    | '0' :: 'b' :: cs => all (fun c => c == '0' || c == '1' || c == '_') cs
    | '0' :: 'o' :: cs => !old && all isOctalPart cs
    | '0' :: 'x' :: cs => all (fun c => (hexValue? c).isSome || c == '_') cs
    | _ => false)

/-! ## Values -/

/-- The value of digits of a base up to sixteen. -/
def digits? (base : Nat) (ds : Text) : Option Int :=
  if ds.isEmpty then none
  else ds.foldl (fun acc c => acc.bind fun n =>
    match hexValue? c with
    | some d => if d < base then some (base * n + d) else none
    | none => none) (some 0)

def sexagesimal? (t : Text) : Option Int :=
  (colonParts t).foldl (fun acc part => acc.bind fun n =>
    (Integer.ofText? part).map (60 * n + ·)) (some 0)

def unsignedInteger (old : Bool) (t : Text) : Except Fault Int :=
  let found := fun (n? : Option Int) => match n? with
    | some n => Except.ok n
    | none => .error .noSuchValue
  match t with
  | '0' :: 'b' :: cs => found (digits? 2 cs)
  | '0' :: 'o' :: cs => found (digits? 8 cs)
  | '0' :: 'x' :: cs => found (digits? 16 cs)
  | '0' :: _ => found (if old then digits? 8 t else Integer.ofText? t)
  | [] => .error (if old then .emptyNumber else .noSuchValue)
  | _ => found (if old && t.contains ':' then sexagesimal? t else Integer.ofText? t)

def integerValue (old : Bool) (t : Text) : Except Fault Value := do
  let digits := t.filter (· != '_')
  if digits.isEmpty then throw .emptyNumber
  let (negative, body) := splitSign digits
  let n ← unsignedInteger old body
  return .int (if negative then -n else n)

def nearestReal (digits : Nat) (exponent : Int) : Float :=
  let magnitude : Int := (Nat.toDigits 10 digits).length + exponent
  if digits = 0 ∨ magnitude < -400 then 0.0
  else if 400 < magnitude then 1.0 / 0.0
  else if exponent < 0 then Float.ofScientific digits true (-exponent).toNat
  else Float.ofScientific digits false exponent.toNat

def exponentValue (t : Text) : Int :=
  let (negative, digits) := splitSign (t.drop 1)
  let n := digitsValue digits
  if negative then -(n : Int) else n

/-- The value of a floating-point number that is written with digits and without a sign. -/
def decimal? (t : Text) : Option Float :=
  let whole := t.takeWhile Char.isDigit
  let behind := t.drop whole.length
  let fraction := match behind with
    | '.' :: cs => cs.takeWhile Char.isDigit
    | _ => []
  let tail := if behind.head? == some '.' then behind.drop (fraction.length + 1) else behind
  if (whole ++ fraction).isEmpty || !(tail.isEmpty || isExponent false tail) then none
  else some (nearestReal (digitsValue (whole ++ fraction))
    ((if tail.isEmpty then 0 else exponentValue tail) - fraction.length))

/-- The value of a floating-point number in small letters.  Blanks may stand around it, and its
digits may be those of any script. -/
def real? (t : Text) : Option Float :=
  let (negative, body) := splitSign (Text.trim t)
  let size? := match String.ofList body with
    | "inf" | "infinity" => some (1.0 / 0.0)
    | "nan" => some (0.0 / 0.0)
    | _ => decimal? (body.map fun c =>
      match Integer.digitValue? c with
      | some d => Char.ofNat ('0'.toNat + d)
      | none => c)
  size?.map fun x => if negative then -x else x

/-- The value of a floating-point number of base sixty: the sum of its parts, the last one first. -/
def sexagesimalReal? (t : Text) : Option Float :=
  let add := fun (acc : Float × Float) (x : Float) => (acc.1 + x * acc.2, acc.2 * 60.0)
  ((colonParts t).mapM real?).map fun xs => (xs.reverse.foldl add (0.0, 1.0)).1

def realValue (old : Bool) (t : Text) : Except Fault Value :=
  let plain := (t.filter (· != '_')).map Char.toLower
  let (negative, body) := splitSign plain
  let size? := if body == ".inf".toList then some (1.0 / 0.0)
    else if body == ".nan".toList then some (0.0 / 0.0)
    else if old && body.contains ':' then sexagesimalReal? body
    else real? body
  if plain.isEmpty then .error .emptyNumber
  else
    match size? with
    | some x => .ok (.real (if negative then -x else x))
    | none => .error .noSuchValue

end Yaml
end AbapLayout
