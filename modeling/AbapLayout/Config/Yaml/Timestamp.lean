import AbapLayout.Config.Value
import AbapLayout.Config.Yaml.Fault
import AbapLayout.Text.Basic

/-!
# Timestamps

The written form of dates and moments: `2001-12-14`, or with a time of day as in
`2001-12-14t21:59:43.10-05:00`.  At the end of a moment its time zone may stand: `Z` for universal
time, or the hours and minutes by which it is ahead or behind.
-/

namespace AbapLayout
namespace Yaml

structure TimeOfDay where
  hour : Nat
  minute : Nat
  second : Nat
  /-- The digits behind the point. -/
  fraction : Text
  zone : Option Zone
deriving DecidableEq, Repr

structure Timestamp where
  date : Date
  time : Option TimeOfDay
deriving DecidableEq, Repr

def digitsValue (ds : Text) : Nat :=
  ds.foldl (fun n d => 10 * n + (d.toNat - '0'.toNat)) 0

/-- Reads a number of at least `low` and at most `high` digits. -/
def readDigits? (low high : Nat) (t : Text) : Option (Nat × Text) :=
  let digits := (t.takeWhile Char.isDigit).take high
  if low ≤ digits.length then some (digitsValue digits, t.drop digits.length) else none

def readChar? (c : Char) : Text → Option Text
  | [] => none
  | d :: rest => if c = d then some rest else none

/-- Reads the minutes by which a time zone is ahead. -/
def readAhead? : Text → Option Int
  | [] => none
  | c :: rest => do
    if c = 'Z' ∧ rest.isEmpty then return 0
    if c ≠ '+' ∧ c ≠ '-' then none
    let (hours, rest) ← readDigits? 1 2 rest
    let (minutes, rest) ← if rest.isEmpty then some (0, [])
      else readDigits? 2 2 (← readChar? ':' rest)
    let distance : Int := 60 * hours + minutes
    if rest.isEmpty then return (if c = '-' then -distance else distance) else none

/-- Reads the time zone at the end of a timestamp, if there is one; blanks may stand before it. -/
def readZone? (t : Text) : Option (Option Zone) :=
  if t.isEmpty then some none
  else
    let name := t.dropWhile fun c => c == ' ' || c == '\t'
    (readAhead? name).map fun ahead => some ⟨ahead, String.ofList name⟩

/-- Reads the time of day of a timestamp behind what separates it from the date. -/
def readTime? (t : Text) : Option TimeOfDay := do
  let (hour, t) ← readDigits? 1 2 t
  let (minute, t) ← readDigits? 2 2 (← readChar? ':' t)
  let (second, t) ← readDigits? 2 2 (← readChar? ':' t)
  let fraction := match t with
    | '.' :: rest => rest.takeWhile Char.isDigit
    | _ => []
  let t := if t.head? == some '.' then t.drop (fraction.length + 1) else t
  return ⟨hour, minute, second, fraction, ← readZone? t⟩

namespace Timestamp

def ofText? (t : Text) : Option Timestamp := do
  let (year, t) ← readDigits? 4 4 t
  let (month, t) ← readDigits? 1 2 (← readChar? '-' t)
  let (day, t) ← readDigits? 1 2 (← readChar? '-' t)
  let date : Date := ⟨year, month, day⟩
  match t with
  | [] => return ⟨date, none⟩
  | 'T' :: rest | 't' :: rest => return ⟨date, some (← readTime? rest)⟩
  | c :: rest =>
    if c = ' ' ∨ c = '\t' then
      return ⟨date, some (← readTime? (rest.dropWhile fun d => d == ' ' || d == '\t'))⟩
    else none

/-- Whether a plain scalar is a timestamp.  A date alone has two digits for the month and for the
day. -/
def isWritten (t : Text) : Bool :=
  match ofText? t with
  | some ⟨_, none⟩ => t.length == 10
  | some ⟨_, some _⟩ => true
  | none => false

/-- The microseconds of a fraction, rounded at the sixth digit. -/
def microseconds (fraction : Text) : Nat :=
  let digits := fraction.take 6
  let whole := digitsValue (digits ++ List.replicate (6 - digits.length) '0')
  if (fraction.drop 6).head?.any ('4' < ·) then whole + 1 else whole

/-- The date or moment of a timestamp.  A fraction may be rounded up to a whole second. -/
def value (s : Timestamp) : Except Fault Value :=
  match s.time with
  | none => if s.date.exists? then .ok (.date s.date) else .error .noSuchValue
  | some time =>
    let micro := microseconds time.fraction
    let m : Moment := {
      date := s.date
      hour := time.hour
      minute := time.minute
      second := time.second
      microsecond := micro % 1000000
      zone := time.zone }
    if !m.exists? then .error .noSuchValue
    else
      let moved := if micro < 1000000 then m else m.addSeconds 1
      if moved.exists? then .ok (.moment moved) else .error .tooLarge

end Timestamp
end Yaml
end AbapLayout
