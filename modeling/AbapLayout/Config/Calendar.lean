import AbapLayout.Text.Quoted

/-!
# Dates and moments

Dates of the years 1 to 9999 and moments of a day to the microsecond, and how they are shown in
messages.  A moment may stand in a time zone; then it is the clock there that it shows.
-/

namespace AbapLayout

structure Date where
  year : Nat
  month : Nat
  day : Nat
deriving DecidableEq, Repr

structure Zone where
  /-- The minutes by which its clocks are ahead of universal time. -/
  ahead : Int
  /-- The time zone as it is written. -/
  name : String
deriving DecidableEq, Repr

structure Moment where
  date : Date
  hour : Nat
  minute : Nat
  second : Nat
  microsecond : Nat
  zone : Option Zone
deriving DecidableEq, Repr

/-- The digits of a natural number, at least as many as asked for. -/
def padded (width n : Nat) : String :=
  let digits := Nat.toDigits 10 n
  String.ofList (List.replicate (width - digits.length) '0' ++ digits)

namespace Date

def isLeap (year : Nat) : Bool :=
  year % 4 == 0 && (year % 100 != 0 || year % 400 == 0)

def daysIn (year month : Nat) : Nat :=
  if month = 2 then (if isLeap year then 29 else 28)
  else if [4, 6, 9, 11].contains month then 30
  else 31

def exists? (d : Date) : Bool :=
  1 ≤ d.year && d.year ≤ 9999 && 1 ≤ d.month && d.month ≤ 12 && 1 ≤ d.day
    && d.day ≤ daysIn d.year d.month

def next (d : Date) : Date :=
  if d.day < daysIn d.year d.month then { d with day := d.day + 1 }
  else if d.month < 12 then ⟨d.year, d.month + 1, 1⟩
  else ⟨d.year + 1, 1, 1⟩

/-- The day before a date; the year 0 stands for all that comes before the first year. -/
def previous (d : Date) : Date :=
  if 1 < d.day then { d with day := d.day - 1 }
  else if 1 < d.month then ⟨d.year, d.month - 1, daysIn d.year (d.month - 1)⟩
  else ⟨d.year - 1, 12, 31⟩

def addDays (d : Date) : Int → Date
  | .ofNat n => n.repeat next d
  | .negSucc n => (n + 1).repeat previous d

/-- A date as messages show it. -/
def shown (d : Date) : String :=
  padded 4 d.year ++ "-" ++ padded 2 d.month ++ "-" ++ padded 2 d.day

/-- A date inside a list or mapping. -/
def shownNested (d : Date) : String :=
  "datetime.date(" ++ ", ".intercalate ([d.year, d.month, d.day].map toString) ++ ")"

end Date

namespace Zone

/-- Whether there is such a time zone: it is less than a day away from universal time. -/
def exists? (z : Zone) : Bool :=
  z.ahead.natAbs < 1440

def shown (z : Zone) : String :=
  (if z.ahead < 0 then "-" else "+") ++ padded 2 (z.ahead.natAbs / 60) ++ ":"
    ++ padded 2 (z.ahead.natAbs % 60)

/-- A time zone inside a list or mapping; what it is behind counts as a day less and some seconds
more. -/
def shownNested (z : Zone) : String :=
  let seconds := toString (60 * (z.ahead % 1440))
  let distance := if z.ahead = 0 then "0"
    else if z.ahead < 0 then "days=-1, seconds=" ++ seconds
    else "seconds=" ++ seconds
  "datetime.timezone(datetime.timedelta(" ++ distance ++ "), " ++ Text.quoted z.name ++ ")"

end Zone

namespace Moment

def exists? (m : Moment) : Bool :=
  m.date.exists? && m.hour < 24 && m.minute < 60 && m.second < 60 && m.microsecond < 1000000
    && m.zone.all Zone.exists?

def addSeconds (m : Moment) (seconds : Int) : Moment :=
  let total := ((m.hour * 60 + m.minute) * 60 + m.second : Nat) + seconds
  let rest := (total % 86400).toNat
  { m with
    date := m.date.addDays (total / 86400)
    hour := rest / 3600
    minute := rest / 60 % 60
    second := rest % 60 }

/-- A moment of a time zone as the clocks of universal time show it. -/
def universal (m : Moment) : Moment :=
  match m.zone with
  | some z => { m.addSeconds (-60 * z.ahead) with zone := some ⟨0, ""⟩ }
  | none => m

/-- Whether two moments are the same.  One without a time zone is never the same as one with it. -/
def isSame (m n : Moment) : Bool :=
  m.universal == n.universal

def shown (m : Moment) : String :=
  m.date.shown ++ " " ++ padded 2 m.hour ++ ":" ++ padded 2 m.minute ++ ":" ++ padded 2 m.second
    ++ (if m.microsecond = 0 then "" else "." ++ padded 6 m.microsecond)
    ++ (m.zone.map Zone.shown).getD ""

/-- A moment inside a list or mapping; zeros at the end of its parts are left out. -/
def shownNested (m : Moment) : String :=
  let parts := [m.date.year, m.date.month, m.date.day, m.hour, m.minute]
  let more := if m.microsecond ≠ 0 then [m.second, m.microsecond]
    else if m.second ≠ 0 then [m.second] else []
  "datetime.datetime(" ++ ", ".intercalate ((parts ++ more).map toString)
    ++ (m.zone.map fun z => ", tzinfo=" ++ z.shownNested).getD "" ++ ")"

end Moment
end AbapLayout
