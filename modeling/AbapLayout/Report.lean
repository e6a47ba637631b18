/-!
# Reports

What became of a file, and the figures over many files.
-/

namespace AbapLayout

/-- What became of a file. -/
inductive Status where
  | unchanged
  /-- The layout would change. -/
  | preview
  /-- The layout has changed. -/
  | formatted
  /-- The formatted text was not accepted. -/
  | failed
  | fileNotFound
  | engineError
  | other (name : String)
deriving DecidableEq, Repr

namespace Status

def name : Status → String
  | .unchanged => "UNCHANGED"
  | .preview => "PREVIEW"
  | .formatted => "FORMATTED"
  | .failed => "FAILED"
  | .fileNotFound => "FILE_NOT_FOUND"
  | .engineError => "ENGINE_ERROR"
  | .other name => name

def ofName (s : String) : Status :=
  match s with
  | "UNCHANGED" => .unchanged
  | "PREVIEW" => .preview
  | "FORMATTED" => .formatted
  | "FAILED" => .failed
  | "FILE_NOT_FOUND" => .fileNotFound
  | "ENGINE_ERROR" => .engineError
  | name => .other name

def style : Status → String
  | .unchanged => "dim"
  | .preview => "yellow"
  | .formatted => "green"
  | _ => "red"

end Status

structure Report where
  path : Option String := none
  status : Status := .failed
  success : Bool := false
  changed : Bool := false
  /-- The file was passed through without layout. -/
  fallback : Bool := false
  fallbackReason : Option String := none
  /-- The formatted text is on disk. -/
  written : Bool := false
  /-- Where the old text is kept. -/
  backup : Option String := none
  /-- The new text, if it differs from the old one. -/
  formattedText : Option String := none
  sourceText : Option String := none
  validationError : Option String := none
  /-- Why the file could not be processed at all. -/
  error : Option String := none
  backupWarning : Option String := none
  writeError : Option String := none
deriving DecidableEq, Repr

namespace Report

/-- The first of some texts that is there and not empty. -/
def firstText : List (Option String) → String
  | [] => ""
  | some s :: rest => if s.isEmpty then firstText rest else s
  | none :: rest => firstText rest

def notes (r : Report) : String :=
  if r.fallback then "pass-through: " ++ r.fallbackReason.getD "None"
  else firstText [r.validationError, r.error]

end Report

/-- The figures over some reports. -/
structure Summary where
  total : Nat
  successful : Nat
  changed : Nat
  written : Nat
  fallbacks : Nat
  backups : Nat
  engineErrors : Nat
deriving DecidableEq, Repr

namespace Summary

def ofReports (reports : List Report) : Summary :=
  { total := reports.length
    successful := reports.countP (·.success)
    changed := reports.countP (·.changed)
    written := reports.countP (·.written)
    fallbacks := reports.countP (·.fallback)
    backups := reports.countP (·.backup.isSome)
    engineErrors := reports.countP (·.status == .engineError) }

/-- A quotient rounded to the nearest integer, a half to the even one. -/
def roundQuotient (numerator denominator : Nat) : Nat :=
  let whole := numerator / denominator
  let rest := 2 * (numerator % denominator)
  if denominator < rest ∨ (rest = denominator ∧ whole % 2 = 1) then whole + 1 else whole

/-- The share of successful files with six decimals; there is none if there are no files. -/
def successRate? (s : Summary) : Option String :=
  if s.total = 0 then none
  else
    let millionths := roundQuotient (s.successful * 1000000) s.total
    let digits := Nat.toDigits 10 (millionths % 1000000)
    let fraction := List.replicate (6 - digits.length) '0' ++ digits
    some (toString (millionths / 1000000) ++ "." ++ String.ofList fraction)

end Summary
end AbapLayout
