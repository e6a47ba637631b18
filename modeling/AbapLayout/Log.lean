/-!
# Log entries

What the program reports besides its results.
-/

namespace AbapLayout

/-- The part of the program that reports something. -/
inductive Channel where
  | layout
  | workspace
  | config
deriving DecidableEq, Repr

inductive Severity where
  | info
  | warning
  | error
deriving DecidableEq, Repr

structure LogEntry where
  channel : Channel
  severity : Severity
  message : String
deriving DecidableEq, Repr

end AbapLayout
