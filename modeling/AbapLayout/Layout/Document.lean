import AbapLayout.Layout.Alignment
import AbapLayout.Layout.Bracket
import AbapLayout.Level
import AbapLayout.Log
import AbapLayout.Statement.Assembly
import AbapLayout.Statement.Splitting

/-!
# Formatting a document

The whole way from a source to its layout: the source is cut into raw statements, these are put
together to statements, get their level, have their brackets moved up, and are printed with their
alignment.  A source that cannot be cut keeps its layout and only loses trailing blanks.
-/

namespace AbapLayout

structure Formatted where
  text : Text
  /-- Why the source was passed through without layout, if it was. -/
  rejection : Option Rejection := none
deriving DecidableEq, Repr

namespace Layout

/-- Statements with the levels of their first raw statements. -/
def assignLevels (levels : List (Option Nat)) (statements : List Statement) : List Statement :=
  statements.map fun s => { s with level := (levels[s.rawIndex]?).getD (some 0) }

/-- The statements of raw statements, ready to be printed. -/
def arrange (raws : List RawStatement) : Except AssemblyFault (List Statement) :=
  (assemble raws).map fun statements => Bracket.reposition (assignLevels (levels raws) statements)

def lines (o : Options) (statements : List Statement) : List Line :=
  let table := Alignment.wantedTable o statements
  Rendering.render o (fun address => table.lookup address) statements

/-- The document of statements. -/
def print (o : Options) (statements : List Statement) : Text :=
  Text.document ((lines o statements).map (·.text))

/-- Formats a source, which may come from a file of the given name. -/
def format (o : Options) (source : Text) (filename : Option String) :
    Except AssemblyFault Formatted :=
  match Source.split source filename with
  | .error rejection => .ok { text := Text.trimLines source, rejection := some rejection }
  | .ok raws => (arrange raws).map fun statements => { text := print o statements }

def optionNotices (o : Options) : List LogEntry :=
  match o.chainStyle with
  | .preserve => []
  | .expand =>
    [⟨.layout, .warning, "chain_formatting 'expand' is not implemented; chains are preserved"⟩]

/-- What a source is called in reports. -/
def label (filename : Option String) : String :=
  match filename with
  | some name => if name.isEmpty then "<source>" else name
  | none => "<source>"

end Layout

def Formatted.notices (f : Formatted) (filename : Option String) : List LogEntry :=
  match f.rejection with
  | none => []
  | some rejection =>
    [⟨.layout, .warning,
      "Formatting skipped for " ++ Layout.label filename ++ ": " ++ rejection.message⟩]

end AbapLayout
