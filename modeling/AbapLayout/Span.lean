/-!
# Source spans

Where a piece of source text stands.  Lines count from one, columns from zero, and the end column is
the first column behind the text.
-/

namespace AbapLayout

/-- A stretch of source text. -/
structure Span where
  startLine : Nat
  startColumn : Nat
  endLine : Nat
  endColumn : Nat
deriving DecidableEq, Repr

namespace Span

/-- The span of `width` characters on one line. -/
def onLine (line column width : Nat) : Span :=
  ⟨line, column, line, column + width⟩

def startsBefore (a b : Span) : Bool :=
  a.startLine < b.startLine || (a.startLine == b.startLine && a.startColumn < b.startColumn)

def endsBefore (a b : Span) : Bool :=
  a.endLine < b.endLine || (a.endLine == b.endLine && a.endColumn < b.endColumn)

/-- The smallest span that covers two spans. -/
def union (a b : Span) : Span :=
  let first := if b.startsBefore a then b else a
  let last := if a.endsBefore b then b else a
  ⟨first.startLine, first.startColumn, last.endLine, last.endColumn⟩

/-- The smallest span that covers some spans, in whatever order they come. -/
def cover : List Span → Option Span
  | [] => none
  | span :: rest => some (rest.foldl union span)

/-- Whether the second span begins where the first one ends. -/
def touches (a b : Span) : Bool :=
  a.endLine == b.startLine && b.startColumn == a.endColumn

/-- The columns between two spans on one line, zero across lines. -/
def gap (a b : Span) : Nat :=
  if a.endLine = b.startLine then b.startColumn - a.endColumn else 0

end Span
end AbapLayout
