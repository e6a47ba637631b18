import AbapLayout.Text.Blank
import AbapLayout.Token

/-!
# Printed lines

A printed line knows which tokens stand on it and in which columns.  Lines grow by putting tokens
behind one another, may be indented as a whole, and may absorb the line below.
-/

namespace AbapLayout

/-- The place of a token among all statements: the position of its statement, and the position of
the token in it.  In a chain the shared words and the colon are counted first. -/
structure Address where
  statement : Nat
  slot : Nat
deriving DecidableEq, Repr

/-- A token on a printed line. -/
structure Placement where
  address : Address
  token : Token
  /-- The column of its first character. -/
  column : Nat
  /-- The characters that are printed for it. -/
  printed : Text
deriving DecidableEq, Repr

/-- The first column behind a placement. -/
def Placement.endColumn (p : Placement) : Nat :=
  p.column + p.printed.length

/-- A printed line and the tokens on it. -/
structure Line where
  text : Text := []
  /-- The source line of the first token. -/
  startLine : Nat := 0
  /-- The source line of the last token. -/
  endLine : Nat := 0
  endsInComment : Bool := false
  /-- Full-line comments stay in the first column. -/
  fixed : Bool := false
  placements : List Placement := []
deriving DecidableEq, Repr

namespace Line

/-- The line with a token put behind it, after some blanks. -/
def put (l : Line) (address : Address) (t : Token) (printed : Text) (spaces : Nat) : Line :=
  let base := (if l.placements.isEmpty then l.text else Text.trimRight l.text) ++ Text.blanks spaces
  { l with
    text := base ++ printed
    startLine := if l.placements.isEmpty then t.span.startLine else l.startLine
    endLine := t.span.startLine
    endsInComment := t.isComment
    placements := l.placements ++ [{ address, token := t, column := base.length, printed }] }

/-- The line moved to the right. -/
def indent (l : Line) (n : Nat) : Line :=
  { l with
    text := Text.blanks n ++ l.text
    placements := l.placements.map fun p => { p with column := p.column + n } }

/-- The number of blanks at the front of a line. -/
def margin (l : Line) : Nat :=
  (l.text.takeWhile Text.isBlank).length

/-- The line with another one behind it, without the margin of that one. -/
def absorb (l other : Line) (joiner : Text) : Line :=
  { l with
    text := l.text ++ joiner ++ Text.trimLeft other.text
    endLine := other.endLine
    endsInComment := other.endsInComment
    placements := l.placements ++ other.placements.map fun p =>
      { p with column := p.column + (l.text.length + joiner.length) - other.margin } }

/-- Whether the first thing on a line is a period or comma. -/
def beginsWithTerminator (l : Line) : Bool :=
  match Text.trimLeft l.text with
  | [] => false
  | c :: _ => c == '.' || c == ','

/-- Glues lines that begin with a period or comma to the line above, unless that one ends in a
comment.  With `keepLast` the last line stays as it is. -/
def glueFrom (joiner : Text) (keepLast : Bool) (above : Line) : List Line → List Line
  | [] => [above]
  | l :: rest =>
    if l.beginsWithTerminator && !above.endsInComment && !(keepLast && rest.isEmpty) then
      glueFrom joiner keepLast (above.absorb l joiner) rest
    else above :: glueFrom joiner keepLast l rest

/-- Glues lines that begin with a period or comma to the line above. -/
def glue (joiner : Text) (keepLast : Bool) : List Line → List Line
  | [] => []
  | l :: rest => glueFrom joiner keepLast l rest

end Line
end AbapLayout
