import AbapLayout.Statement.Basic

/-!
# Closing brackets

A closing bracket moves up to the end of the line before it, and so does a period behind a closing
bracket.  Code that stood behind the bracket on its line moves to a line of its own.

A comment that the move brought onto the same line is merged into the comment of the statement in
front of it.  Pseudo comments are never merged: the second comment is printed behind the period,
which then stands on a line of its own.
-/

namespace AbapLayout
namespace Bracket

/-- Tokens that may stay on the line of a bracket that has moved up. -/
def staysBehind (t : Token) : Bool :=
  t.isClosingBracket || t.role == .punctuation || t.role == .pragma

/-- Whether the line break after a token is removed in front of the next one. -/
def pullsUp (c next : Cell) : Bool :=
  c.breakAfter && !c.token.isComment &&
    (next.token.isClosingBracket || (next.token.isPeriod && c.token.isClosingBracket))

/-- A closing bracket that has moved up, in front of the given cell: code that stood on its line
begins a new one, and a period comes along. -/
def settle (c : Cell) (following : Option Cell) : Cell :=
  match following with
  | none => c
  | some f =>
    let breaks := c.breakAfter ||
      (f.token.span.startLine == c.token.span.startLine && !staysBehind f.token)
    { c with breakAfter := breaks && !f.token.isPeriod }

/-- Moves brackets and periods up in the cells behind a cell, which has already been settled. -/
def sweepFrom (c : Cell) : List Cell → List Cell
  | [] => [c]
  | next :: rest =>
    if pullsUp c next then
      { c with breakAfter := false } ::
        sweepFrom (if next.token.isClosingBracket then settle next rest.head? else next) rest
    else c :: sweepFrom next rest

/-- Moves brackets and periods up. -/
def sweep : List Cell → List Cell
  | [] => []
  | c :: rest => sweepFrom c rest

/-- Whether a bracket or period moves up in the cells behind a cell. -/
def movesFrom (c : Cell) : List Cell → Bool
  | [] => false
  | next :: rest =>
    pullsUp c next ||
      movesFrom
        (if pullsUp c next && next.token.isClosingBracket then settle next rest.head? else next)
        rest

/-- Whether any bracket or period moves up. -/
def moves : List Cell → Bool
  | [] => false
  | c :: rest => movesFrom c rest

def sweepStatement (s : Statement) : Statement :=
  { s with body := s.body.withCells (sweep s.cells), touched := moves s.cells }

/-- Puts the last period on a line of its own, where cells are given from the last one on. -/
def breakBeforePeriod : List Cell → List Cell
  | c :: previous :: rest =>
    if c.token.isPeriod then c :: { previous with breakAfter := true } :: rest
    else c :: breakBeforePeriod (previous :: rest)
  | cells => cells

def forcePeriodLine (s : Statement) : Statement :=
  { s with body := s.body.withCells (breakBeforePeriod s.cells.reverse).reverse }

/-- The comment that moves from one statement to the touched statement in front of it. -/
def incoming? (current following : Statement) : Option Comment :=
  match following.trailing?, current.span with
  | some comment, some span =>
    if current.touched ∧ comment.inline ∧ comment.span.startLine = span.endLine
        ∧ (Text.trimLeft comment.value).head? = some Comment.sign then
      some comment
    else none
  | _, _ => none

def mergeComments (existing : Option Comment) (incoming : Comment) : Comment :=
  match existing with
  | none => { incoming with value := Comment.sign :: ' ' :: incoming.body }
  | some c => { c with value := Comment.sign :: ' ' :: (c.body ++ [';', ' '] ++ incoming.body) }

/-- A statement that takes over a comment. -/
def receive (s : Statement) (incoming : Comment) : Statement :=
  let existing := s.trailing?
  if incoming.isPseudo || existing.any Comment.isPseudo then
    forcePeriodLine { s with post := some incoming }
  else s.setTrailing (some (mergeComments existing incoming))

/-- Merges comments in the statements behind a statement. -/
def mergeFrom (s : Statement) : List Statement → List Statement
  | [] => [s]
  | next :: rest =>
    match incoming? s next with
    | some comment => receive s comment :: mergeFrom (next.setTrailing none) rest
    | none => s :: mergeFrom next rest

/-- Merges the comments that the moved brackets brought onto one line. -/
def mergeAll : List Statement → List Statement
  | [] => []
  | s :: rest => mergeFrom s rest

/-- Moves closing brackets up and merges the comments this brings together. -/
def reposition (statements : List Statement) : List Statement :=
  mergeAll (statements.map sweepStatement)

end Bracket
end AbapLayout
