import AbapLayout.Comment
import AbapLayout.Statement.Raw

/-!
# Statements

A statement as the layout sees it: the members of a chain stand together, the comment behind the
statement is apart from its tokens, and every token knows whether the line ends after it.

The comment behind a chain is the one of its last entry if that is a member, and a comment of the
statement itself otherwise; `Statement.trailing?` and `Statement.setTrailing` hide the difference.
-/

namespace AbapLayout

/-- A token together with the decision whether the line ends after it. -/
structure Cell where
  token : Token
  breakAfter : Bool := false
deriving DecidableEq, Repr

inductive Entry where
  /-- The tokens of a member, up to its comma or period, and the comment behind it. -/
  | member (cells : List Cell) (trailing : Option Comment)
  /-- A comment between members. -/
  | remark (comment : Comment)
deriving DecidableEq, Repr

namespace Entry

/-- The tokens of an entry; a comment between members has none. -/
def cells : Entry → List Cell
  | .member cells _ => cells
  | .remark _ => []

/-- Whether an entry is a comment between members. -/
def isRemark : Entry → Bool
  | .member _ _ => false
  | .remark _ => true

/-- The line on which an entry starts, zero if it is empty. -/
def startLine : Entry → Nat
  | .member [] _ => 0
  | .member (cell :: _) _ => cell.token.span.startLine
  | .remark comment => comment.span.startLine

/-- The comment behind a member. -/
def trailing? : Entry → Option Comment
  | .member _ trailing => trailing
  | .remark _ => none

end Entry

/-- Statements that share the words in front of a colon. -/
structure Chain where
  /-- The first of the shared words. -/
  keyword : Token
  /-- The shared words behind the first. -/
  others : List Token
  colon : Token
  entries : List Entry
deriving DecidableEq, Repr

def Chain.words (c : Chain) : List Token :=
  c.keyword :: c.others

inductive Body where
  /-- The tokens up to the period; none for a comment that stands alone. -/
  | plain (cells : List Cell)
  | chain (chain : Chain)
deriving DecidableEq, Repr

namespace Entry

/-- Deals cells out to entries, each member taking as many as it has. -/
def deal (cells : List Cell) : List Entry → List Entry
  | [] => []
  | .member own trailing :: rest =>
    .member (cells.take own.length) trailing :: deal (cells.drop own.length) rest
  | .remark comment :: rest => .remark comment :: deal cells rest

end Entry

namespace Body

/-- The cells of a statement; the shared words and the colon of a chain are not among them. -/
def cells : Body → List Cell
  | .plain cells => cells
  | .chain c => c.entries.flatMap Entry.cells

/-- A body with other cells of the same number. -/
def withCells (b : Body) (cells : List Cell) : Body :=
  match b with
  | .plain _ => .plain cells
  | .chain c => .chain { c with entries := Entry.deal cells c.entries }

def chain? : Body → Option Chain
  | .plain _ => none
  | .chain c => some c

end Body

/-- A statement that is ready for the layout. -/
structure Statement where
  body : Body
  kind : Kind
  /-- Where the statement stands; unknown if it has no tokens. -/
  span : Option Span
  /-- The comment behind the statement, unless the last member of a chain holds it. -/
  note : Option Comment := none
  pragmas : List Token := []
  /-- The texts of its raw statements, joined by blanks. -/
  wording : Text
  /-- The position of its first raw statement. -/
  rawIndex : Nat
  detached : Bool := false
  /-- The level of indentation; a statement without one keeps its column. -/
  level : Option Nat := some 0
  /-- A closing bracket has been pulled up to the line above it. -/
  touched : Bool := false
  /-- A comment that is printed behind a period on a line of its own. -/
  post : Option Comment := none
deriving DecidableEq, Repr

namespace Statement

/-- The tokens of a statement without the shared words and the colon of a chain. -/
def cells (s : Statement) : List Cell :=
  s.body.cells

def trailing? (s : Statement) : Option Comment :=
  match s.body with
  | .plain _ => s.note
  | .chain c =>
    match c.entries.getLast? with
    | some (.member _ trailing) => trailing
    | _ => s.note

def setTrailing (s : Statement) (comment : Option Comment) : Statement :=
  match s.body with
  | .plain _ => { s with note := comment }
  | .chain c =>
    match c.entries.getLast? with
    | some (.member cells _) =>
      { s with body := .chain { c with entries := c.entries.dropLast ++ [.member cells comment] } }
    | _ => { s with note := comment }

def isEmpty (s : Statement) : Bool :=
  match s.body with
  | .plain cells => cells.isEmpty && s.note.isNone
  | .chain _ => false

/-- The comment behind a statement is the one that was set last. -/
@[simp] theorem trailing?_setTrailing (s : Statement) (comment : Option Comment) :
    (s.setTrailing comment).trailing? = comment := by
  unfold setTrailing
  cases hb : s.body with
  | plain cells => simp [trailing?]
  | chain c =>
    cases hl : c.entries.getLast? with
    | none => simp [trailing?, hl]
    | some e => cases e <;> simp [trailing?, hl]

end Statement
end AbapLayout
