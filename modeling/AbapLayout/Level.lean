import AbapLayout.Statement.Raw

/-!
# Levels of indentation

`levels` gives every raw statement its nesting depth in one pass from front to back.  A statement
that closes or splits a block stands one level further out, and what follows an opener or splitter
stands one level further in.  `SELECT` opens a block only if an `ENDSELECT` closes it; `selectPairs`
finds these pairs.

A group of comments below a blank line that introduces a splitter (the comment on the `ELSE` branch)
takes the level of the splitter.  Detached statements have no level.
-/

namespace AbapLayout
namespace Level

/-- The positions of every `SELECT` and the `ENDSELECT` that closes it.  `index` is the position of
the first of the kinds and `waiting` holds the positions of the open `SELECT`s, the latest first. -/
def selectPairsFrom (index : Nat) (waiting : List Nat) : List Kind → List (Nat × Nat)
  | [] => []
  | .select :: rest => selectPairsFrom (index + 1) (index :: waiting) rest
  | .endSelect :: rest =>
    match waiting with
    | [] => selectPairsFrom (index + 1) [] rest
    | latest :: others => (latest, index) :: selectPairsFrom (index + 1) others rest
  | _ :: rest => selectPairsFrom (index + 1) waiting rest

def selectPairs (kinds : List Kind) : List (Nat × Nat) :=
  selectPairsFrom 0 [] kinds

/-- What the level of a statement depends on. -/
structure Aspect where
  kind : Kind
  detached : Bool
  /-- A blank line separates the statement from the one before it. -/
  blankAbove : Bool
  /-- What follows stands one level further in. -/
  indents : Bool
deriving DecidableEq, Repr

/-- Whether the statement at the given position opens a block or a branch. -/
def indentsAfter (pairs : List (Nat × Nat)) (index : Nat) (kind : Kind) : Bool :=
  kind.traits.opens && (!kind.traits.optional || pairs.any (·.1 == index))

/-- The aspects of statements from the given position on, where the statement before them ends on
line `above`. -/
def aspectsFrom (pairs : List (Nat × Nat)) (index : Nat) (above : Option Nat) :
    List RawStatement → List Aspect
  | [] => []
  | r :: rest =>
    { kind := r.kind
      detached := r.detached
      blankAbove := above.any fun line => line + 2 ≤ r.startLine
      indents := indentsAfter pairs index r.kind } ::
    aspectsFrom pairs (index + 1) (some r.endLine) rest

def aspects (raws : List RawStatement) : List Aspect :=
  aspectsFrom (selectPairs (raws.map (·.kind))) 0 none raws

def Aspect.continuesComments (a : Aspect) : Bool :=
  a.kind == .comment && !a.blankAbove

/-- How many statements further on stands the splitter that a comment introduces, where `rest` holds
the statements behind the comment. -/
def splitterDistance? (rest : List Aspect) : Option Nat :=
  let group := rest.takeWhile Aspect.continuesComments
  match rest.drop group.length with
  | a :: _ => if a.kind.traits.middle then some (group.length + 1) else none
  | [] => none

/-- The comments up to a splitter take the level of the splitter. -/
structure Alignment where
  /-- The number of statements up to the splitter. -/
  distance : Nat
  level : Nat
deriving DecidableEq, Repr

/-- The alignment that holds for a statement at the given depth, where `old` is the one that held
for the statement before it. -/
def Alignment.update (old : Option Alignment) (depth : Nat) (a : Aspect) (rest : List Aspect) :
    Option Alignment :=
  match old with
  | some alignment =>
    if alignment.distance = 0 then start else some alignment
  | none => start
where
  /-- The alignment that begins with this statement. -/
  start : Option Alignment :=
    if 0 < depth ∧ a.kind = .comment ∧ a.blankAbove then
      (splitterDistance? rest).map fun n => ⟨n, depth - 1⟩
    else none

def Alignment.advance (a : Alignment) : Alignment :=
  { a with distance := a.distance - 1 }

/-- The levels of statements behind which `depth` blocks are open. -/
def levelsFrom (depth : Nat) (alignment : Option Alignment) : List Aspect → List (Option Nat)
  | [] => []
  | a :: rest =>
    if a.detached then none :: levelsFrom depth (alignment.map Alignment.advance) rest
    else
      let here := if a.kind.traits.closes || a.kind.traits.middle then depth - 1 else depth
      let current := Alignment.update alignment here a rest
      let level := match current with
        | some aligned => aligned.level
        | none => here
      some level ::
        levelsFrom (if a.indents then here + 1 else here) (current.map Alignment.advance) rest

end Level

/-- The level of every raw statement; detached statements have none and keep their column. -/
def levels (raws : List RawStatement) : List (Option Nat) :=
  Level.levelsFrom 0 none (Level.aspects raws)

end AbapLayout
