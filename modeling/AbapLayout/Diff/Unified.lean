import AbapLayout.Diff.Matching

/-!
# Unified differences

The difference of two lists of lines as hunks: changed lines with three unchanged lines of context
around them.  Removed lines are marked by a minus sign, added ones by a plus sign.
-/

namespace AbapLayout
namespace Diff

/-- A range of old lines and the range of new lines that takes its place. -/
structure Step where
  same : Bool
  oldStart : Nat
  oldEnd : Nat
  newStart : Nat
  newEnd : Nat
deriving DecidableEq, Repr

def contextSize : Nat := 3

/-- The steps from the given positions on: what stands between the common stretches is changed. -/
def stepsFrom (old new oldSize newSize : Nat) : List Block → List Step
  | [] => change oldSize newSize
  | b :: rest =>
    change b.old b.new ++
      ⟨true, b.old, b.old + b.size, b.new, b.new + b.size⟩ ::
      stepsFrom (b.old + b.size) (b.new + b.size) oldSize newSize rest
where
  /-- The change up to the given positions. -/
  change (oldEnd newEnd : Nat) : List Step :=
    if old < oldEnd ∨ new < newEnd then [⟨false, old, oldEnd, new, newEnd⟩] else []

def steps (olds news : List Text) : List Step :=
  stepsFrom 0 0 olds.length news.length (blocks olds news)

/-- The end of an unchanged stretch. -/
def Step.keepEnd (s : Step) : Step :=
  { s with
    oldStart := max s.oldStart (s.oldEnd - contextSize)
    newStart := max s.newStart (s.newEnd - contextSize) }

/-- The beginning of an unchanged stretch. -/
def Step.keepStart (s : Step) : Step :=
  { s with
    oldEnd := min s.oldEnd (s.oldStart + contextSize)
    newEnd := min s.newEnd (s.newStart + contextSize) }

/-- Steps of which the first and the last one, if unchanged, are cut down to context. -/
def trimEnds (steps : List Step) : List Step :=
  let front := match steps with
    | s :: rest => (if s.same then s.keepEnd else s) :: rest
    | [] => []
  match front.getLast? with
  | some s => if s.same then front.dropLast ++ [s.keepStart] else front
  | none => []

/-- Cuts steps into hunks at long unchanged stretches; `hunk` is the one in progress. -/
def cutFrom (hunk : List Step) : List Step → List (List Step)
  | [] => [hunk]
  | s :: rest =>
    if s.same ∧ 2 * contextSize < s.oldEnd - s.oldStart then
      (hunk ++ [s.keepStart]) :: cutFrom [s.keepEnd] rest
    else cutFrom (hunk ++ [s]) rest

/-- The hunks of a difference; a hunk without any change is left out. -/
def hunks (olds news : List Text) : List (List Step) :=
  (cutFrom [] (trimEnds (steps olds news))).filter fun hunk => hunk.any fun s => !s.same

/-- A range of lines in the header of a hunk. -/
def showRange (start stop : Nat) : String :=
  let size := stop - start
  if size = 1 then toString (start + 1)
  else if size = 0 then toString start ++ ",0"
  else toString (start + 1) ++ "," ++ toString size

def hunkHeader (hunk : List Step) : Text :=
  match hunk.head?, hunk.getLast? with
  | some first, some last =>
    ("@@ -" ++ showRange first.oldStart last.oldEnd ++ " +" ++
      showRange first.newStart last.newEnd ++ " @@").toList
  | _, _ => []

/-- Some of the lines of a list, each behind a mark. -/
def marked (mark : Char) (lines : List Text) (start stop : Nat) : List Text :=
  ((lines.drop start).take (stop - start)).map (mark :: ·)

def stepLines (olds news : List Text) (s : Step) : List Text :=
  if s.same then marked ' ' olds s.oldStart s.oldEnd
  else marked '-' olds s.oldStart s.oldEnd ++ marked '+' news s.newStart s.newEnd

/-- The unified difference of two lists of lines under the given names; equal lists have none. -/
def unified (oldName newName : Text) (olds news : List Text) : List Text :=
  match hunks olds news with
  | [] => []
  | found =>
    ("--- ".toList ++ oldName) :: ("+++ ".toList ++ newName) ::
      found.flatMap fun hunk => hunkHeader hunk :: hunk.flatMap (stepLines olds news)

end Diff
end AbapLayout
