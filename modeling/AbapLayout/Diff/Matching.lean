import AbapLayout.Text.Basic

/-!
# Matching two lists of lines

Two lists are matched around their longest common stretch: the stretch itself, and recursively what
stands in front of it and behind it.  Of several longest stretches the first in the old list counts,
and of those the first in the new list.
-/

namespace AbapLayout
namespace Diff

/-- A common stretch: where it begins in the old and the new list, and its length. -/
structure Block where
  old : Nat
  new : Nat
  size : Nat
deriving DecidableEq, Repr

/-- For every line of the new list, the length of the common stretch that ends there and at `line`,
where `above` holds these lengths for the line before, shifted by one. -/
def stretchLengths (line : Text) : List Text → List Nat → List Nat
  | [], _ => []
  | _ :: news, [] => 0 :: stretchLengths line news []
  | new :: news, n :: ns => (if line = new then n + 1 else 0) :: stretchLengths line news ns

/-- The better of a stretch and those that end at the old position `i`, the lengths of which are
given from the new position `j` on. -/
def improve (best : Block) (i j : Nat) : List Nat → Block
  | [] => best
  | n :: ns =>
    improve (if best.size < n then ⟨i + 1 - n, j + 1 - n, n⟩ else best) i (j + 1) ns

/-- The longest common stretch, where `i` lines of the old list have been looked at. -/
def longestFrom (news : List Text) (best : Block) (i : Nat) (above : List Nat) :
    List Text → Block
  | [] => best
  | line :: rest =>
    let lengths := stretchLengths line news (0 :: above)
    longestFrom news (improve best i 0 lengths) (i + 1) lengths rest

def longest (olds news : List Text) : Block :=
  longestFrom news ⟨0, 0, 0⟩ 0 (news.map fun _ => 0) olds

/-- The common stretches of two lists that stand at the given positions. -/
def blocksAt (old new : Nat) (olds news : List Text) : List Block :=
  match longest olds news with
  | ⟨i, j, size⟩ =>
    if _inside : i < olds.length ∧ 0 < size then
      blocksAt old new (olds.take i) (news.take j) ++
        ⟨old + i, new + j, size⟩ ::
        blocksAt (old + i + size) (new + j + size) (olds.drop (i + size)) (news.drop (j + size))
    else []
termination_by olds.length
decreasing_by
  · simp only [List.length_take]
    omega
  · simp only [List.length_drop]
    omega

/-- Joins stretches that touch in both lists. -/
def joinBlocks : List Block → List Block
  | a :: b :: rest =>
    if a.old + a.size = b.old ∧ a.new + a.size = b.new then
      joinBlocks (⟨a.old, a.new, a.size + b.size⟩ :: rest)
    else a :: joinBlocks (b :: rest)
  | blocks => blocks
termination_by blocks => blocks.length

/-- The common stretches of two lists. -/
def blocks (olds news : List Text) : List Block :=
  joinBlocks (blocksAt 0 0 olds news)

end Diff
end AbapLayout
