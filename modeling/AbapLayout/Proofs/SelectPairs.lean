import AbapLayout.Level

/-!
# Which `SELECT` opens a block

A `SELECT` opens a block if an `ENDSELECT` closes it, and `selectPairs` finds that out with a stack of
positions.  Seen from the `SELECT` itself, only what follows counts: one of the statements behind it
has to close it, when each inner `SELECT` has had an `ENDSELECT` of its own (`closesSelect`).  So the
aspects of a statement depend on the statements behind it and the line above it alone
(`aspects_eq_aspectsAhead`).
-/

namespace AbapLayout
namespace Level

/-- Whether one of the statements closes the `SELECT` in front of them, where `inner` further
`SELECT`s have to be closed before it. -/
def closesSelect (inner : Nat) : List Kind → Bool
  | [] => false
  | .select :: rest => closesSelect (inner + 1) rest
  | .endSelect :: rest =>
    match inner with
    | 0 => true
    | n + 1 => closesSelect n rest
  | _ :: rest => closesSelect inner rest

theorem closesSelect_cons_of_ne
    {k : Kind} (hselect : k ≠ .select) (hend : k ≠ .endSelect) (inner : Nat) (rest : List Kind) :
    closesSelect inner (k :: rest) = closesSelect inner rest := by
  rw [closesSelect] <;> simp [hselect, hend]

theorem selectPairsFrom_cons_of_ne
    {k : Kind} (hselect : k ≠ .select) (hend : k ≠ .endSelect) (index : Nat) (waiting : List Nat)
    (rest : List Kind) :
    selectPairsFrom index waiting (k :: rest) = selectPairsFrom (index + 1) waiting rest := by
  rw [selectPairsFrom] <;> simp [hselect, hend]

/-- With more inner `SELECT`s there are fewer chances to be closed. -/
theorem closesSelect_antitone
    {inner : Nat} {kinds : List Kind} (h : closesSelect 0 kinds = false) :
    closesSelect inner kinds = false := by
  have hstep : ∀ (kinds : List Kind) (n : Nat),
      closesSelect n kinds = false → closesSelect (n + 1) kinds = false := by
    intro kinds
    induction kinds with
    | nil => simp [closesSelect]
    | cons k rest ih =>
        intro n hn
        by_cases hselect : k = .select
        · subst hselect
          exact ih _ hn
        · by_cases hend : k = .endSelect
          · subst hend
            cases n with
            | zero => simp [closesSelect] at hn
            | succ n => exact ih n hn
          · rw [closesSelect_cons_of_ne hselect hend] at hn ⊢
            exact ih n hn
  induction inner with
  | zero => exact h
  | succ n ih => exact hstep kinds n ih

/-- A position that is neither waiting nor still to come is in no pair. -/
theorem selectPairsFrom_any_eq_false
    {index i : Nat} {waiting : List Nat} (kinds : List Kind)
    (hwaiting : i ∉ waiting) (hindex : i < index) :
    (selectPairsFrom index waiting kinds).any (·.1 == i) = false := by
  induction kinds generalizing index waiting with
  | nil => rfl
  | cons k rest ih =>
      by_cases hselect : k = .select
      · subst hselect
        refine ih ?_ (by omega)
        simp only [List.mem_cons, not_or]
        exact ⟨by omega, hwaiting⟩
      · by_cases hend : k = .endSelect
        · subst hend
          cases waiting with
          | nil => exact ih (by simp) (by omega)
          | cons latest others =>
              simp only [List.mem_cons, not_or] at hwaiting
              rw [selectPairsFrom, List.any_cons, ih hwaiting.2 (by omega)]
              simp [Ne.symm hwaiting.1]
        · rw [selectPairsFrom_cons_of_ne hselect hend]
          exact ih hwaiting (by omega)

/-- A waiting `SELECT` is closed when those that began behind it have been. -/
theorem selectPairsFrom_any_waiting
    {index i : Nat} (later : List Nat) {earlier : List Nat} (kinds : List Kind)
    (hlater : i ∉ later) (hindex : i < index) :
    (selectPairsFrom index (later ++ i :: earlier) kinds).any (·.1 == i) =
      closesSelect later.length kinds := by
  induction kinds generalizing index later with
  | nil => rfl
  | cons k rest ih =>
      by_cases hselect : k = .select
      · subst hselect
        refine ih (index :: later) ?_ (by omega)
        simp only [List.mem_cons, not_or]
        exact ⟨by omega, hlater⟩
      · by_cases hend : k = .endSelect
        · subst hend
          cases later with
          | nil => simp [selectPairsFrom, closesSelect]
          | cons latest others =>
              simp only [List.mem_cons, not_or] at hlater
              rw [List.cons_append, selectPairsFrom, List.any_cons, ih others hlater.2 (by omega)]
              simp [closesSelect, Ne.symm hlater.1]
        · rw [selectPairsFrom_cons_of_ne hselect hend, closesSelect_cons_of_ne hselect hend]
          exact ih later hlater (by omega)

/-- A statement begins a pair exactly if it is a `SELECT` that is closed behind it. -/
theorem selectPairsFrom_any_iff
    {index : Nat} {waiting : List Nat} (before : List Kind) (k : Kind) (rest : List Kind)
    (hwaiting : ∀ i ∈ waiting, i < index) :
    (selectPairsFrom index waiting (before ++ k :: rest)).any (·.1 == index + before.length) =
      (k == .select && closesSelect 0 rest) := by
  induction before generalizing index waiting with
  | nil =>
      have hnot : index ∉ waiting := fun h => Nat.lt_irrefl _ (hwaiting index h)
      simp only [List.nil_append, List.length_nil, Nat.add_zero]
      by_cases hselect : k = .select
      · subst hselect
        exact selectPairsFrom_any_waiting [] rest (by simp) (by omega)
      · have hfalse : (k == .select) = false := by simpa using hselect
        rw [hfalse, Bool.false_and]
        by_cases hend : k = .endSelect
        · subst hend
          cases waiting with
          | nil => exact selectPairsFrom_any_eq_false rest (by simp) (by omega)
          | cons latest others =>
              simp only [List.mem_cons, not_or] at hnot
              rw [selectPairsFrom, List.any_cons, selectPairsFrom_any_eq_false rest hnot.2 (by omega)]
              simp [Ne.symm hnot.1]
        · rw [selectPairsFrom_cons_of_ne hselect hend]
          exact selectPairsFrom_any_eq_false rest hnot (by omega)
  | cons j before ih =>
      rw [List.cons_append, List.length_cons,
        show index + (before.length + 1) = index + 1 + before.length by omega]
      have hnext : ∀ i ∈ waiting, i < index + 1 := fun i hi => by
        have := hwaiting i hi
        omega
      by_cases hselect : j = .select
      · subst hselect
        refine ih fun i hi => ?_
        rcases List.mem_cons.mp hi with rfl | hi
        · omega
        · exact hnext i hi
      · by_cases hend : j = .endSelect
        · subst hend
          cases waiting with
          | nil => exact ih (by simp)
          | cons latest others =>
              have hlatest := hwaiting latest (by simp)
              rw [selectPairsFrom, List.any_cons,
                ih fun i hi => hnext i (List.mem_cons_of_mem _ hi)]
              have hne : (latest == index + 1 + before.length) = false := by
                simp only [beq_eq_false_iff_ne]
                omega
              rw [hne, Bool.false_or]
        · rw [selectPairsFrom_cons_of_ne hselect hend]
          exact ih hnext

/-! ## Aspects -/

/-- Whether a statement in front of others opens a block or a branch. -/
def opensBlock (k : Kind) (rest : List Kind) : Bool :=
  k.traits.opens && (k != .select || closesSelect 0 rest)

theorem indentsAfter_selectPairs (before : List Kind) (k : Kind) (rest : List Kind) :
    indentsAfter (selectPairs (before ++ k :: rest)) before.length k = opensBlock k rest := by
  have hpair := @selectPairsFrom_any_iff 0 [] before k rest (by simp)
  rw [Nat.zero_add] at hpair
  have hoptional : k.traits.optional = (k == .select) := by cases k <;> rfl
  rw [indentsAfter, selectPairs, hpair, opensBlock, hoptional, bne]
  cases k == .select <;> simp

/-- The aspects of statements, told from the line above and the statements behind. -/
def aspectsAhead (above : Option Nat) : List RawStatement → List Aspect
  | [] => []
  | r :: rest =>
    { kind := r.kind
      detached := r.detached
      blankAbove := above.any fun line => line + 2 ≤ r.startLine
      indents := opensBlock r.kind (rest.map (·.kind)) } ::
    aspectsAhead (some r.endLine) rest

theorem aspects_eq_aspectsAhead (raws : List RawStatement) :
    aspects raws = aspectsAhead none raws := by
  have hmain : ∀ (rest : List RawStatement) (before : List Kind) (above : Option Nat),
      aspectsFrom (selectPairs (before ++ rest.map (·.kind))) before.length above rest =
        aspectsAhead above rest := by
    intro rest
    induction rest with
    | nil => intros; rfl
    | cons r rest ih =>
        intro before above
        have hnext := ih (before ++ [r.kind]) (some r.endLine)
        rw [List.append_assoc, List.length_append] at hnext
        simp only [List.map_cons, aspectsFrom, aspectsAhead, indentsAfter_selectPairs]
        exact congrArg _ hnext
  exact hmain raws [] none

end Level
end AbapLayout
