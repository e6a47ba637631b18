import AbapLayout.Proofs.Nesting

/-!
# Counting `SELECT`s

Which `SELECT`s are closed can be counted: a `SELECT` is closed exactly if, up to some statement
behind it, more `ENDSELECT`s than further `SELECT`s have come (`closesSelect_iff_count`).  A pair is
found at its `ENDSELECT`, and the `SELECT`s that wait there stand in front of the pairs to come or
around them, so no two pairs share a statement or cross (`uncrossed_selectPairsFrom`).
-/

namespace AbapLayout
namespace Level

/-- Two pairs of positions lie apart, or one of them lies inside of the other. -/
def Uncrossed (p q : Nat × Nat) : Prop :=
  p.2 < q.1 ∨ q.2 < p.1 ∨ (p.1 < q.1 ∧ q.2 < p.2) ∨ (q.1 < p.1 ∧ p.2 < q.2)

instance (p q : Nat × Nat) : Decidable (Uncrossed p q) :=
  inferInstanceAs (Decidable (_ ∨ _))

/-- The kinds behind position `i` up to position `j`. -/
def kindsBehind (kinds : List Kind) (i j : Nat) : List Kind :=
  (kinds.drop (i + 1)).take (j - i)

/-! ## Counting -/

theorem exists_take_cons_iff {P : List Kind → Prop} {k : Kind} {rest : List Kind} (h : ¬P []) :
    (∃ n ≤ (k :: rest).length, P ((k :: rest).take n)) ↔
      ∃ n ≤ rest.length, P (k :: rest.take n) := by
  constructor
  · rintro ⟨n, hn, hP⟩
    cases n with
    | zero => exact absurd hP h
    | succ n => exact ⟨n, Nat.le_of_succ_le_succ hn, hP⟩
  · rintro ⟨n, hn, hP⟩
    exact ⟨n + 1, Nat.succ_le_succ hn, hP⟩

/-- A `SELECT` is closed when more `ENDSELECT`s have come than there are others to close before. -/
theorem closesSelect_iff_count {inner : Nat} {kinds : List Kind} :
    closesSelect inner kinds = true ↔
      ∃ n ≤ kinds.length,
        inner + (kinds.take n).count .select < (kinds.take n).count .endSelect := by
  induction kinds generalizing inner with
  | nil => simp [closesSelect]
  | cons k rest ih =>
      rw [exists_take_cons_iff
        (P := fun ks => inner + ks.count .select < ks.count .endSelect) (by simp)]
      by_cases hselect : k = .select
      · subst hselect
        rw [closesSelect, ih]
        simp [Nat.add_assoc, Nat.add_comm 1]
      · by_cases hend : k = .endSelect
        · subst hend
          cases inner with
          | zero =>
              simp only [closesSelect, true_iff]
              exact ⟨0, Nat.zero_le _, by simp⟩
          | succ inner =>
              rw [closesSelect, ih]
              simp [Nat.add_right_comm]
        · rw [closesSelect_cons_of_ne hselect hend, ih]
          simp [List.count_cons_of_ne hselect, List.count_cons_of_ne hend]

/-! ## Pairs -/

/-- A pair that ends among the given kinds, the first of which stands at position `index`, and
begins there or at one of the waiting positions. -/
structure PairedIn (index : Nat) (waiting : List Nat) (kinds : List Kind) (p : Nat × Nat) :
    Prop where
  behind : index ≤ p.2
  ends : kinds[p.2 - index]? = some .endSelect
  begins : p.1 ∈ waiting ∨ index ≤ p.1 ∧ p.1 < p.2 ∧ kinds[p.1 - index]? = some .select

theorem getElem?_sub_succ
    {k : Kind} {kinds : List Kind} {index i : Nat} (h : index + 1 ≤ i) :
    (k :: kinds)[i - index]? = kinds[i - (index + 1)]? := by
  obtain ⟨n, rfl⟩ := Nat.exists_eq_add_of_le h
  rw [Nat.add_sub_cancel_left, show index + 1 + n - index = n + 1 by omega,
    List.getElem?_cons_succ]

theorem PairedIn.cons
    {index : Nat} {waiting : List Nat} {kinds : List Kind} {p : Nat × Nat}
    (h : PairedIn (index + 1) waiting kinds p) (k : Kind) :
    PairedIn index waiting (k :: kinds) p where
  behind := Nat.le_of_succ_le h.behind
  ends := (getElem?_sub_succ h.behind).trans h.ends
  begins := h.begins.imp_right fun ⟨hle, hlt, hselect⟩ =>
    ⟨Nat.le_of_succ_le hle, hlt, (getElem?_sub_succ hle).trans hselect⟩

theorem pairedIn_of_mem
    {index : Nat} {waiting : List Nat} {kinds : List Kind} {p : Nat × Nat}
    (hp : p ∈ selectPairsFrom index waiting kinds) : PairedIn index waiting kinds p := by
  fun_induction selectPairsFrom index waiting kinds with
  | case1 => simp at hp
  | case2 index waiting rest ih =>
      have hnext := (ih hp).cons .select
      refine ⟨hnext.behind, hnext.ends, hnext.begins.elim (fun hwaits => ?_) .inr⟩
      rcases List.mem_cons.mp hwaits with heq | hwaits
      · have hbehind := (ih hp).behind
        exact .inr ⟨by omega, by omega, by simp [heq]⟩
      · exact .inl hwaits
  | case3 index rest ih => exact (ih hp).cons .endSelect
  | case4 index rest latest others ih =>
      rcases List.mem_cons.mp hp with rfl | hp
      · exact ⟨Nat.le_refl _, by simp, .inl (by simp)⟩
      · have hnext := (ih hp).cons .endSelect
        exact ⟨hnext.behind, hnext.ends, hnext.begins.imp_left (List.mem_cons_of_mem latest)⟩
  | case5 index waiting k rest _ _ ih => exact (ih hp).cons k

/-- Pairs do not cross, since the `SELECT`s that wait stand in front of the one that is closed. -/
theorem uncrossed_selectPairsFrom
    {index : Nat} {waiting : List Nat} (kinds : List Kind) (hordered : waiting.Pairwise (· > ·))
    (hwaiting : ∀ i ∈ waiting, i < index) :
    (selectPairsFrom index waiting kinds).Pairwise Uncrossed := by
  fun_induction selectPairsFrom index waiting kinds with
  | case1 => exact .nil
  | case2 index waiting rest ih =>
      refine ih (List.pairwise_cons.mpr ⟨hwaiting, hordered⟩) ?_
      rw [List.forall_mem_cons]
      exact ⟨Nat.lt_succ_self index, fun i hi => Nat.lt_succ_of_lt (hwaiting i hi)⟩
  | case3 index rest ih => exact ih .nil (by simp)
  | case4 index rest latest others ih =>
      obtain ⟨hlatest, hothers⟩ := List.pairwise_cons.mp hordered
      obtain ⟨-, hwaiting⟩ := List.forall_mem_cons.mp hwaiting
      refine List.pairwise_cons.mpr
        ⟨fun q hq => ?_, ih hothers fun i hi => Nat.lt_succ_of_lt (hwaiting i hi)⟩
      -- A later pair ends behind this one and begins in front of it or behind its end.
      obtain ⟨hbehind, -, hwaits | ⟨hle, -⟩⟩ := pairedIn_of_mem hq
      · exact .inr (.inr (.inr ⟨hlatest q.1 hwaits, hbehind⟩))
      · exact .inl hle
  | case5 index waiting k rest _ _ ih =>
      exact ih hordered fun i hi => Nat.lt_succ_of_lt (hwaiting i hi)

theorem pairedIn_of_mem_selectPairs
    {kinds : List Kind} {p : Nat × Nat} (hp : p ∈ selectPairs kinds) :
    p.1 < p.2 ∧ kinds[p.1]? = some .select ∧ kinds[p.2]? = some .endSelect := by
  obtain ⟨-, hend, hwaits | ⟨-, hlt, hselect⟩⟩ := pairedIn_of_mem hp
  · simp at hwaits
  · exact ⟨hlt, hselect, hend⟩

/-- A statement begins a pair exactly if it is a `SELECT` that is closed behind it. -/
theorem exists_selectPair_iff {kinds : List Kind} {i : Nat} :
    (∃ j, (i, j) ∈ selectPairs kinds) ↔
      kinds[i]? = some .select ∧ closesSelect 0 (kinds.drop (i + 1)) = true := by
  cases hk : kinds[i]? with
  | none =>
      refine iff_of_false ?_ (by simp)
      rintro ⟨j, hj⟩
      have hselect := (pairedIn_of_mem_selectPairs hj).2.1
      simp [hk] at hselect
  | some k =>
      obtain ⟨hi, rfl⟩ := List.getElem?_eq_some_iff.mp hk
      have hsplit : kinds.take i ++ kinds[i] :: kinds.drop (i + 1) = kinds := by
        rw [List.getElem_cons_drop, List.take_append_drop]
      have hany := selectPairsFrom_any_iff (kinds.take i) kinds[i] (kinds.drop (i + 1))
        (List.forall_mem_nil (· < 0))
      rw [hsplit, List.length_take_of_le (Nat.le_of_lt hi), Nat.zero_add, ← selectPairs] at hany
      calc (∃ j, (i, j) ∈ selectPairs kinds) ↔ (selectPairs kinds).any (·.1 == i) = true := by simp
        _ ↔ some kinds[i] = some Kind.select ∧ closesSelect 0 (kinds.drop (i + 1)) = true := by
          simp [hany]

/-- A `SELECT` is closed exactly if, up to some statement behind it, more `ENDSELECT`s than
`SELECT`s have come. -/
theorem closesSelect_drop_iff {kinds : List Kind} {i : Nat} (hi : i < kinds.length) :
    closesSelect 0 (kinds.drop (i + 1)) = true ↔
      ∃ j, i < j ∧ j < kinds.length ∧
        (kindsBehind kinds i j).count .select < (kindsBehind kinds i j).count .endSelect := by
  rw [closesSelect_iff_count]
  constructor
  · rintro ⟨n, hn, hcount⟩
    rw [List.length_drop] at hn
    have hpos : n ≠ 0 := by
      rintro rfl
      simp at hcount
    refine ⟨i + n, by omega, by omega, ?_⟩
    rw [kindsBehind, Nat.add_sub_cancel_left]
    omega
  · rintro ⟨j, hij, hj, hcount⟩
    refine ⟨j - i, by rw [List.length_drop]; omega, ?_⟩
    rwa [Nat.zero_add, ← kindsBehind]

end Level

open Level

/-- A statement begins a pair exactly if it is a `SELECT` and, up to some statement behind it, more
`ENDSELECT`s than `SELECT`s have come.  A pair is a `SELECT` and an `ENDSELECT` behind it, no
statement belongs to two pairs, and no two pairs cross. -/
theorem selectPairs_counted (raws : List RawStatement) :
    (∀ i, (∃ j, (i, j) ∈ selectPairs (raws.map (·.kind))) ↔
      (raws.map (·.kind))[i]? = some .select ∧
        ∃ j, i < j ∧ j < raws.length ∧
          (kindsBehind (raws.map (·.kind)) i j).count .select <
            (kindsBehind (raws.map (·.kind)) i j).count .endSelect) ∧
    (∀ p ∈ selectPairs (raws.map (·.kind)), p.1 < p.2 ∧
      (raws.map (·.kind))[p.1]? = some .select ∧ (raws.map (·.kind))[p.2]? = some .endSelect) ∧
    (selectPairs (raws.map (·.kind))).Pairwise fun p q =>
      p.1 ≠ q.1 ∧ p.2 ≠ q.2 ∧ Uncrossed p q := by
  refine ⟨fun i => ?_, fun p hp => pairedIn_of_mem_selectPairs hp, ?_⟩
  · rw [exists_selectPair_iff]
    refine and_congr_right fun hselect => ?_
    obtain ⟨hi, -⟩ := List.getElem?_eq_some_iff.mp hselect
    rw [closesSelect_drop_iff hi, List.length_map]
  · refine (uncrossed_selectPairsFrom _ .nil (by simp)).imp_of_mem fun {p q} hp hq huncrossed => ?_
    have hforward := (pairedIn_of_mem_selectPairs hp).1
    have hforward' := (pairedIn_of_mem_selectPairs hq).1
    refine ⟨?_, ?_, huncrossed⟩
    · unfold Uncrossed at huncrossed
      omega
    · unfold Uncrossed at huncrossed
      omega

/-- An `ENDSELECT` in front of everything, a loop around two others, the first of which begins at a
detached statement within an `IF` and ends behind it, and a `SELECT` that nothing closes. -/
def crowdedSelects : List RawStatement :=
  [.onLine 1 .endSelect, .onLine 2 .select, .onLine 3 .ifBlock,
    { RawStatement.onLine 4 .select with detached := true }, .onLine 5 .endIf,
    .onLine 6 .endSelect, .onLine 7 .select, .onLine 8 .endSelect, .onLine 9 .endSelect,
    .onLine 10 .select]

theorem selectPairs_counted_crowded :
    selectPairs (crowdedSelects.map (·.kind)) = [(3, 5), (6, 7), (1, 8)] ∧
      (∃ j, 1 < j ∧ j < crowdedSelects.length ∧
        (kindsBehind (crowdedSelects.map (·.kind)) 1 j).count .select <
          (kindsBehind (crowdedSelects.map (·.kind)) 1 j).count .endSelect) ∧
      (¬∃ j, (9, j) ∈ selectPairs (crowdedSelects.map (·.kind))) ∧ Uncrossed (3, 5) (1, 8) := by
  have hpairs : selectPairs (crowdedSelects.map (·.kind)) = [(3, 5), (6, 7), (1, 8)] := by decide
  obtain ⟨hcounted, -, huncrossed⟩ := selectPairs_counted crowdedSelects
  rw [hpairs] at huncrossed
  refine ⟨hpairs, ((hcounted 1).mp ⟨8, by simp [hpairs]⟩).2, fun hclosed => ?_,
    ((List.pairwise_cons.mp huncrossed).1 (1, 8) (by simp)).2.2⟩
  obtain ⟨-, j, hj, hlength, -⟩ := (hcounted 9).mp hclosed
  have hten : crowdedSelects.length = 10 := rfl
  omega

end AbapLayout
