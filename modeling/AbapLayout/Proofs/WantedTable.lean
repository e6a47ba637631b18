import AbapLayout.Layout.Alignment

/-!
# The wanted blanks of tokens

An entry of the table of wanted blanks belongs to a token that is not the first of its line and is
neither a comment nor a separator, and it is at least one and at most the blanks that stand in front
of the token (`earned_wantedAt`).  Only for the bracket that closes an empty pair it is zero.

Entries come from runs that are moved to the left (`earned_moveRun`).  A run of start columns is
moved by less than the blanks in front of any of its tokens, and so is a run of edges, since the text
in front of a token ends at the latest where the longest one does.
-/

namespace AbapLayout

/-! ## Positions -/

namespace Position

theorem spaces_ofPlacement
    (line : Nat) (last : Option Position) (previous : Option Placement) (p : Placement) :
    (ofPlacement line last previous p).spaces =
      (ofPlacement line last previous p).start - (ofPlacement line last previous p).previousEnd :=
  rfl

theorem spaces_ofPlacement_some
    {line w : Nat} {last : Option Position} {p q : Placement} (h : q.column = p.endColumn + w) :
    (ofPlacement line last (some p) q).spaces = w := by
  simp only [ofPlacement, h]
  omega

theorem map_address_ofLine
    (line : Nat) (last : Option Position) (previous : Option Placement) (ps : List Placement) :
    (ofLine line last previous ps).map (·.address) = ps.map (·.address) := by
  induction ps generalizing last previous with
  | nil => rfl
  | cons p rest ih => simp [ofLine, ih, ofPlacement]

theorem map_address_ofLines (number : Nat) (last : Option Position) (lines : List Line) :
    (ofLines number last lines).map (·.address) =
      lines.flatMap fun l => l.placements.map (·.address) := by
  induction lines generalizing number last with
  | nil => rfl
  | cons l rest ih => simp [ofLines, ih, map_address_ofLine]

/-- Positions are taken from placements. -/
theorem eq_ofPlacement_of_mem_ofLine
    {line : Nat} {last : Option Position} {previous : Option Placement} {ps : List Placement}
    {P : Position} (h : P ∈ ofLine line last previous ps) :
    ∃ last previous, ∃ p ∈ ps, P = ofPlacement line last previous p := by
  induction ps generalizing last previous with
  | nil => simp [ofLine] at h
  | cons p rest ih =>
      rw [ofLine, List.mem_cons] at h
      rcases h with rfl | h
      · exact ⟨last, previous, p, by simp, rfl⟩
      · obtain ⟨last, previous, q, hq, rfl⟩ := ih h
        exact ⟨last, previous, q, by simp [hq], rfl⟩

theorem eq_ofPlacement_of_mem_ofLines
    {number : Nat} {last : Option Position} {lines : List Line} {P : Position}
    (h : P ∈ ofLines number last lines) :
    ∃ line last previous, ∃ l ∈ lines, ∃ p ∈ l.placements,
      P = ofPlacement line last previous p := by
  induction lines generalizing number last with
  | nil => simp [ofLines] at h
  | cons l rest ih =>
      rw [ofLines, List.mem_append] at h
      rcases h with h | h
      · obtain ⟨last, previous, p, hp, rfl⟩ := eq_ofPlacement_of_mem_ofLine h
        exact ⟨number, last, previous, l, by simp, p, hp, rfl⟩
      · obtain ⟨line, last, previous, k, hk, p, hp, rfl⟩ := ih h
        exact ⟨line, last, previous, k, by simp [hk], p, hp, rfl⟩

theorem spaces_of_mem_ofLines
    {number : Nat} {last : Option Position} {lines : List Line} {P : Position}
    (h : P ∈ ofLines number last lines) :
    P.spaces = P.start - P.previousEnd := by
  obtain ⟨line, last, previous, -, -, p, -, rfl⟩ := eq_ofPlacement_of_mem_ofLines h
  exact spaces_ofPlacement line last previous p

/-- The position of a placement knows the placement in front of it. -/
theorem mem_ofLine
    (line : Nat) (last : Option Position) (previous : Option Placement)
    (before after : List Placement) (p : Placement) :
    ∃ last', ofPlacement line last' (before.getLast?.or previous) p ∈
      ofLine line last previous (before ++ p :: after) := by
  induction before generalizing last previous with
  | nil => exact ⟨last, by simp [ofLine]⟩
  | cons q rest ih =>
      obtain ⟨last', hmem⟩ := ih (some (ofPlacement line last previous q)) (some q)
      refine ⟨last', ?_⟩
      rw [List.cons_append, ofLine, List.mem_cons]
      refine .inr ?_
      cases rest with
      | nil => exact hmem
      | cons r rs =>
          rw [List.getLast?_cons_cons]
          obtain ⟨z, hz⟩ := Option.isSome_iff_exists.mp
            (List.getLast?_isSome.mpr (List.cons_ne_nil r rs))
          rw [hz] at hmem ⊢
          exact hmem

theorem mem_ofLines
    {lines : List Line} {l : Line} {before after : List Placement} {p : Placement}
    (number : Nat) (last : Option Position) (hl : l ∈ lines)
    (hps : l.placements = before ++ p :: after) :
    ∃ line last', ofPlacement line last' before.getLast? p ∈ ofLines number last lines := by
  induction lines generalizing number last with
  | nil => simp at hl
  | cons k rest ih =>
      simp only [ofLines, List.mem_append]
      rw [List.mem_cons] at hl
      rcases hl with rfl | hl
      · obtain ⟨last', hmem⟩ := mem_ofLine number last none before after p
        rw [Option.or_none, ← hps] at hmem
        exact ⟨number, last', .inl hmem⟩
      · obtain ⟨line, last', hmem⟩ := ih (number + 1)
          ((ofLine number last none k.placements).getLast?.or last) hl
        exact ⟨line, last', .inr hmem⟩

end Position

namespace Alignment

/-! ## Runs -/

theorem extend_sublist
    (lines : List Line) (column : Nat) (first last : Position) (ps : List Position) :
    ((extend lines column first last ps).1 ++ (extend lines column first last ps).2).Sublist ps := by
  induction ps generalizing last with
  | nil => simp [extend]
  | cons p rest ih =>
      rw [extend]
      split
      · exact List.Sublist.refl _
      split
      · exact (ih p).cons_cons p
      split
      · exact (ih last).cons p
      · exact List.Sublist.refl _

/-- The runs are candidates, in their order, and no candidate is in two of them. -/
theorem flatten_runs_sublist (lines : List Line) (column : Nat) (ps : List Position) :
    (runs lines column ps).flatten.Sublist ps := by
  fun_induction runs lines column ps with
  | case1 => exact List.Sublist.refl _
  | case2 first rest ih =>
      rw [List.flatten_cons, List.cons_append]
      refine List.Sublist.cons_cons first ?_
      exact ((List.Sublist.refl _).append ih).trans (extend_sublist lines column first first rest)

/-- A run consists of candidates. -/
theorem subset_of_mem_runs
    {lines : List Line} {column : Nat} {ps run : List Position} (h : run ∈ runs lines column ps) :
    run ⊆ ps :=
  fun _ hP => (flatten_runs_sublist lines column ps).subset (List.mem_flatten_of_mem h hP)

theorem least_le {n : Nat} {ns : List Nat} (h : n ∈ ns) : least ns ≤ n := by
  fun_induction least ns with
  | case1 => simp at h
  | case2 m => simp_all
  | case3 m rest _ ih =>
      rw [List.mem_cons] at h
      rcases h with rfl | h
      · exact Nat.min_le_left _ _
      · exact Nat.le_trans (Nat.min_le_right _ _) (ih h)

theorem le_foldl_max {n m : Nat} {ns : List Nat} (h : n ≤ m ∨ n ∈ ns) : n ≤ ns.foldl max m := by
  induction ns generalizing m with
  | nil => simpa using h
  | cons k rest ih =>
      rw [List.mem_cons] at h
      rw [List.foldl_cons]
      rcases h with h | rfl | h
      · exact ih (.inl (Nat.le_trans h (Nat.le_max_left m k)))
      · exact ih (.inl (Nat.le_max_right m n))
      · exact ih (.inr h)

/-! ## Entries -/

/-- Whether a token can have other blanks in front of it than the rules give. -/
def IsMovable (P : Position) : Prop :=
  P.leading = false ∧ P.tokenClass.isSeparator = false ∧ P.tokenClass ≠ .comment

/-- An entry that comes from one of some positions and keeps at least one of the blanks there. -/
def Earned (ps : List Position) (entry : Address × Nat) : Prop :=
  ∃ P ∈ ps, P.address = entry.1 ∧ IsMovable P ∧ 1 ≤ entry.2 ∧ (entry.2 : Int) ≤ P.spaces

variable {lines : List Line} {ps run : List Position} {progress : Progress}

/-- Moving a run by less than the blanks in front of each of its tokens. -/
theorem earned_moveRun
    {spare : Nat} (hrun : run ⊆ ps)
    (hspare : spare ≠ 0 → (∀ P ∈ run, P.leading = false) → ∀ P ∈ run, (spare : Int) < P.spaces)
    (h : ∀ entry ∈ progress.wanted, Earned ps entry) :
    ∀ entry ∈ (moveRun run spare progress).wanted, Earned ps entry := by
  unfold moveRun
  dsimp only
  split
  · exact h
  next hmoved =>
    rw [not_or, List.any_eq_true, not_exists] at hmoved
    have hleading : ∀ P ∈ run, P.leading = false := fun P hP => by
      simpa [hP] using hmoved.2 P
    intro entry hentry
    rw [List.mem_append, List.mem_map] at hentry
    rcases hentry with ⟨P, hP, rfl⟩ | hentry
    · rw [List.mem_filter, Bool.and_eq_true, Bool.not_eq_true', bne_iff_ne] at hP
      have hless := hspare hmoved.1 hleading P hP.1
      refine ⟨P, hrun hP.1, rfl, ⟨hleading P hP.1, hP.2⟩, ?_, ?_⟩
      · dsimp only
        omega
      · dsimp only
        omega
    · exact h entry hentry

theorem earned_alignStarts
    (hrun : run ⊆ ps) (h : ∀ entry ∈ progress.wanted, Earned ps entry) :
    ∀ entry ∈ (alignStarts run progress).wanted, Earned ps entry := by
  refine earned_moveRun hrun ?_ h
  intro hspare _ P hP
  have hleast := least_le (List.mem_map_of_mem (f := fun p : Position => (p.spaces - 1).toNat) hP)
  omega

/-- No token of a run of edges is moved into the text in front of it, not even into the longest. -/
theorem earned_alignEdges
    (hsound : ∀ P ∈ ps, P.spaces = P.start - P.previousEnd)
    (hrun : run ⊆ ps) (h : ∀ entry ∈ progress.wanted, Earned ps entry) :
    ∀ entry ∈ (alignEdges run progress).wanted, Earned ps entry := by
  unfold alignEdges
  split
  · exact h
  next first rest =>
    split
    · exact h
    dsimp only
    split
    · exact h
    next nearest others hends =>
      refine earned_moveRun hrun ?_ h
      intro hspare hleading P hP
      have hleast := least_le (List.mem_map_of_mem
        (f := fun p : Position => p.start - others.foldl max nearest - 1) hP)
      have hend : P.previousEnd ≤ others.foldl max nearest := by
        have hmem : P.previousEnd ∈ nearest :: others := by
          rw [← hends]
          refine List.mem_map_of_mem (List.mem_filter.mpr ⟨hP, ?_⟩)
          rw [hleading P hP]
          rfl
        exact le_foldl_max ((List.mem_cons.mp hmem).imp Nat.le_of_eq id)
      rw [hsound P (hrun hP)]
      omega

theorem earned_alignRun
    (signature : Nat) (hsound : ∀ P ∈ ps, P.spaces = P.start - P.previousEnd)
    (hrun : run ⊆ ps) (h : ∀ entry ∈ progress.wanted, Earned ps entry) :
    ∀ entry ∈ (alignRun signature progress run).wanted, Earned ps entry := by
  unfold alignRun
  split
  · exact h
  split
  · exact earned_alignEdges hsound hrun h
  · exact earned_alignStarts hrun h

/-- Whatever runs overlap, no entry takes more blanks than there are. -/
theorem earned_alignAll
    (lines : List Line) (hsound : ∀ P ∈ ps, P.spaces = P.start - P.previousEnd) :
    ∀ entry ∈ (alignAll lines ps).wanted, Earned ps entry := by
  refine List.foldlRecOn (motive := fun progress : Progress =>
    ∀ entry ∈ progress.wanted, Earned ps entry) _ _ (by simp) ?_
  intro progress h signature _
  refine List.foldlRecOn (motive := fun progress : Progress =>
    ∀ entry ∈ progress.wanted, Earned ps entry) _ _ h ?_
  intro progress h run hrun
  refine earned_alignRun signature hsound ?_ h
  exact fun P hP => (List.mem_filter.mp (subset_of_mem_runs hrun hP)).1

theorem earned_condensed
    {entry : Address × Nat} (h : entry ∈ condensed progress ps) :
    Earned ps entry := by
  obtain ⟨P, hP, rfl⟩ := List.mem_map.mp h
  simp only [List.mem_filter, Bool.and_eq_true, Bool.not_eq_true', bne_iff_ne,
    decide_eq_true_eq] at hP
  obtain ⟨hmem, ⟨⟨⟨⟨⟨hleading, -⟩, -⟩, hseparator⟩, hcomment⟩, -⟩, hspaces⟩ := hP
  refine ⟨P, hmem, rfl, ⟨hleading, hseparator, hcomment⟩, Nat.le_refl 1, ?_⟩
  dsimp only
  omega

/-- Where the entries of the table come from. -/
theorem earned_wantedAt
    (lines : List Line) (hsound : ∀ P ∈ ps, P.spaces = P.start - P.previousEnd)
    {entry : Address × Nat} (h : entry ∈ wantedAt lines ps) :
    Earned ps entry ∨
      ∃ P ∈ ps, P.address = entry.1 ∧ P.leading = false ∧ P.spaces ≠ 0 ∧ entry.2 = 0 ∧
        P.previous.any (closesEmptyPair · P.token) = true := by
  simp only [wantedAt, List.mem_append] at h
  rcases h with (h | h) | h
  · obtain ⟨P, hP, rfl⟩ := List.mem_map.mp h
    simp only [List.mem_filter, Bool.and_eq_true, Bool.not_eq_true', bne_iff_ne] at hP
    exact .inr ⟨P, hP.1, rfl, hP.2.1.1, hP.2.1.2, rfl, hP.2.2⟩
  · exact .inl (earned_condensed h)
  · exact .inl (earned_alignAll lines hsound entry h)

end Alignment
end AbapLayout
