import AbapLayout.Proofs.RecastAlignment

/-!
# Formatting a recast source

If the tokens of one source are a recast of those of another, the statements of the one are a recast
of those of the other, and both sources are formatted.  If the statements are also steady, the two
documents have the same letters (`Layout.format_recast`).
-/

namespace AbapLayout

open Text (IsCaseMap)

/-! ## Levels -/

theorem Grouped.detached
    {chain : Option (List Token × Token)} {raws : List RawStatement} (h : Grouped chain raws) :
    ∀ r ∈ raws, r.detached = false := by
  induction h with
  | nil => simp
  | comment _ _ _ ih => exact List.forall_mem_cons.mpr ⟨rfl, ih⟩
  | plain _ _ ih => exact List.forall_mem_cons.mpr ⟨rfl, ih⟩
  | member _ _ _ ih => exact List.forall_mem_cons.mpr ⟨rfl, ih⟩
  | last _ _ _ ih => exact List.forall_mem_cons.mpr ⟨rfl, ih⟩

theorem Level.isSome_of_mem_levelsFrom
    {depth : Nat} {alignment : Option Alignment} {as : List Aspect} (h : Attached as) :
    ∀ level ∈ levelsFrom depth alignment as, level.isSome = true := by
  induction as generalizing depth alignment with
  | nil => simp [levelsFrom]
  | cons a rest ih =>
      obtain ⟨⟨ha, -⟩, hrest⟩ := List.forall_mem_cons.mp h
      rw [levelsFrom, ha]
      exact List.forall_mem_cons.mpr ⟨rfl, ih hrest⟩

/-- Statements that are cut from a source have levels. -/
theorem isSome_of_mem_levels
    {raws : List RawStatement} (hgrouped : Grouped none raws) :
    ∀ level ∈ levels raws, level.isSome = true := by
  rw [levels, Level.aspects_eq_aspectsAhead]
  exact Level.isSome_of_mem_levelsFrom (Level.attached_aspectsAhead none hgrouped.detached)

/-! ## Sources -/

variable {source source' : Text} {filename : Option String} {raws : List RawStatement}
  {statements : List Statement}

theorem Source.grouped_of_split (h : Source.split source filename = .ok raws) :
    Grouped none raws := by
  obtain ⟨ts, hts, hraws⟩ := Source.tokens_of_split h
  exact (Unfinished.run_of_statements (Source.lexed_of_mem_tokens hts) hraws).grouped (.inl rfl)

/-- The statements of a source have a level and stand somewhere. -/
theorem Layout.isSome_place
    (hsplit : Source.split source filename = .ok raws) (h : arrange raws = .ok statements) :
    ∀ s ∈ statements, s.level.isSome = true ∧ s.span.isSome = true := by
  intro s hs
  obtain ⟨⟨span, hspan⟩, hlevel⟩ := place_of_split hsplit h s hs
  refine ⟨isSome_of_mem_levels (Source.grouped_of_split hsplit) _ (List.mem_of_getElem? hlevel), ?_⟩
  rw [hspan]
  rfl

variable {φ : Recast}
  (hblank : Text.isBlankText (Source.clean source') = Text.isBlankText (Source.clean source))
  (htokens : Source.tokens source' = (Source.tokens source).map (List.map φ))
include hblank htokens

/-- A source whose tokens are recast is cut into recast statements. -/
theorem Source.split_recast (h : Source.split source filename = .ok raws) :
    Source.split source' filename = .ok (raws.map (RawStatement.recast φ)) := by
  have hsplit : Source.splitText source' = .ok (raws.map (RawStatement.recast φ)) := by
    have hwhole := Source.splitText_of_split h
    unfold Source.splitText at hwhole ⊢
    rw [hblank, htokens]
    split at hwhole
    · simp at hwhole
    next hsome =>
      rw [if_neg hsome]
      split at hwhole
      · simp at hwhole
      next ts hts =>
        rw [hts]
        exact Unfinished.statements_recast φ hwhole
  unfold Source.split at h ⊢
  split at h
  · exact hsplit
  split at h
  · simp at h
  next hprogram =>
    rw [if_neg hprogram]
    exact hsplit

/-- Two sources, of which one has the tokens of the other recast, are formatted with the same
letters. -/
theorem Layout.format_recast
    {o : Options} {k : KeywordCase} {κ : Char → Char} (hκ : IsCaseMap κ)
    (hsplit : Source.split source filename = .ok raws) (harrange : arrange raws = .ok statements)
    (hsteady : ∀ s ∈ statements, Rendering.Steady o k φ κ s) :
    ∃ text text', format o source filename = .ok { text } ∧
      format (o.withCase k) source' filename = .ok { text := text' } ∧
      text'.map κ = text.map κ := by
  obtain ⟨statements', harrange', hrecast⟩ :=
    arrange_recast (φ := φ) (Source.grouped_of_split hsplit) harrange
  have hsplit' := Source.split_recast hblank htokens hsplit
  refine ⟨print o statements, print (o.withCase k) statements', ?_, ?_,
    print_recast hκ hrecast hsteady⟩
  · simp only [format, hsplit, harrange, Except.map]
  · simp only [format, hsplit', harrange', Except.map]

end AbapLayout
