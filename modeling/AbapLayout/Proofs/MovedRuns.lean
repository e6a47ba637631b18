import AbapLayout.Proofs.Compression

/-!
# Runs that are moved to the left

Alignment takes the runs of tokens one after another, those furthest to the right first.  A run with
one start column is moved by the blanks that all of its tokens can spare, `spare`, and nothing later
changes what it asks for: the start of a token is its least signature, and no token is in two runs
of one signature (`steps_apart`).

So in the final print a token of such a run stands behind the token in front of it with the blanks
that it had, less `spare`.  Blanks are counted from the token in front, not from the margin; what
stands further to the left is moved too.  Two tokens of the run keep a common column exactly if the
tokens in front of them are moved equally far (`format_movesRuns`).
-/

namespace AbapLayout
namespace Alignment

variable {lines : List Line} {ps run : List Position} {progress : Progress} {P : Position}
  {a : Address}

/-! ## The steps of alignment -/

/-- The runs of some positions with their signatures, in the order in which they are taken into
account. -/
def steps (lines : List Line) (ps : List Position) : List (Nat × List Position) :=
  (signaturesDescending ps).flatMap fun s =>
    (runs lines (s / 2) (ps.filter fun p => p.signatures.contains s)).map fun run => (s, run)

/-- What is known after some steps. -/
def align (progress : Progress) (steps : List (Nat × List Position)) : Progress :=
  steps.foldl (fun progress step => alignRun step.1 progress step.2) progress

theorem alignAll_eq_align (lines : List Line) (ps : List Position) :
    alignAll lines ps = align {} (steps lines ps) := by
  rw [align, steps, List.foldl_flatMap]
  simp only [List.foldl_map]
  rfl

theorem mem_insertDescending {n m : Nat} {ns : List Nat} :
    m ∈ insertDescending n ns ↔ m = n ∨ m ∈ ns := by
  induction ns with
  | nil => simp [insertDescending]
  | cons k rest ih =>
      rw [insertDescending]
      split
      · simp
      split
      next heq => simp [heq]
      next => simp [ih, or_left_comm]

theorem pairwise_insertDescending {n : Nat} {ns : List Nat} (h : ns.Pairwise (· > ·)) :
    (insertDescending n ns).Pairwise (· > ·) := by
  induction ns with
  | nil => simp [insertDescending]
  | cons k rest ih =>
      obtain ⟨hfirst, hrest⟩ := List.pairwise_cons.mp h
      rw [insertDescending]
      split
      next hless =>
        refine List.pairwise_cons.mpr ⟨fun m hm => ?_, h⟩
        rcases List.mem_cons.mp hm with rfl | hm
        · exact hless
        · exact (hfirst m hm).trans hless
      split
      · exact h
      next hle hne =>
        refine List.pairwise_cons.mpr ⟨fun m hm => ?_, ih hrest⟩
        rcases mem_insertDescending.mp hm with rfl | hm
        · omega
        · exact hfirst m hm

theorem pairwise_signaturesDescending (ps : List Position) :
    (signaturesDescending ps).Pairwise (· > ·) := by
  rw [signaturesDescending]
  induction ps.flatMap Position.signatures with
  | nil => exact .nil
  | cons n rest ih => exact pairwise_insertDescending ih

/-- No token is aligned at an edge to the left of its start. -/
def EdgesBehind (ps : List Position) : Prop :=
  ∀ P ∈ ps, ∀ e ∈ P.edge?, P.start ≤ e

/-- Behind a run with one start column none of its tokens is in another run. -/
theorem steps_apart
    (hnodup : (ps.map (·.address)).Nodup) (hedges : EdgesBehind ps) :
    (steps lines ps).Pairwise fun x y =>
      x.1 % 2 = 0 → ∀ P ∈ x.2, ∀ Q ∈ y.2, Q.address ≠ P.address := by
  have hinj : ∀ P ∈ ps, ∀ Q ∈ ps, Q.address = P.address → Q = P :=
    fun P hP Q hQ => List.inj_on_of_nodup_map hnodup hQ hP
  have hmem (s : Nat) (step : Nat × List Position)
      (hstep : step ∈ (runs lines (s / 2) (ps.filter fun p => p.signatures.contains s)).map
        fun run => (s, run)) :
      step.1 = s ∧ ∀ P ∈ step.2, P ∈ ps ∧ s ∈ P.signatures := by
    obtain ⟨run, hrun, rfl⟩ := List.mem_map.mp hstep
    refine ⟨rfl, fun P hP => ?_⟩
    simpa using List.mem_filter.mp (subset_of_mem_runs hrun hP)
  refine List.pairwise_flatMap.mpr ⟨fun s _ => ?_, ?_⟩
  · -- The runs of one signature share no token.
    have hsublist := (flatten_runs_sublist lines (s / 2)
      (ps.filter fun p => p.signatures.contains s)).trans List.filter_sublist
    have hflat := (hsublist.map (·.address)).nodup hnodup
    rw [List.map_flatten, List.nodup_flatten, List.pairwise_map] at hflat
    rw [List.pairwise_map]
    refine hflat.2.imp fun hdisjoint _ P hP Q hQ heq => ?_
    exact hdisjoint (List.mem_map_of_mem hP) (heq ▸ List.mem_map_of_mem hQ)
  · -- The start of a token is its least signature.
    refine (pairwise_signaturesDescending ps).imp fun hless x hx y hy heven P hP Q hQ heq => ?_
    obtain ⟨rfl, hx⟩ := hmem _ x hx
    obtain ⟨rfl, hy⟩ := hmem _ y hy
    obtain ⟨hPmem, hsign⟩ := hx P hP
    obtain ⟨hQmem, hsign'⟩ := hy Q hQ
    obtain rfl := hinj P hPmem Q hQmem heq
    have hedge := hedges Q hPmem
    simp only [Position.signatures, List.mem_cons, List.mem_map, Option.mem_toList] at hsign hsign'
    rcases hsign with hsign | ⟨e, he, hsign⟩
    · rcases hsign' with hsign' | ⟨e, he, hsign'⟩
      · omega
      · have hle := hedge e he
        omega
    · omega

/-! ## What a step adds -/

theorem lookup_moveRun_of_ne (h : ∀ P ∈ run, P.address ≠ a) (n : Nat) :
    (moveRun run n progress).wanted.lookup a = progress.wanted.lookup a := by
  unfold moveRun
  dsimp only
  split
  · rfl
  · have hnone : (((run.filter fun p => !p.tokenClass.isSeparator && p.tokenClass != .comment).map
        fun p => (p.address, (p.spaces - (n : Int)).toNat))).lookup a = none := by
      rw [List.lookup_eq_none_iff]
      intro entry hentry
      obtain ⟨P, hP, rfl⟩ := List.mem_map.mp hentry
      exact bne_iff_ne.mpr (h P (List.mem_filter.mp hP).1).symm
    rw [List.lookup_append, hnone, Option.none_or]

/-- A run changes nothing for other tokens. -/
theorem lookup_alignRun_of_ne (h : ∀ P ∈ run, P.address ≠ a) (signature : Nat) :
    (alignRun signature progress run).wanted.lookup a = progress.wanted.lookup a := by
  unfold alignRun
  split
  · rfl
  split
  · unfold alignEdges
    split
    · rfl
    split
    · rfl
    dsimp only
    split
    · rfl
    · exact lookup_moveRun_of_ne h _
  · exact lookup_moveRun_of_ne h _

theorem lookup_align_of_ne
    {steps : List (Nat × List Position)} (h : ∀ step ∈ steps, ∀ P ∈ step.2, P.address ≠ a) :
    (align progress steps).wanted.lookup a = progress.wanted.lookup a := by
  induction steps generalizing progress with
  | nil => rfl
  | cons step rest ih =>
      rw [List.forall_mem_cons] at h
      exact (ih h.2).trans (lookup_alignRun_of_ne h.1 step.1)

theorem lookup_map_append
    {f : Position → Nat} (hnodup : (run.map (·.address)).Nodup) (hP : P ∈ run)
    (entries : List (Address × Nat)) :
    (run.map (fun p => (p.address, f p)) ++ entries).lookup P.address = some (f P) := by
  induction run with
  | nil => simp at hP
  | cons q rest ih =>
      rw [List.map_cons, List.nodup_cons] at hnodup
      rw [List.map_cons, List.cons_append]
      rcases List.mem_cons.mp hP with rfl | hP
      · exact List.lookup_cons_self
      · have hne : P.address ≠ q.address := by
          intro heq
          exact hnodup.1 (heq ▸ List.mem_map_of_mem hP)
        rw [List.lookup_cons, beq_eq_false_iff_ne.mpr hne]
        exact ih hnodup.2 hP

/-- The blanks that all tokens of a run can spare. -/
def spare (run : List Position) : Nat :=
  least (run.map fun P => (P.spaces - 1).toNat)

/-- A token that is moved with its run: no separator, no comment and no bracket that closes an empty
pair. -/
structure MovesAlong (P : Position) : Prop where
  separator : P.tokenClass.isSeparator = false
  comment : P.tokenClass ≠ .comment
  pair : P.previous.any (closesEmptyPair · P.token) = false

/-- The blanks in front of a token of a run that is moved by what it can spare. -/
theorem lookup_alignRun
    {signature : Nat} (heven : signature % 2 = 0)
    (hmoves : (alignRun signature progress run).wanted ≠ progress.wanted)
    (hnodup : (run.map (·.address)).Nodup) (hP : P ∈ run) (halong : MovesAlong P) :
    0 < spare run ∧ (alignRun signature progress run).wanted.lookup P.address =
      some (P.spaces - spare run).toNat := by
  unfold alignRun at hmoves ⊢
  split at hmoves
  · exact absurd rfl hmoves
  next hlong =>
    rw [if_neg (by omega)] at hmoves
    rw [if_neg hlong, if_neg (by omega)]
    unfold alignStarts moveRun at hmoves ⊢
    dsimp only at hmoves ⊢
    split at hmoves
    · exact absurd rfl hmoves
    next hfree =>
      rw [if_neg hfree]
      rw [not_or] at hfree
      refine ⟨Nat.pos_of_ne_zero hfree.1, ?_⟩
      refine lookup_map_append ((List.filter_sublist.map _).nodup hnodup) ?_ _
      simp [hP, halong.separator, halong.comment]

/-- Blanks in front of tokens with one start column are removed when their run is taken into
account. -/
def MovesStarts (lines : List Line) (ps run : List Position) : Prop :=
  ∃ before signature behind, steps lines ps = before ++ (signature, run) :: behind ∧
    signature % 2 = 0 ∧
    (alignRun signature (align {} before) run).wanted ≠ (align {} before).wanted

namespace MovesStarts

theorem mem_runs (h : MovesStarts lines ps run) :
    ∃ signature, signature % 2 = 0 ∧
      run ∈ runs lines (signature / 2) (ps.filter fun p => p.signatures.contains signature) := by
  obtain ⟨before, signature, behind, hsteps, heven, -⟩ := h
  have hmem : (signature, run) ∈ steps lines ps := by simp [hsteps]
  obtain ⟨s, -, hstep⟩ := List.mem_flatMap.mp hmem
  obtain ⟨run', hrun', heq⟩ := List.mem_map.mp hstep
  obtain ⟨rfl, rfl⟩ := Prod.mk.inj heq
  exact ⟨s, heven, hrun'⟩

theorem sublist (h : MovesStarts lines ps run) : run.Sublist ps := by
  obtain ⟨signature, -, hrun⟩ := h.mem_runs
  exact (List.sublist_flatten_of_mem hrun).trans
    ((flatten_runs_sublist _ _ _).trans List.filter_sublist)

/-- The tokens of a run that is moved start in one column. -/
theorem start_eq (h : MovesStarts lines ps run) {Q : Position} (hP : P ∈ run) (hQ : Q ∈ run) :
    P.start = Q.start := by
  obtain ⟨signature, heven, hrun⟩ := h.mem_runs
  have hstart : ∀ R ∈ run, signature = 2 * R.start := by
    intro R hR
    have hsign := (List.mem_filter.mp (subset_of_mem_runs hrun hR)).2
    simp only [List.contains_iff_mem, Position.signatures, List.mem_cons, List.mem_map,
      Option.mem_toList] at hsign
    rcases hsign with hsign | ⟨e, -, hsign⟩
    · exact hsign
    · omega
  have hfirst := hstart P hP
  have hsecond := hstart Q hQ
  omega

/-- What a run that is moved asks for is asked for in the end. -/
theorem lookup_alignAll
    (h : MovesStarts lines ps run) (hnodup : (ps.map (·.address)).Nodup)
    (hedges : EdgesBehind ps) (hP : P ∈ run) (halong : MovesAlong P) :
    0 < spare run ∧
      (alignAll lines ps).wanted.lookup P.address = some (P.spaces - spare run).toNat := by
  have hrun := (h.sublist.map (·.address)).nodup hnodup
  obtain ⟨before, signature, behind, hsteps, heven, hmoves⟩ := h
  obtain ⟨hspare, hlookup⟩ := lookup_alignRun heven hmoves hrun hP halong
  refine ⟨hspare, ?_⟩
  have hapart := @steps_apart lines ps hnodup hedges
  rw [hsteps] at hapart
  have hbehind := (List.pairwise_cons.mp (List.pairwise_append.mp hapart).2.1).1
  rw [alignAll_eq_align, hsteps, align, List.foldl_append, List.foldl_cons, ← hlookup]
  exact lookup_align_of_ne fun step hstep Q hQ => hbehind step hstep heven P hP Q hQ

/-- No entry for another token comes in front of what a run that is moved asks for. -/
theorem lookup_wantedAt
    (h : MovesStarts lines ps run) (hnodup : (ps.map (·.address)).Nodup)
    (hedges : EdgesBehind ps) (hP : P ∈ run) (halong : MovesAlong P) :
    0 < spare run ∧
      (wantedAt lines ps).lookup P.address = some (P.spaces - spare run).toNat := by
  obtain ⟨hspare, hlookup⟩ := h.lookup_alignAll hnodup hedges hP halong
  have hown : ∀ Q ∈ ps, Q.address = P.address → Q = P := fun Q hQ =>
    List.inj_on_of_nodup_map hnodup hQ (h.sublist.subset hP)
  refine ⟨hspare, ?_⟩
  have hpairs : (emptyPairs ps).lookup P.address = none := by
    rw [List.lookup_eq_none_iff]
    intro entry hentry
    obtain ⟨Q, hQ, rfl⟩ := List.mem_map.mp hentry
    simp only [List.mem_filter, Bool.and_eq_true] at hQ
    refine bne_iff_ne.mpr fun heq => ?_
    obtain rfl := hown Q hQ.1 heq.symm
    simp [halong.pair] at hQ
  have hcondensed : (condensed (alignAll lines ps) ps).lookup P.address = none := by
    rw [List.lookup_eq_none_iff]
    intro entry hentry
    obtain ⟨Q, hQ, rfl⟩ := List.mem_map.mp hentry
    simp only [List.mem_filter, Bool.and_eq_true] at hQ
    refine bne_iff_ne.mpr fun heq => ?_
    obtain rfl := hown Q hQ.1 heq.symm
    simp [hlookup] at hQ
  rw [wantedAt, List.lookup_append, List.lookup_append, hpairs, hcondensed]
  simpa using hlookup

end MovesStarts
end Alignment

/-! ## Moved tokens in print -/

open Rendering AbapLayout.Alignment

/-- A token with the given address stands behind another one on a line, and both are printed again
on the same line of another print. -/
def Reprinted (lines lines' : List Line) (a : Address) (p q p' q' : Placement) : Prop :=
  ∃ l l' i, (l, l') ∈ lines.zip lines' ∧ l.placements[i]? = some p ∧
    l.placements[i + 1]? = some q ∧ l'.placements[i]? = some p' ∧
    l'.placements[i + 1]? = some q' ∧ q.address = a

section

variable {o : Options} {statements : List Statement} {run : List Position} {P : Position}

theorem edgesBehind_positions (h : FromSource statements) :
    EdgesBehind (positions (looseLines o statements)) := by
  intro P hP e he
  obtain ⟨line, last, previous, l, hl, p, hp, rfl⟩ := Position.eq_ofPlacement_of_mem_ofLines hP
  obtain ⟨s, hs, row, hrow, ht⟩ := mem_rows_of_mem_placements h.colon hl hp
  obtain ⟨c, cs, htext, -⟩ := ((h s hs).2 row hrow p.token ht).solid.begins
  unfold Position.edge? at he
  split at he
  · simp only [Option.mem_def, Option.some.injEq] at he
    have hlength : 0 < p.token.text.length := by simp [htext]
    have htoken : (Position.ofPlacement line last previous p).token = p.token := rfl
    rw [htoken] at he
    omega
  split at he
  · simp only [Option.mem_def, Option.some.injEq] at he
    omega
  · simp at he

theorem TokenClass.isSeparator_of_punctuation {t : Token} (h : t.role = .punctuation) :
    (ofToken t).isSeparator = true := by
  rw [ofToken, if_neg (by simp [h]), if_pos h]
  split <;> rfl

/-- A token that is moved with its run keeps the blanks that the run cannot spare. -/
theorem column_of_movesStarts
    (h : FromSource statements)
    (hmoves : MovesStarts (looseLines o statements) (positions (looseLines o statements)) run)
    (hP : P ∈ run) (halong : MovesAlong P) {p q p' q' : Placement}
    (hreprinted : Reprinted (looseLines o statements) (Layout.lines o statements) P.address
      p q p' q') :
    P.start = q.column ∧ p'.endColumn < q'.column ∧
      q'.column + spare run + p.endColumn = q.column + p'.endColumn := by
  obtain ⟨l, l', i, hzip, hp, hq, hp', hq', haddress⟩ := hreprinted
  obtain ⟨hspare, hlookup⟩ :=
    hmoves.lookup_wantedAt (nodup_positions h) (edgesBehind_positions h) hP halong
  have hps : l.placements = (l.placements.take i ++ [p]) ++ q :: l.placements.drop (i + 2) := by
    rw [List.append_assoc]
    exact eq_take_append hp hq
  obtain ⟨number, last, hown⟩ := eq_ofPlacement h (List.of_mem_zip hzip).1 hps
    (hmoves.sublist.subset hP) haddress.symm
  rw [List.getLast?_concat] at hown
  obtain ⟨_, _, -, hpaired, -⟩ := (respaced_lines h).2 l l' hzip
  obtain ⟨n, n', hn, hn', hchoice⟩ := hpaired.spaced hp hq hp' hq'
  have hspaces : P.spaces = n := by
    rw [hown]
    exact Position.spaces_ofPlacement_some hn
  have hleast := least_le (List.mem_map_of_mem (f := fun Q : Position => (Q.spaces - 1).toNat) hP)
  rw [← spare, hspaces] at hleast
  rw [haddress.symm, hspaces] at hlookup
  have hstart : P.start = q.column := by rw [hown]; rfl
  rcases hchoice with ⟨-, -, hfinal⟩ | ⟨-, hjoins⟩
  · -- The entry of the table is more than the least number of blanks.
    have hleast' := Spacing.minimum_le_one o q.token (some p.token)
    dsimp only at hn hn' hfinal
    rw [show (wantedTable o statements).lookup q.address = _ from hlookup] at hfinal
    have hkept : n' = max (n - spare run) (Spacing.minimum o q.token (some p.token)) := by
      rw [hfinal, show ((n : Int) - spare run).toNat = n - spare run by omega]
      rfl
    rw [hstart]
    omega
  · -- Where lines are joined only separators have more than one blank in front of them.
    have hrole : q.token.role = .punctuation := hjoins.apart (by omega)
    have hseparator := TokenClass.isSeparator_of_punctuation hrole
    have hclass : P.tokenClass = TokenClass.ofToken q.token := by rw [hown]; rfl
    rw [← hclass, halong.separator] at hseparator
    exact absurd hseparator Bool.false_ne_true

/-- A token that is moved with its run stands behind another one in both prints. -/
theorem exists_reprinted
    (h : FromSource statements)
    (hmoves : MovesStarts (looseLines o statements) (positions (looseLines o statements)) run)
    (hP : P ∈ run) (halong : MovesAlong P) :
    ∃ p q p' q',
      Reprinted (looseLines o statements) (Layout.lines o statements) P.address p q p' q' := by
  have hmem := hmoves.sublist.subset hP
  obtain ⟨-, hlookup⟩ :=
    hmoves.lookup_wantedAt (nodup_positions h) (edgesBehind_positions h) hP halong
  obtain ⟨_, _, _, l, hl, q, hq, hown⟩ := Position.eq_ofPlacement_of_mem_ofLines hmem
  have haddress : P.address = q.address := by rw [hown]; rfl
  obtain ⟨before, after, hps⟩ := List.append_of_mem hq
  obtain ⟨-, -, p, hp, -⟩ := wantedTable_spec h hl hps (mem_of_lookup (haddress ▸ hlookup))
  obtain ⟨front, rfl⟩ := List.getLast?_eq_some_iff.mp hp
  obtain ⟨hlength, hrespaced⟩ := @respaced_lines o statements h
  obtain ⟨k, hk, rfl⟩ := List.getElem_of_mem hl
  have hzip : ((looseLines o statements)[k], (Layout.lines o statements)[k]) ∈
      (looseLines o statements).zip (Layout.lines o statements) := by
    rw [← @List.getElem_zip _ _ _ _ k (by simp; omega)]
    exact List.getElem_mem _
  obtain ⟨_, _, -, hpaired, -⟩ := hrespaced _ _ hzip
  have hcount := congrArg List.length hpaired.listed_eq
  simp only [List.length_map, hps, List.length_append, List.length_cons, List.length_nil] at hcount
  refine ⟨p, q, _, _, _, _, front.length, hzip, by simp [hps], by simp [hps],
    List.getElem?_eq_getElem (by omega), List.getElem?_eq_getElem (by omega), haddress.symm⟩

/-- What a run that is moved has become: each of its tokens has `spare` blanks less in front of it,
and two of them have one column exactly if the tokens in front of them are moved equally far. -/
structure Shifted (lines lines' : List Line) (run : List Position) : Prop where
  spaced : ∀ P ∈ run, MovesAlong P → ∃ p q p' q', Reprinted lines lines' P.address p q p' q' ∧
    P.start = q.column ∧ p'.endColumn < q'.column ∧
      q'.column + spare run + p.endColumn = q.column + p'.endColumn
  straight : ∀ P ∈ run, ∀ Q ∈ run, MovesAlong P → MovesAlong Q →
    ∀ p₁ q₁ p₁' q₁' p₂ q₂ p₂' q₂', Reprinted lines lines' P.address p₁ q₁ p₁' q₁' →
      Reprinted lines lines' Q.address p₂ q₂ p₂' q₂' →
      (q₁'.column = q₂'.column ↔
        (p₁.endColumn : Int) - p₁'.endColumn = p₂.endColumn - p₂'.endColumn)

theorem shifted_of_movesStarts
    (h : FromSource statements)
    (hmoves : MovesStarts (looseLines o statements) (positions (looseLines o statements)) run) :
    Shifted (looseLines o statements) (Layout.lines o statements) run where
  spaced P hP halong := by
    obtain ⟨p, q, p', q', hreprinted⟩ := exists_reprinted h hmoves hP halong
    exact ⟨p, q, p', q', hreprinted, column_of_movesStarts h hmoves hP halong hreprinted⟩
  straight P hP Q hQ halong halong' p₁ q₁ p₁' q₁' p₂ q₂ p₂' q₂' hfirst hsecond := by
    obtain ⟨hstart₁, -, hcolumn₁⟩ := column_of_movesStarts h hmoves hP halong hfirst
    obtain ⟨hstart₂, -, hcolumn₂⟩ := column_of_movesStarts h hmoves hQ halong' hsecond
    have hstart := hmoves.start_eq hP hQ
    omega

end

/-- A source that is formatted and not passed through is printed with its runs moved. -/
theorem format_movesRuns
    {o : Options} {source : Text} {filename : Option String} {f : Formatted}
    (h : Layout.format o source filename = .ok f) (hrejection : f.rejection = none) :
    ∃ raws statements, Source.split source filename = .ok raws ∧
      Layout.arrange raws = .ok statements ∧ f.text = Layout.print o statements ∧
      ∀ run,
        MovesStarts (looseLines o statements) (positions (looseLines o statements)) run →
          Shifted (looseLines o statements) (Layout.lines o statements) run := by
  obtain ⟨raws, statements, hsplit, harrange, rfl⟩ := Layout.format_eq_ok h hrejection
  exact ⟨raws, statements, hsplit, harrange, rfl, fun run hmoves =>
    shifted_of_movesStarts (Layout.fromSource_of_split hsplit harrange) hmoves⟩

/-- The case of three operators behind texts that are moved differently far. -/
theorem format_movesRuns_jagged :
    ∃ raws statements,
      Source.split "a  b      = 1.\naa    bb  = 2.\naaa  b    = 3.".toList none = .ok raws ∧
      Layout.arrange raws = .ok statements ∧
      "a b     = 1.\naa bb = 2.\naaa b   = 3.\n".toList = Layout.print .default statements ∧
      ∀ run,
        MovesStarts (looseLines .default statements) (positions (looseLines .default statements))
            run →
          Shifted (looseLines .default statements) (Layout.lines .default statements) run :=
  format_movesRuns
    (f := { text := "a b     = 1.\naa bb = 2.\naaa b   = 3.\n".toList })
    (eq_ok_of_toOption (by decide +kernel)) rfl

end AbapLayout
