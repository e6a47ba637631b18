import AbapLayout.Proofs.Compression

/-!
# Neighbours on printed lines

Two tokens next to each other on a printed line touch only if the spacing rules let them
(`mayTouch_render`), and behind a pragma stand pragmas and the terminator of its statement or member
only (`yieldsTo_render`).  So what stands behind a printed token is what `Token.Behind` allows
(`Spread.behind`).
-/

namespace AbapLayout

open Rendering

/-! ## Tokens that touch -/

/-- Tokens that two prints put next to each other without a blank may touch. -/
theorem mayTouch_of_spaced
    {o : Options} {ahead : Address → Option Token} {wanted wanted' : WantedBlanks}
    {z w : Placement × Placement} (h : Spaced o ahead wanted wanted' z w)
    (htouch : w.1.column = z.1.endColumn) :
    z.1.token.MayTouch w.1.token := by
  obtain ⟨n, n', hn, -, hchoice⟩ := h
  have hzero : n = 0 := by omega
  rcases hchoice with ⟨-, hprinted, -⟩ | ⟨-, hjoint⟩
  · exact Token.mayTouch_of_printed_eq_zero (hprinted.symm.trans hzero)
  · rcases hjoint.touching hzero with hrole | hrole
    · exact .inl hrole
    · exact .inr (.inr (.inr (.inl hrole)))

/-- On every printed line tokens that touch may do so. -/
theorem mayTouch_render
    (o : Options) (wanted : WantedBlanks) {statements : List Statement}
    (h : FromSource statements) :
    ∀ l ∈ render o wanted statements,
      l.placements.IsChain fun p q => q.column = p.endColumn → p.token.MayTouch q.token := by
  have hregular : ∀ s ∈ statements, ∀ row ∈ s.rows, ∀ t ∈ row, IsRegular o t :=
    fun s hs row hrow t ht => ((h s hs).2 row hrow t ht).isRegular o
  have hrespaced := respaced_render wanted wanted (fun s hs => (h s hs).1)
    (fun i s hs => regular_rows hregular hs) hregular
  rw [List.forall₂_same] at hrespaced
  intro l hl
  obtain ⟨i, s, -, ⟨zs, hfst, -, -, hchain⟩, -⟩ :=
    hrespaced l.placements (List.mem_map_of_mem hl)
  rw [hfst, List.isChain_map]
  exact hchain.imp fun z w hspaced => mayTouch_of_spaced hspaced

/-! ## Pragmas -/

/-- Tokens among which pragmas stand in front of pragmas and terminators only, and not at the end. -/
structure PragmasInPlace (ts : List Token) : Prop where
  chain : ts.IsChain Token.YieldsTo
  last : ∀ t ∈ ts.getLast?, t.isPragma = false

namespace PragmasInPlace

theorem of_forall {ts : List Token} (h : ∀ t ∈ ts, t.isPragma = false) : PragmasInPlace ts := by
  constructor
  · refine (List.pairwise_of_forall_mem_list fun t ht u _ hpragma => ?_).isChain
    simp [h t ht] at hpragma
  · exact fun t ht => h t (List.mem_of_getLast? ht)

theorem append
    {ts us : List Token} (h : PragmasInPlace ts) (h' : PragmasInPlace us) :
    PragmasInPlace (ts ++ us) := by
  constructor
  · refine h.chain.append h'.chain fun t ht u _ hpragma => ?_
    simp [h.last t ht] at hpragma
  · intro t ht
    rw [List.getLast?_append, Option.mem_def, Option.or_eq_some_iff] at ht
    rcases ht with ht | ⟨-, ht⟩
    · exact h'.last t ht
    · exact h.last t ht

/-- Pragmas in front of a terminator. -/
theorem of_terminator
    {pragmas : List Token} {terminator : Token} (hpragmas : ∀ t ∈ pragmas, t.isPragma = true)
    (hterminator : terminator.role = .punctuation) :
    PragmasInPlace (pragmas ++ [terminator]) := by
  constructor
  · refine (List.pairwise_append.mpr ⟨?_, List.pairwise_singleton _ _, ?_⟩).isChain
    · exact List.pairwise_of_forall_mem_list fun t _ u hu _ => .inl (hpragmas u hu)
    · intro t _ u hu _
      rw [List.mem_singleton.mp hu]
      exact .inr hterminator
  · intro t ht
    rw [List.getLast?_concat, Option.mem_def, Option.some.injEq] at ht
    simp [← ht, Token.isPragma, hterminator]

end PragmasInPlace

namespace RawStatement

/-- In the row of a statement or member the pragmas stand in front of its terminator. -/
theorem pragmasInPlace_row
    {r : RawStatement} (hapart : r.PragmasApart) {init : List Token} {terminator : Token}
    (hrow : r.row = init ++ r.pragmas ++ [terminator])
    (hterminator : terminator.isTerminator = true) (hinit : ∀ t ∈ init, t.isPragma = false) :
    PragmasInPlace r.row := by
  have hrole : terminator.role = .punctuation := by
    rw [Token.isTerminator, Bool.and_eq_true, beq_iff_eq] at hterminator
    exact hterminator.1
  rw [hrow, List.append_assoc]
  exact (PragmasInPlace.of_forall hinit).append (.of_terminator hapart.2 hrole)

theorem pragmasInPlace_openingRows
    {r : RawStatement} (hapart : r.PragmasApart) :
    PragmasInPlace r.opening.rows.flatten := by
  refine .of_forall fun t ht => ?_
  have hnone := List.filter_eq_nil_iff.mp (filter_isPragma_openingRows hapart) t ht
  simpa using hnone

/-- What a statement or member that is no comment has at the end of its row. -/
def EndsInTerminator (r : RawStatement) : Prop :=
  ∃ init terminator, r.row = init ++ r.pragmas ++ [terminator] ∧
    terminator.isTerminator = true ∧ ∀ t ∈ init, t.isPragma = false

/-- In the rows of a source pragmas stand in front of terminators, and the last token of all is a
terminator. -/
theorem pragmasInPlace_rows
    {raws : List RawStatement} (goesOn : Bool) (hapart : ∀ r ∈ raws, r.PragmasApart)
    (hends : ∀ r ∈ raws, r.kind ≠ .comment → r.EndsInTerminator) :
    PragmasInPlace (rows goesOn raws).flatten ∧
      ∀ t ∈ (rows goesOn raws).flatten.getLast?, t.isTerminator = true := by
  induction raws generalizing goesOn with
  | nil => exact ⟨.of_forall (by simp [rows]), by simp [rows]⟩
  | cons r rest ih =>
      have hrest := fun goesOn => ih goesOn (fun s hs => hapart s (by simp [hs]))
        (fun s hs => hends s (by simp [hs]))
      rw [rows]
      split
      · exact hrest goesOn
      next hkind =>
        obtain ⟨init, terminator, hrow, hterminator, hinit⟩ := hends r (by simp) hkind
        obtain ⟨hplaced, hlast⟩ := hrest (r.colon?.isSome && !Assembly.endsInPeriod r)
        have hown := pragmasInPlace_row (hapart r (by simp)) hrow hterminator hinit
        have hopening : PragmasInPlace (if goesOn then [] else r.opening.rows).flatten := by
          split
          · exact .of_forall (by simp)
          · exact pragmasInPlace_openingRows (hapart r (by simp))
        rw [List.flatten_append, List.flatten_cons]
        refine ⟨hopening.append (hown.append hplaced), fun t ht => ?_⟩
        rw [hrow, List.getLast?_append, List.getLast?_append, List.getLast?_concat,
          Option.mem_def, Option.or_eq_some_iff, Option.or_eq_some_iff] at ht
        rcases ht with (ht | ⟨-, ht⟩) | ⟨hnone, -⟩
        · exact hlast t ht
        · exact (Option.some.inj ht) ▸ hterminator
        · simp at hnone

end RawStatement

/-- The printed tokens are those of the rows of the statements. -/
theorem map_token_render
    (o : Options) (wanted : WantedBlanks) {statements : List Statement}
    (h : FromSource statements) :
    ((render o wanted statements).flatMap (·.placements)).map (·.token) =
      (statements.flatMap Statement.rows).flatten := by
  rw [← map_snd_addressedStatements 0 statements, ← List.map_flatten,
    ← map_placements_render o wanted h.colon, List.map_map]
  rfl

/-- On every printed line of a source a pragma stands in front of a pragma or terminator, or ends the
line. -/
theorem yieldsTo_render
    (o : Options) (wanted : WantedBlanks) {statements : List Statement}
    (h : FromSource statements)
    (hplaced : PragmasInPlace (statements.flatMap Statement.rows).flatten) :
    ∀ l ∈ render o wanted statements,
      l.placements.IsChain fun p q => p.token.YieldsTo q.token := by
  have hchain := hplaced.chain
  rw [← map_token_render o wanted h, List.isChain_map] at hchain
  intro l hl
  exact hchain.infix (List.infix_of_mem_flatten (List.mem_map_of_mem hl))

/-! ## What stands behind a token -/

/-- Tokens of a source next to one another on a printed line. -/
structure InPrint (o : Options) (ts : List Token) (ps : List Placement) : Prop where
  mem : ∀ p ∈ ps, p.token ∈ ts
  text : ∀ p ∈ ps, ∃ previous before, p.printed = tokenText o p.token previous before
  touch : ps.IsChain fun p q => q.column = p.endColumn → p.token.MayTouch q.token
  yields : ps.IsChain fun p q => p.token.YieldsTo q.token
  last : ∀ p ∈ ps.dropLast, p.token.isComment = false

/-- Tokens of a source next to one another on a printed line, none of which is a full-line
comment. -/
structure OnCodeLine (o : Options) (ts : List Token) (ps : List Placement) : Prop
    extends InPrint o ts ps where
  star : ∀ p ∈ ps, p.token.isStarComment = false

/-- What may follow the tokens of a printed line: nothing, blanks or a comment. -/
def Text.FollowsTokens (t : Text) : Prop :=
  ∀ c, t.head? = some c → c = ' ' ∨ c = Comment.sign

section

variable {o : Options} {ts : List Token} {p : Placement} {ps : List Placement}

theorem InPrint.tail (h : InPrint o ts (p :: ps)) : InPrint o ts ps where
  mem q hq := h.mem q (List.mem_cons_of_mem p hq)
  text q hq := h.text q (List.mem_cons_of_mem p hq)
  touch := h.touch.tail
  yields := h.yields.tail
  last q hq := by
    cases ps with
    | nil => simp at hq
    | cons r rest => exact h.last q (by simp [hq])

theorem OnCodeLine.tail (h : OnCodeLine o ts (p :: ps)) : OnCodeLine o ts ps where
  toInPrint := h.toInPrint.tail
  star q hq := h.star q (List.mem_cons_of_mem p hq)

theorem InPrint.eq_nil_of_isComment
    (h : InPrint o ts (p :: ps)) (hcomment : p.token.isComment = true) :
    ps = [] := by
  cases ps with
  | nil => rfl
  | cons q rest =>
      have hcode := h.last p (by simp)
      simp [hcomment] at hcode

/-- Behind a token stand the tokens of the rest of its line, with what follows them. -/
theorem Spread.behind
    {column : Nat} {body tail : Text} {t : Token} (h : Spread column ps body)
    (hprint : OnCodeLine o ts ps) (htail : tail.FollowsTokens)
    (hfirst : ∀ q ∈ ps.head?, q.column = column → t.MayTouch q.token ∧ t.YieldsTo q.token) :
    t.Behind o ts (body ++ tail) := by
  induction h generalizing t with
  | nil column =>
      rw [List.nil_append]
      cases tail with
      | nil => exact .nothing t
      | cons c cs =>
          rcases htail c rfl with rfl | rfl
          · exact .blank t cs
          · exact .sign t cs
  | @cons column n p ps body hcolumn _ _ ih =>
      cases n with
      | succ n => exact .blank t _
      | zero =>
          obtain ⟨hmay, hyields⟩ := hfirst p (by simp) hcolumn
          obtain ⟨previous, before, htext⟩ := hprint.text p (by simp)
          have hrest : p.token.Behind o ts (body ++ tail) := by
            apply ih hprint.tail
            intro q hq htouch
            exact ⟨hprint.touch.rel_head? hq htouch, hprint.yields.rel_head? hq⟩
          rw [Text.blanks_zero, List.nil_append, List.append_assoc, htext]
          exact .joined previous before hmay hyields (hprint.mem p (by simp))
            (hprint.star p (by simp)) hrest

end

end AbapLayout
