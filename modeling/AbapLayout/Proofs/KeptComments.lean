import AbapLayout.Proofs.CarriedComments
import Mathlib.Data.List.DropRight

/-!
# Comments that are kept as they are

Moving brackets up may bring a comment behind a statement that has one already, and then puts the two
into one.  Pseudo comments and full-line comments are never put into another comment, and no two other
comments make one of these: the statements that are ready to be printed carry the pseudo comments and
full-line comments of the source as they are written, each once (`Layout.arrange_keptComments`).
-/

namespace AbapLayout

/-- Whether a comment text is never put into another comment. -/
def Comment.isKeptText (value : Text) : Bool :=
  isPseudoText value || isStarText value

/-- The pseudo comments and full-line comments among some comments. -/
def keptMarks (marks : List (Text × Span)) : List (Text × Span) :=
  marks.filter fun mark => Comment.isKeptText mark.1

@[simp] theorem keptMarks_append (marks more : List (Text × Span)) :
    keptMarks (marks ++ more) = keptMarks marks ++ keptMarks more :=
  List.filter_append marks more

theorem keptMarks_perm {marks more : List (Text × Span)} (h : marks.Perm more) :
    (keptMarks marks).Perm (keptMarks more) :=
  h.filter _

/-- A signed comment that is no pseudo comment does not count. -/
theorem keptMarks_of_not_pseudo
    {c : Comment} (hc : c.IsSigned) (h : c.isPseudo = false) :
    keptMarks [c.mark] = [] := by
  have hno : Comment.isPseudoText c.value = false := h
  simp [keptMarks, Comment.isKeptText, Comment.mark, hno, hc.isStarText]

/-! ## The sign and what follows it -/

namespace Text

/-- The first character of a trimmed text is the first that is not blank. -/
theorem head?_trimLeft (t : Text) : (trimLeft t).head? = t.find? fun c => !isBlank c := by
  induction t with
  | nil => rfl
  | cons c cs ih =>
      cases hc : isBlank c with
      | true =>
          rw [List.find?_cons_of_neg (by simp [hc]), ← ih, trimLeft,
            List.dropWhile_cons_of_pos hc, trimLeft]
      | false =>
          rw [List.find?_cons_of_pos (by simp [hc]), trimLeft_cons hc]
          rfl

theorem head?_trimLeft_append (s t : Text) :
    (trimLeft (s ++ t)).head? = (trimLeft s).head?.or (trimLeft t).head? := by
  simp only [head?_trimLeft, List.find?_append]

theorem head?_trimLeft_trimRight (t : Text) :
    (trimLeft (trimRight t)).head? = (trimLeft t).head? := by
  obtain ⟨s, hs, hblank⟩ := eq_trimRight_append t
  have hnone : (trimLeft s).head? = none := by
    rw [head?_trimLeft, List.find?_eq_none]
    simpa using hblank
  calc (trimLeft (trimRight t)).head?
      = ((trimLeft (trimRight t)).head?).or (trimLeft s).head? := by simp [hnone]
    _ = (trimLeft t).head? := by rw [← head?_trimLeft_append, ← hs]

theorem head?_trimLeft_trim (t : Text) : (trimLeft (trim t)).head? = (trimLeft t).head? := by
  rw [trim, head?_trimLeft_trimRight, trimLeft, trimLeft, List.dropWhile_idempotent]

end Text

namespace Comment

theorem isPseudoText_sign (text : Text) :
    isPseudoText (sign :: text) = ((Text.trimLeft text).head? == some '#') := by
  unfold isPseudoText
  rw [Text.trimLeft_cons (by decide)]
  simp

/-- A signed comment is a pseudo comment if its text without the sign begins with a number sign. -/
theorem IsSigned.isPseudo_eq {c : Comment} (h : c.IsSigned) :
    c.isPseudo = ((Text.trimLeft c.body).head? == some '#') := by
  obtain ⟨text, -, hvalue⟩ := h
  have htrim : Text.trim (sign :: text) = sign :: Text.trimRight text := by
    rw [Text.trim, Text.trimLeft_cons (by decide), Text.trimRight]
    cases Text.trimRight text <;> rfl
  have hbody : c.body = Text.trim (Text.trimRight text) := by
    simp [body, hvalue, htrim]
  rw [isPseudo, hvalue, isPseudoText_sign, hbody, Text.head?_trimLeft_trim,
    Text.head?_trimLeft_trimRight]

end Comment

/-! ## Moving brackets up -/

namespace Bracket

/-- A body with other cells for the same tokens carries the same comments. -/
theorem comments_withCells
    {b : Body} {cells : List Cell} (h : cells.map (·.token) = b.cells.map (·.token)) :
    (b.withCells cells).comments = b.comments := by
  cases b with
  | plain own => exact congrArg commentMarks h
  | chain c =>
      have hentries : (Entry.deal cells c.entries).map Entry.comments =
          c.entries.map Entry.comments := by
        refine Entry.map_deal ?_ h
        intro cells own trailing htokens
        rw [Entry.comments, Entry.comments, htokens]
      rw [Body.withCells, Body.comments, Body.comments, List.flatMap_def, List.flatMap_def, hentries]

theorem comments_sweepStatement (s : Statement) : (sweepStatement s).comments = s.comments := by
  rw [Statement.comments, Statement.comments]
  congr 2
  exact comments_withCells (map_token_sweep s.cells)

theorem comments_forcePeriodLine (s : Statement) :
    (forcePeriodLine s).comments = s.comments := by
  rw [Statement.comments, Statement.comments]
  congr 2
  refine comments_withCells ?_
  rw [List.map_reverse, map_token_breakBeforePeriod, List.map_reverse, List.reverse_reverse]
  rfl

end Bracket

/-! ## Taking over comments -/

@[simp] theorem Statement.post_setTrailing (s : Statement) (comment : Option Comment) :
    (s.setTrailing comment).post = s.post := by
  unfold setTrailing
  repeat' split
  all_goals rfl

theorem Statement.touched_setTrailing (s : Statement) (comment : Option Comment) :
    (s.setTrailing comment).touched = s.touched := by
  unfold setTrailing
  repeat' split
  all_goals rfl

theorem Statement.body_setTrailing_eq_plain_iff
    (s : Statement) (comment : Option Comment) (cells : List Cell) :
    (s.setTrailing comment).body = .plain cells ↔ s.body = .plain cells := by
  unfold setTrailing
  split
  · rfl
  next c hbody =>
    split
    · simp [hbody]
    · rfl

namespace Bracket

/-- Two comments in one are no pseudo comment if neither of them is one. -/
theorem isPseudo_mergeComments
    {existing : Option Comment} {incoming : Comment} (hincoming : incoming.IsSigned)
    (hexisting : ∀ c, existing = some c → c.IsSigned)
    (h : (incoming.isPseudo || existing.any Comment.isPseudo) = false) :
    (mergeComments existing incoming).isPseudo = false := by
  have hblank (text : Text) : Text.trimLeft (' ' :: text) = Text.trimLeft text :=
    Text.trimLeft_blanks_append 1 text
  rw [Bool.or_eq_false_iff] at h
  cases existing with
  | none =>
      have hno := h.1
      rw [hincoming.isPseudo_eq] at hno
      simpa [mergeComments, Comment.isPseudo, Comment.isPseudoText_sign, hblank] using hno
  | some c =>
      have hno : c.isPseudo = false := by simpa using h.2
      rw [(hexisting c rfl).isPseudo_eq, beq_eq_false_iff_ne] at hno
      simp only [mergeComments, Comment.isPseudo, Comment.isPseudoText_sign, hblank,
        List.append_assoc, Text.head?_trimLeft_append, beq_eq_false_iff_ne]
      cases hhead : (Text.trimLeft c.body).head? with
      | none => simp [Text.trimLeft_cons (c := ';') (by decide)]
      | some first =>
          rw [hhead] at hno
          simpa using hno

/-- A statement that has not taken over a comment. -/
structure Unmerged (s : Statement) : Prop where
  sound : s.Sound
  post : s.post = none
  /-- Brackets move up in code only. -/
  touched : s.touched = true → s.body ≠ .plain []

theorem Unmerged.isSigned
    {s : Statement} (h : Unmerged s) (htouched : s.touched = true) {c : Comment}
    (hc : s.trailing? = some c) :
    c.IsSigned := by
  rcases h.sound.isSigned_or_alone hc with hsigned | ⟨halone, -⟩
  · exact hsigned
  · exact absurd halone (h.touched htouched)

theorem unmerged_sweepStatement
    {s : Statement} (h : s.Sound) (hpost : s.post = none) :
    Unmerged (sweepStatement s) where
  sound := sound_sweepStatement h
  post := hpost
  touched := by
    intro htouched halone
    have hcells : s.cells = [] := by
      cases hbody : s.body with
      | chain c => simp [sweepStatement, hbody, Body.withCells] at halone
      | plain own =>
          have hnil : sweep s.cells = [] := by
            simpa [sweepStatement, hbody, Body.withCells] using halone
          simpa [hnil] using map_token_sweep s.cells
    simp [sweepStatement, hcells, moves] at htouched

/-- A statement whose comment has moved away. -/
theorem Unmerged.setTrailing
    {s : Statement} (h : Unmerged s) :
    Unmerged (s.setTrailing none) where
  sound := h.sound.setTrailing (by simp)
  post := by rw [s.post_setTrailing, h.post]
  touched := by
    rw [s.touched_setTrailing, Ne, s.body_setTrailing_eq_plain_iff]
    exact h.touched

/-- A statement that takes over a comment carries the kept comments it had, and the one taken over
if it is kept. -/
theorem keptMarks_receive
    {s : Statement} {incoming : Comment} (h : Unmerged s) (htouched : s.touched = true)
    (hincoming : incoming.IsSigned) :
    (keptMarks (receive s incoming).comments).Perm
      (keptMarks (s.comments ++ [incoming.mark])) := by
  unfold receive
  dsimp only
  split
  next hpseudo =>
    rw [comments_forcePeriodLine]
    simp [Statement.comments, h.post]
  next hneither =>
    have hno := Bool.eq_false_iff.mpr hneither
    have hmerged := isPseudo_mergeComments hincoming (fun c => h.isSigned htouched) hno
    have hswap := keptMarks_perm
      (s.comments_setTrailing (some (mergeComments s.trailing? incoming)))
    rw [Bool.or_eq_false_iff] at hno
    have hold : keptMarks (s.trailing?.toList.map Comment.mark) = [] := by
      cases hexisting : s.trailing? with
      | none => rfl
      | some c =>
          exact keptMarks_of_not_pseudo (h.isSigned htouched hexisting)
            (by simpa [hexisting] using hno.2)
    have hnew := keptMarks_of_not_pseudo
      (isSigned_mergeComments (.inl hincoming) fun c hc => .inl (h.isSigned htouched hc)) hmerged
    simpa [hold, hnew, keptMarks_of_not_pseudo hincoming hno.1] using hswap

/-- The statement in front must have been touched for a comment to move to it. -/
theorem touched_of_incoming?
    {s next : Statement} {c : Comment} (hc : incoming? s next = some c) :
    s.touched = true ∧ next.trailing? = some c := by
  unfold incoming? at hc
  split at hc
  next comment span htrailing _ =>
    split at hc
    next hmoves =>
      injection hc with hc
      exact ⟨hmoves.1, hc ▸ htrailing⟩
    next => simp at hc
  next => simp at hc

theorem keptMarks_mergeFrom
    {s : Statement} {rest : List Statement} (hs : Unmerged s) (hrest : ∀ t ∈ rest, Unmerged t) :
    (keptMarks ((mergeFrom s rest).flatMap Statement.comments)).Perm
      (keptMarks ((s :: rest).flatMap Statement.comments)) := by
  induction rest generalizing s with
  | nil => exact .refl _
  | cons next rest ih =>
      have hnext := hrest next (by simp)
      have hlater : ∀ t ∈ rest, Unmerged t := fun t ht => hrest t (by simp [ht])
      rw [mergeFrom]
      split
      next comment hincoming =>
        obtain ⟨htouched, htrailing⟩ := touched_of_incoming? hincoming
        have hreceived := keptMarks_receive hs htouched
          (isSigned_of_incoming? hnext.sound hincoming)
        have hmore := ih hnext.setTrailing hlater
        have hswap := keptMarks_perm (next.comments_setTrailing none)
        rw [htrailing] at hswap
        rw [List.perm_iff_count] at hreceived hmore hswap ⊢
        intro mark
        have hreceived := hreceived mark
        have hmore := hmore mark
        have hswap := hswap mark
        simp only [List.flatMap_cons, keptMarks_append, List.count_append, Option.toList_some,
          List.map_cons, List.map_nil, Option.toList_none, List.append_nil] at *
        omega
      next =>
        rw [List.flatMap_cons, List.flatMap_cons, keptMarks_append, keptMarks_append]
        exact (ih hnext hlater).append_left _

/-- Moving brackets up and merging comments changes no comment that is kept. -/
theorem keptMarks_reposition
    {statements : List Statement} (hsound : ∀ s ∈ statements, s.Sound)
    (hpost : ∀ s ∈ statements, s.post = none) :
    (keptMarks ((reposition statements).flatMap Statement.comments)).Perm
      (keptMarks (statements.flatMap Statement.comments)) := by
  cases statements with
  | nil => exact .refl _
  | cons s rest =>
      have hswept : ∀ t ∈ (s :: rest).map sweepStatement, Unmerged t :=
        List.forall_mem_map.mpr fun t ht => unmerged_sweepStatement (hsound t ht) (hpost t ht)
      rw [List.map_cons, List.forall_mem_cons] at hswept
      have hmerged := keptMarks_mergeFrom hswept.1 hswept.2
      rw [← List.map_cons, List.flatMap_map] at hmerged
      simp only [comments_sweepStatement] at hmerged
      exact hmerged

end Bracket

/-! ## Sources -/

namespace Assembly

theorem post_ofChain
    {index : Nat} {first : RawStatement} {rest : List RawStatement} {s : Statement}
    (h : ofChain index first rest = .ok s) :
    s.post = none := by
  unfold ofChain at h
  split at h
  · injection h with h
    rw [← h]
    rfl
  · simp at h
  · split at h
    · simp at h
    · obtain ⟨draft, -, rfl⟩ := map_eq_ok_iff.mp h
      rfl

/-- Statements put together from raw statements have taken over no comment yet. -/
theorem post_assemble
    {raws : List RawStatement} {statements : List Statement} (hgrouped : Grouped none raws)
    (h : assemble raws = .ok statements) :
    ∀ s ∈ statements, s.post = none := by
  refine forall_assemble hgrouped ?_ ?_ ?_ ?_ h
  · exact fun _ _ _ _ _ _ _ _ hs => post_ofChain hs
  · exact fun _ _ _ _ _ => rfl
  · exact fun _ _ _ _ _ => rfl
  · exact fun s _ _ hs _ _ => (s.post_setTrailing _).trans hs

end Assembly

/-- The pseudo comments and full-line comments of a source are carried by its arranged statements as
they are written, each once, but for those among the words that the members of a chain share. -/
theorem Layout.arrange_keptComments
    {source : Text} {filename : Option String} {raws : List RawStatement}
    {statements : List Statement} (hsplit : Source.split source filename = .ok raws)
    (h : arrange raws = .ok statements) :
    ∃ ts, Source.tokens source = .ok ts ∧
      (keptMarks (commentMarks (RawStatement.openings [] raws) ++
        statements.flatMap Statement.comments)).Perm (keptMarks (commentMarks ts)) := by
  obtain ⟨assembled, hassembled, rfl⟩ := map_eq_ok_iff.mp h
  obtain ⟨ts, hts, hcarried⟩ := assemble_comments hsplit hassembled
  have hraws := Source.statements_of_split hts hsplit
  have hlexed := Source.lexed_of_mem_tokens hts
  have hgrouped := (Unfinished.run_of_statements hlexed hraws).grouped (.inl rfl)
  have hsound := sound_assemble hgrouped
    (sound_of_statements hlexed (stands_of_tokenizeLines hts).2 hraws) hassembled
  have hmoved := Bracket.keptMarks_reposition (sound_assignLevels hsound (levels raws))
    (List.forall_mem_map.mpr fun s hs => Assembly.post_assemble hgrouped hassembled s hs)
  have hleveled : (assignLevels (levels raws) assembled).flatMap Statement.comments =
      assembled.flatMap Statement.comments := by
    rw [assignLevels, List.flatMap_map]
    rfl
  rw [hleveled] at hmoved
  refine ⟨ts, hts, .trans ?_ (keptMarks_perm hcarried)⟩
  rw [keptMarks_append, keptMarks_append]
  exact hmoved.append_left _

end AbapLayout
