import AbapLayout.Proofs.FullLines
import AbapLayout.Proofs.KeptComments
import AbapLayout.Proofs.Neighbours
import AbapLayout.Proofs.TokenOrder

/-!
# Full-line comments of a source

A source line that begins with an asterisk is a comment as a whole, and no token of another line is
such a comment.  So a line ends in front of it wherever it stands among the tokens of a statement, and
no comment is put behind it; moving brackets up leaves this as it is.  A source is printed with its
full-line comments on lines of their own, if in chains they stand between the members
(`Layout.print_fullLines`).
-/

namespace AbapLayout

open Text Rendering

/-! ## Lines that begin with an asterisk -/

/-- Whether a line is a full-line comment, where the first of the lines has the given number. -/
def isFullLineAt (first : Nat) (lines : List Text) (line : Nat) : Bool :=
  Comment.isStarText (lines.getD (line - first) [])

theorem Token.IsUnit.isStarComment_eq_false {t : Token} (h : t.IsUnit) :
    t.isStarComment = false := by
  obtain ⟨c, cs, rest, htext, -, hmeasure⟩ := h
  refine Bool.eq_false_iff.mpr fun hstar => ?_
  simp only [Token.isStarComment, Token.isComment, htext, List.head?_cons, Bool.and_eq_true,
    beq_iff_eq, Option.some.injEq] at hstar
  rw [hstar.1, hstar.2] at hmeasure
  exact absurd (Lexeme.measure_comment hmeasure).1 (by decide)

/-- A line that begins with an asterisk is one token, and other lines have no such tokens. -/
theorem fullLine_of_tokenize
    {line : Nat} {t : Text} {ts : List Token} (h : tokenize line t = .ok ts) :
    (∀ u ∈ ts, u.isStarComment = Comment.isStarText t) ∧
      (ts.filter Token.isStarComment).map (fun u => trimRight u.text) =
        ([t].filter Comment.isStarText).map trimRight := by
  unfold tokenize at h
  split at h
  next cs =>
    injection h with h
    have hhead := head?_trimRight (c := '*') (by decide) cs
    have hstar : (Token.onLine .comment (trimRight ('*' :: cs)) line 0).isStarComment = true := by
      simp [Token.isStarComment, Token.isComment, Token.onLine, hhead]
    have htext : Comment.isStarText ('*' :: cs) = true := rfl
    rw [← h]
    constructor
    · simp [hstar, htext]
    · rw [List.filter_cons_of_pos hstar, List.filter_cons_of_pos htext]
      simp [Token.onLine, trimRight_trimRight]
  next hother =>
    have htext : Comment.isStarText t = false := by
      cases t with
      | nil => rfl
      | cons c cs =>
          have hne : c ≠ '*' := fun heq => hother cs (by rw [heq])
          simpa [Comment.isStarText] using hne
    have hnone : ∀ u ∈ ts, u.isStarComment = false :=
      fun u hu => ((cut_of_tokenizeFrom h).isUnit u hu).isStarComment_eq_false
    refine ⟨fun u hu => (hnone u hu).trans htext.symm, ?_⟩
    rw [List.filter_eq_nil_iff.mpr fun u hu => by simp [hnone u hu]]
    simp [htext]

/-- The full-line comments among the tokens of some lines are the lines that begin with an asterisk,
without trailing blanks. -/
theorem fullLines_of_tokenizeLines
    {first : Nat} {lines : List Text} {ts : List Token} (h : tokenizeLines first lines = .ok ts) :
    (∀ u ∈ ts, u.isStarComment = isFullLineAt first lines u.span.startLine) ∧
      (ts.filter Token.isStarComment).map (fun u => trimRight u.text) =
        (lines.filter Comment.isStarText).map trimRight := by
  induction lines generalizing first ts with
  | nil =>
      injection h with h
      simp [← h]
  | cons t rest ih =>
      rw [tokenizeLines] at h
      split at h
      · simp at h
      next tokens htokens =>
        obtain ⟨more, hmore, rfl⟩ := map_eq_ok_iff.mp h
        obtain ⟨hhere, htexts⟩ := fullLine_of_tokenize htokens
        obtain ⟨hbelow, htexts'⟩ := ih hmore
        constructor
        · intro u hu
          rcases List.mem_append.mp hu with hu | hu
          · rw [isFullLineAt, ((stands_of_tokenize htokens).1 u hu).1, Nat.sub_self]
            exact hhere u hu
          · have hline := ((stands_of_tokenizeLines hmore).1 u hu).1
            rw [hbelow u hu, isFullLineAt, isFullLineAt,
              show u.span.startLine - first = u.span.startLine - (first + 1) + 1 by omega,
              List.getD_cons_succ]
        · rw [List.filter_append, List.map_append, htexts, htexts', ← List.map_append,
            ← List.filter_append, List.singleton_append]

/-- Where a full-line comment comes behind a token, the line ends between them. -/
def Token.EndsAbove (t u : Token) : Prop :=
  u.isStarComment = true → t.span.endLine < u.span.startLine

/-- Tokens end above the full-line comments behind them. -/
theorem endsAbove_of_tokenizeLines
    {first : Nat} {lines : List Text} {ts : List Token} (h : tokenizeLines first lines = .ok ts) :
    ts.Pairwise Token.EndsAbove := by
  obtain ⟨hlines, hordered⟩ := stands_of_tokenizeLines h
  have hstars := (fullLines_of_tokenizeLines h).1
  refine hordered.imp_of_mem fun {t u} ht hu hbefore hstar => ?_
  by_contra hsame
  -- On one line with it stand full-line comments only, and comments are the last of their lines.
  have hline : t.span.startLine = u.span.startLine := by
    have := hbefore.1
    have := (hlines t ht).2
    omega
  have hcomment : t.isStarComment = true := by
    rw [hstars t ht, hline, ← hstars u hu, hstar]
  rw [Token.isStarComment, Bool.and_eq_true] at hcomment
  exact hsame (hbefore.2 hcomment.1)

/-! ## Cells of statements -/

namespace Assembly

theorem token_of_mem_head?
    {cells : List Cell} {t : Token} {ts : List Token} (h : cells.map (·.token) = t :: ts) {d : Cell}
    (hd : d ∈ cells.head?) :
    d.token = t := by
  obtain ⟨rest, rfl⟩ := List.head?_eq_some_iff.mp hd
  exact (List.cons.inj h).1

theorem isChain_link {ts : List Token} (h : ts.Pairwise Token.EndsAbove) :
    (link ts).IsChain BreaksBefore := by
  fun_induction link ts with
  | case1 => exact .nil
  | case2 t => exact .singleton _
  | case3 t u rest ih =>
      obtain ⟨hfirst, hrest⟩ := List.pairwise_cons.mp h
      refine List.isChain_cons.mpr ⟨fun d hd hstar => ?_, ih hrest⟩
      have htoken := token_of_mem_head? (map_token_link (u :: rest)) hd
      simpa using hfirst u (by simp) (htoken ▸ hstar)

/-- Tokens that are no full-line comments may come in front of the last one. -/
theorem isChain_placePragmas
    {pragmas : List Token} {cells : List Cell} (hpragmas : ∀ t ∈ pragmas, t.isPragma = true)
    (h : cells.IsChain BreaksBefore) :
    (placePragmas pragmas cells).IsChain BreaksBefore := by
  have hbehind (front back : List Cell) (hfront : front.IsChain BreaksBefore)
      (hback : ∀ c ∈ back, c.token.isStarComment = false) :
      (front ++ back).IsChain BreaksBefore := by
    have hnever (c : Cell) {d : Cell} (hd : d ∈ back) : BreaksBefore c d := by
      simp [BreaksBefore, hback d hd]
    refine List.isChain_append.mpr ⟨hfront, List.Pairwise.isChain ?_, ?_⟩
    · exact List.pairwise_of_forall_mem_list fun c _ d hd => hnever c hd
    · exact fun c _ d hd => hnever c (List.mem_of_mem_head? hd)
  have hextra : ∀ c ∈ pragmas.map (fun t => ({ token := t } : Cell)),
      c.token.isStarComment = false := by
    intro c hc
    obtain ⟨t, ht, rfl⟩ := List.mem_map.mp hc
    have hrole := hpragmas t ht
    simp only [Token.isPragma, beq_iff_eq] at hrole
    simp [Token.isStarComment, Token.isComment, hrole]
  unfold placePragmas
  dsimp only
  split
  next last hlast =>
    obtain ⟨init, rfl⟩ := List.getLast?_eq_some_iff.mp hlast
    split
    next hterminator =>
      have hcode : last.token.isStarComment = false := by
        rw [Token.isTerminator, Bool.and_eq_true, beq_iff_eq] at hterminator
        simp [Token.isStarComment, Token.isComment, hterminator.1]
      rw [List.dropLast_concat, List.append_assoc]
      refine hbehind _ _ h.left_of_append ?_
      exact List.forall_mem_append.mpr ⟨hextra, List.forall_mem_singleton.mpr hcode⟩
    next => exact hbehind _ _ h hextra
  next => exact hbehind [] _ .nil hextra

theorem isChain_finish
    {body pragmas : List Token} (hpragmas : ∀ t ∈ pragmas, t.isPragma = true)
    (h : body.Pairwise Token.EndsAbove) :
    (finish body pragmas).1.IsChain BreaksBefore :=
  isChain_placePragmas hpragmas (isChain_link (h.sublist (takeSignComment_sublist body)))

end Assembly

/-! ## Moving brackets up -/

theorem Rendering.BreaksBefore.congr
    {c d e : Cell} (h : BreaksBefore c d) (htoken : e.token = d.token) :
    BreaksBefore c e := by
  rw [BreaksBefore, htoken]
  exact h

namespace Bracket

/-- A bracket that has moved up still ends its line in front of a full-line comment. -/
theorem breaksBefore_settle {c f : Cell} (h : BreaksBefore c f) :
    BreaksBefore (settle c (some f)) f := by
  intro hstar
  have hperiod : f.token.isPeriod = false := by
    simp only [Token.isStarComment, Token.isComment, Bool.and_eq_true, beq_iff_eq] at hstar
    simp [Token.isPeriod, hstar.1]
  simp [settle, h hstar, hperiod]

/-- No bracket or period moves up behind a full-line comment, and none is one. -/
theorem isChain_sweepFrom
    {c : Cell} {cells : List Cell} (h : (c :: cells).IsChain BreaksBefore) :
    (sweepFrom c cells).IsChain BreaksBefore := by
  induction cells generalizing c with
  | nil => exact .singleton c
  | cons next rest ih =>
      obtain ⟨hnext, hrest⟩ := List.isChain_cons_cons.mp h
      -- Behind a cell begins what the next one has become.
      have hhead (e d : Cell) (htoken : e.token = next.token)
          (hd : d ∈ (sweepFrom e rest).head?) : d.token = next.token :=
        (Assembly.token_of_mem_head? (map_token_sweepFrom e rest) hd).trans htoken
      rw [sweepFrom]
      split
      next hpulls =>
        have hcode : next.token.isStarComment = false := by
          simp only [pullsUp, Token.isClosingBracket, Token.isPeriod, Bool.and_eq_true,
            Bool.or_eq_true, beq_iff_eq] at hpulls
          rcases hpulls.2 with hrole | hrole
          · simp [Token.isStarComment, Token.isComment, hrole.1]
          · simp [Token.isStarComment, Token.isComment, hrole.1.1]
        have hnever (e d : Cell) (htoken : d.token = next.token) : BreaksBefore e d := by
          simp [BreaksBefore, htoken, hcode]
        split
        · refine List.isChain_cons.mpr
            ⟨fun d hd => hnever _ d (hhead _ d (token_settle _ _) hd), ih ?_⟩
          cases rest with
          | nil => exact .singleton _
          | cons f rest =>
              obtain ⟨hf, hrest⟩ := List.isChain_cons_cons.mp hrest
              exact List.isChain_cons_cons.mpr ⟨breaksBefore_settle hf, hrest⟩
        · exact List.isChain_cons.mpr
            ⟨fun d hd => hnever _ d (hhead next d rfl hd), ih hrest⟩
      next =>
        exact List.isChain_cons.mpr
          ⟨fun d hd => BreaksBefore.congr hnext (hhead next d rfl hd), ih hrest⟩

theorem isChain_sweep {cells : List Cell} (h : cells.IsChain BreaksBefore) :
    (sweep cells).IsChain BreaksBefore := by
  cases cells with
  | nil => exact .nil
  | cons c rest => exact isChain_sweepFrom h

theorem head?_breakBeforePeriod (cells : List Cell) :
    (breakBeforePeriod cells).head? = cells.head? := by
  fun_cases breakBeforePeriod cells <;> rfl

/-- More lines end where the period is put on a line of its own. -/
theorem isChain_breakBeforePeriod
    {cells : List Cell} (h : cells.IsChain fun c d => BreaksBefore d c) :
    (breakBeforePeriod cells).IsChain fun c d => BreaksBefore d c := by
  fun_induction breakBeforePeriod cells with
  | case1 c previous rest _ =>
      obtain ⟨-, hrest⟩ := List.isChain_cons_cons.mp h
      obtain ⟨hbefore, hrest⟩ := List.isChain_cons.mp hrest
      refine List.isChain_cons_cons.mpr ⟨fun _ => rfl, List.isChain_cons.mpr ⟨?_, hrest⟩⟩
      exact fun d hd => BreaksBefore.congr (hbefore d hd) rfl
  | case2 c previous rest _ ih =>
      obtain ⟨hfirst, hrest⟩ := List.isChain_cons_cons.mp h
      refine List.isChain_cons.mpr ⟨fun d hd => ?_, ih hrest⟩
      rw [head?_breakBeforePeriod] at hd
      exact Option.some.inj hd ▸ hfirst
  | case3 => exact h

end Bracket

/-! ## Statements -/

/-- Lines end in front of the full-line comments among the tokens of a statement, none of them is the
last token, and what the statement carries from a line that is a full-line comment is this comment. -/
structure Statement.FullLinesAlone (full : Nat → Bool) (s : Statement) : Prop where
  chain : ∀ cells, s.body = .plain cells → cells.IsChain BreaksBefore
  last : ∀ cells, s.body = .plain cells → ∀ cell ∈ cells.getLast?, cell.token.isComment = false
  comments : ∀ mark ∈ s.comments, Comment.isStarText mark.1 = full mark.2.startLine

namespace Statement

variable {full : Nat → Bool} {s : Statement}

theorem mem_comments_setTrailing
    {comment : Option Comment} {mark : Text × Span}
    (h : mark ∈ (s.setTrailing comment).comments) :
    mark ∈ s.comments ∨ mark ∈ comment.toList.map Comment.mark :=
  List.mem_append.mp ((s.comments_setTrailing comment).subset (List.mem_append_left _ h))

theorem mark_mem_comments {c : Comment} (h : s.trailing? = some c) : c.mark ∈ s.comments := by
  have hswap := s.comments_setTrailing none
  rw [h] at hswap
  simpa using hswap.subset (List.mem_append_right _ (by simp))

theorem FullLinesAlone.setTrailing
    (h : s.FullLinesAlone full) {comment : Option Comment}
    (hcomment : ∀ c ∈ comment, Comment.isStarText c.value = full c.span.startLine) :
    (s.setTrailing comment).FullLinesAlone full where
  chain := fun cells hcells => h.chain cells ((s.body_setTrailing_eq_plain_iff _ _).mp hcells)
  last := fun cells hcells => h.last cells ((s.body_setTrailing_eq_plain_iff _ _).mp hcells)
  comments := by
    intro mark hmark
    rcases mem_comments_setTrailing hmark with hmark | hmark
    · exact h.comments mark hmark
    · obtain ⟨c, hc, rfl⟩ := List.mem_map.mp hmark
      exact hcomment c (Option.mem_toList.mp hc)

/-- A statement with other lines for the same tokens. -/
theorem FullLinesAlone.withCells
    {s' : Statement} {cells : List Cell} (h : s.FullLinesAlone full)
    (hbody : s'.body = s.body.withCells cells) (hcomments : s'.comments = s.comments)
    (htokens : cells.map (·.token) = s.cells.map (·.token))
    (hchain : ∀ own, s.body = .plain own → cells.IsChain BreaksBefore) :
    s'.FullLinesAlone full := by
  have hplain {more : List Cell} (hmore : s'.body = .plain more) :
      s.body = .plain s.cells ∧ more = cells := by
    cases hold : s.body with
    | chain c => simp [hbody, hold, Body.withCells] at hmore
    | plain own =>
        rw [hbody, hold, Body.withCells, Body.plain.injEq] at hmore
        exact ⟨by rw [Statement.cells, hold, Body.cells], hmore.symm⟩
  refine ⟨fun more hmore => ?_, fun more hmore cell hcell => ?_, hcomments ▸ h.comments⟩
  · obtain ⟨hold, rfl⟩ := hplain hmore
    exact hchain _ hold
  · obtain ⟨hold, rfl⟩ := hplain hmore
    have hlast := congrArg List.getLast? htokens
    rw [List.getLast?_map, List.getLast?_map, Option.mem_def.mp hcell] at hlast
    obtain ⟨own, hown, htoken⟩ := Option.map_eq_some_iff.mp hlast.symm
    rw [← show own.token = cell.token from htoken]
    exact h.last _ hold own hown

/-- A statement carries its full-line comments in such a way that they are printed on lines of their
own, if it is no chain with such comments elsewhere than between its members. -/
theorem FullLinesAlone.keepsFullLines
    (h : s.FullLinesAlone full) (hsound : s.Sound)
    (hchains : ∀ c, s.body = .chain c → c.FullLinesBetween) :
    s.KeepsFullLines := by
  refine ⟨fun cells hcells => ?_, hchains⟩
  refine ⟨hsound.breaks cells hcells, h.chain cells hcells, h.last cells hcells, ?_⟩
  intro c hc cell hcell hstar hline
  have hsigned : c.IsSigned := by
    refine hsound.isSigned_note (fun hnil => ?_) hc
    rw [hcells, Body.plain.injEq] at hnil
    simp [hnil] at hcell
  have hmark : cell.token.mark ∈ s.comments := by
    have hcomment := hstar
    rw [Token.isStarComment, Bool.and_eq_true] at hcomment
    have hbody : cell.token.mark ∈ s.body.comments := by
      rw [hcells, Body.comments, commentMarks]
      exact List.mem_map_of_mem (List.mem_filter.mpr ⟨List.mem_map_of_mem hcell, hcomment.1⟩)
    simp [Statement.comments, hbody]
  have hnote : c.mark ∈ s.comments := by
    simp [Statement.comments, Option.mem_def.mp hc]
  have hstarred := h.comments _ hmark
  have hplain := h.comments _ hnote
  rw [Comment.mark, hsigned.isStarText] at hplain
  simp only [Token.mark] at hstarred
  rw [← hline, ← hplain] at hstarred
  rw [Token.isStarComment, Bool.and_eq_true] at hstar
  exact absurd (hstarred.symm.trans hstar.2) (by decide)

end Statement

namespace Bracket

variable {full : Nat → Bool} {s : Statement}

theorem fullLinesAlone_sweepStatement (h : s.FullLinesAlone full) :
    (sweepStatement s).FullLinesAlone full := by
  refine h.withCells rfl (comments_sweepStatement s) (map_token_sweep s.cells) fun own hown => ?_
  have hchain := h.chain own hown
  rw [Statement.cells, hown]
  exact isChain_sweep hchain

theorem fullLinesAlone_forcePeriodLine (h : s.FullLinesAlone full) :
    (forcePeriodLine s).FullLinesAlone full := by
  refine h.withCells rfl (comments_forcePeriodLine s) ?_ fun own hown => ?_
  · rw [List.map_reverse, map_token_breakBeforePeriod, List.map_reverse, List.reverse_reverse]
  · have hchain := h.chain own hown
    rw [Statement.cells, hown, List.isChain_reverse]
    refine isChain_breakBeforePeriod ?_
    rw [List.isChain_reverse]
    exact hchain

/-- The comment that comes of a comment taken over stands on the line of one of the two. -/
theorem fullLinesAlone_receive
    {next : Statement} {incoming : Comment} (hs : Unmerged s) (hnext : next.Sound)
    (h : s.FullLinesAlone full) (h' : next.FullLinesAlone full)
    (hincoming : incoming? s next = some incoming) :
    (receive s incoming).FullLinesAlone full := by
  obtain ⟨htouched, htrailing⟩ := touched_of_incoming? hincoming
  have hown : Comment.isStarText incoming.value = full incoming.span.startLine :=
    h'.comments _ (Statement.mark_mem_comments htrailing)
  unfold receive
  dsimp only
  split
  next =>
    refine fullLinesAlone_forcePeriodLine ⟨h.chain, h.last, fun mark hmark => ?_⟩
    simp only [Statement.comments, List.mem_append, Option.toList_some, List.map_cons,
      List.map_nil, List.mem_singleton] at hmark
    rcases hmark with hmark | rfl
    · exact h.comments mark (List.mem_append_left _ (List.mem_append.mpr hmark))
    · exact hown
  next =>
    refine h.setTrailing fun c hc => ?_
    obtain rfl := Option.some.inj hc
    cases hexisting : s.trailing? with
    | none =>
        rw [(isSigned_of_incoming? hnext hincoming).isStarText] at hown
        exact hown
    | some d =>
        have hold := h.comments _ (Statement.mark_mem_comments hexisting)
        rw [Comment.mark, (hs.isSigned htouched hexisting).isStarText] at hold
        exact hold

/-- Moving brackets up and merging comments keeps full-line comments apart. -/
theorem fullLinesAlone_reposition
    {statements : List Statement} (hsound : ∀ s ∈ statements, s.Sound)
    (hpost : ∀ s ∈ statements, s.post = none) (h : ∀ s ∈ statements, s.FullLinesAlone full) :
    ∀ s ∈ reposition statements, s.FullLinesAlone full := by
  refine forall_reposition (P := fun s => Unmerged s ∧ s.FullLinesAlone full) ?_ ?_ ?_ ?_
  · exact fun s hs => ⟨unmerged_sweepStatement (hsound s hs) (hpost s hs),
      fullLinesAlone_sweepStatement (h s hs)⟩
  · exact fun s hs => ⟨hs.1.setTrailing, hs.2.setTrailing (by simp)⟩
  · exact fun s next c hs hnext hincoming =>
      fullLinesAlone_receive hs.1 hnext.1.sound hs.2 hnext.2 hincoming
  · exact fun s hs => hs.2

end Bracket

namespace Assembly

/-- Statements put together from raw statements keep the full-line comments among their tokens
apart. -/
theorem isChain_assemble
    {raws : List RawStatement} {statements : List Statement} (hgrouped : Grouped none raws)
    (hbodies : ∀ r ∈ raws, r.body.Pairwise Token.EndsAbove)
    (hpragmas : ∀ r ∈ raws, ∀ t ∈ r.pragmas, t.isPragma = true)
    (h : assemble raws = .ok statements) :
    ∀ s ∈ statements, ∀ cells, s.body = .plain cells →
      cells.IsChain BreaksBefore ∧ ∀ cell ∈ cells.getLast?, cell.token.isComment = false := by
  refine forall_assemble hgrouped ?_ ?_ ?_ ?_ h
  · intro index shared colon first rest s hopening _ hs cells hcells
    unfold ofChain at hs
    rw [hopening] at hs
    dsimp only at hs
    split at hs
    · simp at hs
    · obtain ⟨draft, -, rfl⟩ := map_eq_ok_iff.mp hs
      simp at hcells
  · intro index body pragmas hends hmem cells hcells
    injection hcells with hcells
    subst hcells
    refine ⟨isChain_finish (hpragmas _ hmem) (hbodies _ hmem), fun cell hcell => ?_⟩
    have htokens := map_token_finish .none pragmas (.inl rfl) hends
    obtain ⟨init, last, rfl, hrole, -⟩ := hends
    rw [RawStatement.row_ofTokens .none init pragmas hrole] at htokens
    have hlast := congrArg List.getLast? htokens
    rw [List.getLast?_map, List.getLast?_concat] at hlast
    obtain ⟨own, hown, htoken⟩ := Option.map_eq_some_iff.mp hlast
    obtain rfl : own = cell := Option.some.inj (hown.symm.trans hcell)
    rw [htoken]
    exact Token.isComment_eq_false_of_punctuation hrole
  · intro index t inline _ _ cells hcells
    injection hcells with hcells
    simp [← hcells]
  · intro s t inline hs _ _ cells hcells
    exact hs cells ((s.body_setTrailing_eq_plain_iff _ _).mp hcells)

end Assembly

/-- The arranged statements of a source keep its full-line comments apart. -/
theorem Layout.fullLinesAlone_arrange
    {source : Text} {filename : Option String} {raws : List RawStatement}
    {statements : List Statement} (hsplit : Source.split source filename = .ok raws)
    (h : arrange raws = .ok statements) :
    ∀ s ∈ statements, s.FullLinesAlone (isFullLineAt 1 (Text.lines (Source.clean source))) := by
  obtain ⟨assembled, hassembled, rfl⟩ := map_eq_ok_iff.mp h
  obtain ⟨ts, hts, hcarried⟩ := assemble_comments hsplit hassembled
  have hraws := Source.statements_of_split hts hsplit
  have hlexed := Source.lexed_of_mem_tokens hts
  have hgrouped := (Unfinished.run_of_statements hlexed hraws).grouped (.inl rfl)
  have hsounds := sound_of_statements hlexed (stands_of_tokenizeLines hts).2 hraws
  have hbodies : ∀ r ∈ raws, r.body.Pairwise Token.EndsAbove := fun r hr =>
    (endsAbove_of_tokenizeLines hts).sublist (body_sublist_of_statements hlexed hraws r hr)
  have hchains := Assembly.isChain_assemble hgrouped hbodies (fun r hr => (hsounds r hr).pragmas)
    hassembled
  -- Every comment that is carried is a token of the source.
  have hmarks : ∀ s ∈ assembled, ∀ mark ∈ s.comments, Comment.isStarText mark.1 =
      isFullLineAt 1 (Text.lines (Source.clean source)) mark.2.startLine := by
    intro s hs mark hmark
    have hmem := hcarried.subset (List.mem_append_right _ (List.mem_flatMap.mpr ⟨s, hs, hmark⟩))
    obtain ⟨t, ht, rfl⟩ := List.mem_map.mp hmem
    obtain ⟨ht, hcomment⟩ := List.mem_filter.mp ht
    rw [Token.mark, ← (fullLines_of_tokenizeLines hts).1 t ht, Token.isStarComment, hcomment,
      Bool.true_and]
    rfl
  refine Bracket.fullLinesAlone_reposition
    (sound_assignLevels (sound_assemble hgrouped hsounds hassembled) (levels raws))
    (List.forall_mem_map.mpr fun s hs => Assembly.post_assemble hgrouped hassembled s hs)
    (List.forall_mem_map.mpr fun s hs => ?_)
  exact ⟨fun cells hcells => (hchains s hs cells hcells).1,
    fun cells hcells => (hchains s hs cells hcells).2, hmarks s hs⟩

/-! ## Printed sources -/

theorem starTexts_keptMarks (marks : List (Text × Span)) :
    starTexts (keptMarks marks) = starTexts marks := by
  rw [starTexts, starTexts, keptMarks, List.filter_filter]
  refine congrArg _ (List.filter_congr fun mark _ => ?_)
  cases hstar : Comment.isStarText mark.1 <;> simp [Comment.isKeptText, hstar]

/-- The full-line comments among the printed lines are those of the source. -/
theorem Layout.fullLines_lines
    (o : Options) {source : Text} {filename : Option String} {raws : List RawStatement}
    {statements : List Statement} (hsplit : Source.split source filename = .ok raws)
    (h : arrange raws = .ok statements)
    (hopenings : ∀ t ∈ RawStatement.openings [] raws, t.isStarComment = false)
    (hchains : ∀ s ∈ statements, ∀ c, s.body = .chain c → c.FullLinesBetween) :
    (((lines o statements).filter Line.isFullLine).map (·.text)).Perm
      (((Text.lines (Source.clean source)).filter Comment.isStarText).map trimRight) := by
  obtain ⟨ts, hts, hkept⟩ := arrange_keptComments hsplit h
  have hraws := Source.statements_of_split hts hsplit
  obtain ⟨-, -, hsound, -⟩ := arrange_spec hts hraws h
  have halone := fullLinesAlone_arrange hsplit h
  have hnone : starTexts (commentMarks (RawStatement.openings [] raws)) = [] := by
    rw [starTexts_commentMarks, List.filter_eq_nil_iff.mpr fun t ht => by simp [hopenings t ht]]
    rfl
  have hcarried : (starTexts (statements.flatMap Statement.comments)).Perm
      (starTexts (commentMarks ts)) := by
    have hstars := (hkept.filter fun mark => Comment.isStarText mark.1).map
      fun mark => trimRight mark.1
    rw [← starTexts, ← starTexts, starTexts_keptMarks, starTexts_keptMarks, starTexts_append,
      hnone] at hstars
    exact hstars
  rw [lines, Rendering.fullLines_render hsound fun s hs =>
    (halone s hs).keepsFullLines (hsound s hs) (hchains s hs)]
  rwa [starTexts_commentMarks, (fullLines_of_tokenizeLines hts).2] at hcarried

/-- A line of code that begins with an asterisk begins with a token that does so. -/
theorem Line.Laid.begins_star
    {l : Line} (h : l.Laid) (hcode : l.beginsWithCode = true)
    (hstar : Comment.isStarText l.text = true) :
    ∃ p ∈ l.placements, p.token.isComment = false ∧ p.printed.head? = some '*' := by
  obtain ⟨tail, hshows⟩ := h.shows
  cases hps : l.placements with
  | nil => simp [beginsWithCode, hps] at hcode
  | cons p ps =>
      refine ⟨p, by simp, by simpa [beginsWithCode, hps] using hcode, ?_⟩
      obtain ⟨-, rest, htrim, hspread⟩ := hshows.margin hps
      obtain ⟨c, cs, hprinted, -⟩ := (hspread.solid p (by simp)).begins
      obtain ⟨more, htext⟩ : ∃ more, l.text = '*' :: more :=
        List.head?_eq_some_iff.mp (by simpa [Comment.isStarText] using hstar)
      rw [htext, trimLeft_cons (by decide), hprinted] at htrim
      rw [hprinted, ← (List.cons.inj htrim).1]
      rfl

namespace Layout

section Printed

variable {o : Options} {source : Text} {ts : List Token} {raws : List RawStatement}
  {statements : List Statement}

/-- Where a printed line of code begins with an asterisk, it is an operator of the source. -/
theorem exists_token_of_begins_star
    (hts : Source.tokens source = .ok ts) (hraws : ({} : Unfinished).statements ts = .ok raws)
    (h : arrange raws = .ok statements) {l : Line} (hl : l ∈ lines o statements)
    (hcode : l.beginsWithCode = true) (hstar : Comment.isStarText l.text = true) :
    ∃ t ∈ ts, t.isComment = false ∧ t.text.head? = some '*' := by
  have hlexed := Source.lexed_of_mem_tokens hts
  obtain ⟨-, hrows, hsound, hmem⟩ := arrange_spec hts hraws h
  obtain ⟨p, hp, hcode, hhead⟩ := (laid_lines o hlexed hsound hmem l hl).begins_star hcode hstar
  have hspelled : (p.token, p.printed) ∈ spelledLines (lines o statements) :=
    List.mem_flatMap.mpr ⟨l, hl, List.mem_map_of_mem hp⟩
  rw [spelled_lines o hlexed hrows hsound hmem, ← hrows] at hspelled
  obtain ⟨row, hrow, hspelled⟩ := List.mem_flatMap.mp hspelled
  obtain ⟨s, hs, hrow⟩ := List.mem_flatMap.mp hrow
  obtain ⟨htoken, previous, before, hprinted⟩ := Rendering.mem_spelling hspelled
  have ht := hmem s hs row hrow p.token htoken
  obtain ⟨c, cs, d, ds, hwritten, htext, hsame⟩ := (hlexed p.token ht).head_tokenText o previous
    before (by simp [Token.isStarComment, hcode])
  rw [hprinted, htext, List.head?_cons, Option.some.injEq] at hhead
  refine ⟨p.token, ht, hcode, ?_⟩
  -- No letter is printed as an asterisk.
  rcases hsame with rfl | ⟨-, halpha⟩
  · rw [hwritten, hhead]
    rfl
  · rw [hhead] at halpha
    exact absurd halpha (by decide)

/-- The lines of a document that begin with an asterisk are its full-line comments and lines of
code. -/
theorem filter_isStarText_print (hlaid : ∀ l ∈ lines o statements, l.Laid) :
    ((Text.lines (print o statements)).filter Comment.isStarText).Perm
      (((lines o statements).filter Line.isFullLine).map (·.text) ++
        ((lines o statements).filter fun l =>
          l.beginsWithCode && Comment.isStarText l.text).map (·.text)) := by
  have hlines : (Text.lines (print o statements)).filter Comment.isStarText =
      ((lines o statements).filter fun l => Comment.isStarText l.text).map (·.text) := by
    rw [lines_print hlaid, List.filter_append, List.filter_map]
    exact List.append_nil _
  have hfull : ((lines o statements).filter fun l =>
      !l.beginsWithCode && Comment.isStarText l.text) =
      (lines o statements).filter Line.isFullLine :=
    List.filter_congr fun l _ => Bool.and_comm _ _
  have hsides := List.filter_append_perm (fun l : Line => !l.beginsWithCode)
    ((lines o statements).filter fun l => Comment.isStarText l.text)
  simp only [List.filter_filter, Bool.not_not] at hsides
  rw [hfull] at hsides
  rw [hlines, ← List.map_append]
  exact hsides.symm.map _

/-- A source with full-line comments nowhere in chains but between their members is printed with every
full-line comment on a line of its own, without trailing blanks; where another printed line begins
with an asterisk, it is an operator of the source. -/
theorem print_fullLines
    {filename : Option String} (hts : Source.tokens source = .ok ts)
    (hsplit : Source.split source filename = .ok raws) (h : arrange raws = .ok statements)
    (hopenings : ∀ t ∈ RawStatement.openings [] raws, t.isStarComment = false)
    (hchains : ∀ s ∈ statements, ∀ c, s.body = .chain c → c.FullLinesBetween) :
    ∃ others, ((Text.lines (print o statements)).filter Comment.isStarText).Perm
        (((Text.lines (Source.clean source)).filter Comment.isStarText).map trimRight ++ others) ∧
      ∀ text ∈ others, ∃ t ∈ ts, t.isComment = false ∧ t.text.head? = some '*' := by
  have hraws := Source.statements_of_split hts hsplit
  obtain ⟨-, -, hsound, hmem⟩ := arrange_spec hts hraws h
  refine ⟨_, (filter_isStarText_print
    (laid_lines o (Source.lexed_of_mem_tokens hts) hsound hmem)).trans
      ((fullLines_lines o hsplit h hopenings hchains).append_right _), fun text htext => ?_⟩
  obtain ⟨l, hl, -⟩ := List.mem_map.mp htext
  obtain ⟨hl, hbegins⟩ := List.mem_filter.mp hl
  rw [Bool.and_eq_true] at hbegins
  exact exists_token_of_begins_star hts hraws h hl hbegins.1 hbegins.2

/-- A full-line comment among the tokens of a statement. -/
example :
    (format .default "x =\n* a \n1.".toList none).toOption =
      some { text := "x =\n* a\n1.\n".toList } := by
  decide +kernel

end Printed

end Layout
end AbapLayout
