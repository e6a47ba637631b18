import AbapLayout.Proofs.PrintedRows

/-!
# The order of tokens in print

Read line by line and from left to right, the printed lines of a formatted source list its code
tokens in their order, each once, and its pragmas directly in front of the period or comma of the
statement or member they were collected for.  Every token is printed as it is written, but for
keywords and pragmas, which are printed in the configured case (`format_listsTokens`).
-/

namespace AbapLayout

/-- The printed tokens of some lines, comments left out. -/
def shownTokens (lines : List Line) : List Placement :=
  (lines.flatMap (·.placements)).filter fun p => !p.token.isComment

/-- The tokens of a row without its comments, and what is printed for them. -/
def codeSpelling (o : Options) (previous before : Option Token) :
    List Token → List (Token × Text)
  | [] => []
  | t :: ts =>
    if t.isComment then codeSpelling o (some t) previous ts
    else (t, Keyword.printed o t previous before) :: codeSpelling o (some t) previous ts

/-- The printed lines list the tokens of a source that has been cut into raw statements. -/
structure ListsTokens (o : Options) (ts : List Token) (raws : List RawStatement)
    (lines : List Line) : Prop where
  /-- The code tokens come in the order of the source, each once. -/
  code : ((shownTokens lines).map (·.token)).filter Token.isCode = ts.filter Token.isCode
  /-- The pragmas come in the order of the source, each once. -/
  pragmas : ((shownTokens lines).map (·.token)).filter Token.isPragma = ts.filter Token.isPragma
  /-- The tokens come row by row, each as it is spelled in its row. -/
  spelled : (shownTokens lines).map (fun p => (p.token, p.printed)) =
    (RawStatement.rows false raws).flatMap (codeSpelling o none none)
  /-- The pragmas of a statement or member stand in its row, directly in front of its terminator. -/
  terminated : ∀ r ∈ raws, r.kind ≠ .comment → r.row ∈ RawStatement.rows false raws ∧
    ∃ init terminator, r.row = init ++ r.pragmas ++ [terminator] ∧
      terminator.isTerminator = true ∧ (∀ t ∈ init, t.isPragma = false) ∧
      r.body.getLast? = some terminator
  /-- On every line the tokens stand from left to right, each in its columns. -/
  shown : ∀ l ∈ lines, (l.placements.Pairwise fun p q => p.endColumn ≤ q.column) ∧
    ∀ p ∈ l.placements, (l.text.drop p.column).take p.printed.length = p.printed

theorem map_filter_spelledLines (lines : List Line) :
    (shownTokens lines).map (fun p => (p.token, p.printed)) =
      (spelledLines lines).filter fun s => !s.1.isComment := by
  have hall : spelledLines lines =
      (lines.flatMap (·.placements)).map fun p => (p.token, p.printed) := by
    rw [spelledLines, List.map_flatMap]
    rfl
  rw [hall, List.filter_map]
  rfl

theorem filter_spelling
    (o : Options) (previous before : Option Token) (row : List Token) :
    (Rendering.spelling o previous before row).filter (fun s => !s.1.isComment) =
      codeSpelling o previous before row := by
  induction row generalizing previous before with
  | nil => rfl
  | cons t ts ih =>
      rw [Rendering.spelling, codeSpelling]
      cases hcomment : t.isComment with
      | true => simp [hcomment, ih]
      | false =>
          have hstar : t.isStarComment = false := by simp [Token.isStarComment, hcomment]
          simp [hcomment, ih, Rendering.tokenText, hstar]

theorem map_fst_codeSpelling
    (o : Options) (previous before : Option Token) (row : List Token) :
    (codeSpelling o previous before row).map (·.1) = row.filter fun t => !t.isComment := by
  induction row generalizing previous before with
  | nil => rfl
  | cons t ts ih =>
      rw [codeSpelling]
      cases hcomment : t.isComment with
      | true => simp [hcomment, ih]
      | false => simp [hcomment, ih]

theorem RawStatement.row_mem_rows
    {r : RawStatement} {raws : List RawStatement} (goesOn : Bool)
    (hr : r ∈ raws) (hkind : r.kind ≠ .comment) :
    r.row ∈ rows goesOn raws := by
  induction raws generalizing goesOn with
  | nil => simp at hr
  | cons s rest ih =>
      rw [List.mem_cons] at hr
      rw [rows]
      rcases hr with rfl | hr
      · rw [if_neg hkind]
        simp
      · split
        · exact ih goesOn hr
        · exact List.mem_append.mpr (.inr (List.mem_cons_of_mem _ (ih _ hr)))

/-- In the row of a statement or member the pragmas stand directly in front of the terminator. -/
theorem Grouped.row_terminated
    {chain : Option (List Token × Token)} {raws : List RawStatement}
    (h : Grouped chain raws) (hapart : ∀ r ∈ raws, r.PragmasApart) :
    ∀ r ∈ raws, r.kind ≠ .comment →
      ∃ init terminator, r.row = init ++ r.pragmas ++ [terminator] ∧
        terminator.isTerminator = true ∧ (∀ t ∈ init, t.isPragma = false) ∧
        r.body.getLast? = some terminator := by
  intro r hr hkind
  obtain ⟨opening, sign, body, pragmas, hsign, ⟨init, last, rfl, hrole, htext⟩, rfl⟩ :=
    h.endsIn r hr hkind
  refine ⟨(Assembly.takeSignComment init).2, last,
    RawStatement.row_ofTokens opening init pragmas hrole,
    Assembly.isTerminator_of_endsIn hsign hrole htext, ?_, by simp [RawStatement.ofTokens]⟩
  intro t ht
  refine (hapart _ hr).1 t ?_
  have hmem := (Assembly.takeSignComment_sublist init).subset ht
  simp [RawStatement.tokens, RawStatement.ofTokens, hmem]

theorem RawStatement.mem_of_mem_rows
    {raws : List RawStatement} {goesOn : Bool} {row : List Token} {t : Token}
    (hrow : row ∈ rows goesOn raws) (ht : t ∈ row) :
    ∃ r ∈ raws, t ∈ r.opening.tokens ∨ t ∈ r.body ++ r.pragmas := by
  induction raws generalizing goesOn with
  | nil => simp [rows] at hrow
  | cons r rest ih =>
      have hlater : ∀ on, row ∈ rows on rest →
          ∃ s ∈ r :: rest, t ∈ s.opening.tokens ∨ t ∈ s.body ++ s.pragmas := by
        intro on hmem
        obtain ⟨s, hs, hor⟩ := ih hmem
        exact ⟨s, by simp [hs], hor⟩
      rw [rows] at hrow
      split at hrow
      · exact hlater goesOn hrow
      · rw [List.mem_append, List.mem_cons] at hrow
        rcases hrow with hrow | rfl | hrow
        · refine ⟨r, by simp, .inl ?_⟩
          split at hrow
          · simp at hrow
          · cases hopening : r.opening with
            | none => simp [hopening, Opening.rows] at hrow
            | stray colon => simp [hopening, Opening.rows] at hrow
            | shared words colon =>
                simp only [hopening, Opening.rows, List.mem_cons, List.not_mem_nil,
                  or_false] at hrow
                rcases hrow with rfl | rfl
                · simp [Opening.tokens, (List.mem_filter.mp ht).1]
                · rw [List.mem_singleton] at ht
                  simp [Opening.tokens, ht]
        · exact ⟨r, by simp, .inr (Assembly.mem_of_mem_row ht)⟩
        · exact hlater _ hrow

/-- Every token in a row of a source is one of its tokens. -/
theorem mem_tokens_of_mem_rows
    {ts : List Token} {raws : List RawStatement} (hlexed : ∀ t ∈ ts, t.Lexed)
    (h : ({} : Unfinished).statements ts = .ok raws) :
    ∀ row ∈ RawStatement.rows false raws, ∀ t ∈ row, t ∈ ts := by
  intro row hrow t ht
  obtain ⟨r, hr, hor⟩ := RawStatement.mem_of_mem_rows hrow ht
  have hdraws := (Unfinished.run_of_statements hlexed h).draws r hr
  rcases hor with hor | hor
  · have hmem : t ∈ ts.filter fun t => !t.isPragma := by
      simpa [Unfinished.opening, Opening.tokens] using hdraws.opening hor
    exact (List.mem_filter.mp hmem).1
  · rcases List.mem_append.mp hor with hor | hor
    · have hmem : t ∈ ts.filter fun t => !t.isPragma := by simpa using hdraws.body.subset hor
      exact (List.mem_filter.mp hmem).1
    · have hmem : t ∈ ts.filter Token.isPragma := by simpa using hdraws.pragmas hor
      exact (List.mem_filter.mp hmem).1

/-! ## Formatted sources -/

/-- What is known of a source that is formatted and not passed through. -/
theorem Layout.format_eq_ok
    {o : Options} {source : Text} {filename : Option String} {f : Formatted}
    (h : Layout.format o source filename = .ok f) (hrejection : f.rejection = none) :
    ∃ raws statements, Source.split source filename = .ok raws ∧
      Layout.arrange raws = .ok statements ∧ f = { text := Layout.print o statements } := by
  unfold Layout.format at h
  split at h
  · injection h with h
    simp [← h] at hrejection
  next raws hraws =>
    obtain ⟨statements, hstatements, rfl⟩ := map_eq_ok_iff.mp h
    exact ⟨raws, statements, hraws, hstatements, rfl⟩

/-- The statements of a source are sound, and their rows are those of its raw statements. -/
theorem Layout.arrange_spec
    {source : Text} {ts : List Token} {raws : List RawStatement} {statements : List Statement}
    (hts : Source.tokens source = .ok ts) (hraws : ({} : Unfinished).statements ts = .ok raws)
    (h : Layout.arrange raws = .ok statements) :
    Grouped none raws ∧ statements.flatMap Statement.rows = RawStatement.rows false raws ∧
      (∀ s ∈ statements, s.Sound) ∧ ∀ s ∈ statements, ∀ row ∈ s.rows, ∀ t ∈ row, t ∈ ts := by
  have hlexed := Source.lexed_of_mem_tokens hts
  obtain ⟨hlines, hordered⟩ := stands_of_tokenizeLines hts
  have hrun := Unfinished.run_of_statements hlexed hraws
  have hgrouped := hrun.grouped (.inl rfl)
  have hascending : ts.Pairwise fun t v => t.span.startLine ≤ v.span.startLine := by
    refine hordered.imp_of_mem ?_
    intro t v ht _ hbefore
    rw [← (hlines t ht).2]
    exact hbefore.1
  have hprecedes := hrun.ordered hascending (by simp)
  have hrows := Layout.rows_arrange hgrouped hprecedes h
  refine ⟨hgrouped, hrows, Layout.sound_arrange hgrouped
    (sound_of_statements hlexed hordered hraws) h, ?_⟩
  intro s hs row hrow
  refine mem_tokens_of_mem_rows hlexed hraws row ?_
  rw [← hrows]
  exact List.mem_flatMap.mpr ⟨s, hs, hrow⟩

/-- What the layout of a source relies on in its statements. -/
theorem Layout.sound_of_split
    {source : Text} {filename : Option String} {raws : List RawStatement}
    {statements : List Statement} (hsplit : Source.split source filename = .ok raws)
    (harrange : Layout.arrange raws = .ok statements) :
    Grouped none raws ∧ (∀ s ∈ statements, s.Sound) ∧
      ∀ s ∈ statements, ∀ row ∈ s.rows, ∀ t ∈ row, t.Lexed := by
  obtain ⟨ts, hts, hraws⟩ := Source.tokens_of_split hsplit
  obtain ⟨hgrouped, -, hsound, hmem⟩ := Layout.arrange_spec hts hraws harrange
  exact ⟨hgrouped, hsound, fun s hs row hrow t ht =>
    Source.lexed_of_mem_tokens hts t (hmem s hs row hrow t ht)⟩

section

variable {statements : List Statement} (hsound : ∀ s ∈ statements, s.Sound)
  (hlexed : ∀ s ∈ statements, ∀ row ∈ s.rows, ∀ t ∈ row, t.Lexed)
include hlexed

theorem isSolid_rows (o : Options) :
    ∀ s ∈ statements, ∀ row ∈ s.rows, ∀ t ∈ row, Rendering.IsSolid o t :=
  fun s hs row hrow t ht previous before =>
    solid_tokenText o previous before (hlexed s hs row hrow t ht)

include hsound

theorem lexed_colon :
    ∀ s ∈ statements, ∀ c, s.body = .chain c → c.colon.Lexed ∧ c.colon.role = .colon := by
  intro s hs c hc
  refine ⟨hlexed s hs [c.colon] ?_ c.colon (by simp), (hsound s hs).colon c hc⟩
  simp [Statement.rows, hc, Body.rows]

theorem laid_arranged (o : Options) : ∀ l ∈ Layout.lines o statements, l.Laid :=
  Rendering.laid_render hsound (isSolid_rows hlexed o)

end

theorem spelled_lines
    (o : Options) {ts : List Token} {raws : List RawStatement} {statements : List Statement}
    (hlexed : ∀ t ∈ ts, t.Lexed)
    (hrows : statements.flatMap Statement.rows = RawStatement.rows false raws)
    (hsound : ∀ s ∈ statements, s.Sound)
    (hmem : ∀ s ∈ statements, ∀ row ∈ s.rows, ∀ t ∈ row, t ∈ ts) :
    spelledLines (Layout.lines o statements) =
      (RawStatement.rows false raws).flatMap (Rendering.spelling o none none) := by
  rw [← hrows]
  exact Rendering.spelled_render o _ (lexed_colon hsound fun s hs row hrow t ht =>
    hlexed t (hmem s hs row hrow t ht))

theorem laid_lines
    (o : Options) {ts : List Token} {statements : List Statement}
    (hlexed : ∀ t ∈ ts, t.Lexed) (hsound : ∀ s ∈ statements, s.Sound)
    (hmem : ∀ s ∈ statements, ∀ row ∈ s.rows, ∀ t ∈ row, t ∈ ts) :
    ∀ l ∈ Layout.lines o statements, l.Laid :=
  laid_arranged hsound (fun s hs row hrow t ht => hlexed t (hmem s hs row hrow t ht)) o

/-- The lines of a printed document, with an empty one behind the last break. -/
theorem lines_print
    {o : Options} {statements : List Statement} (hlaid : ∀ l ∈ Layout.lines o statements, l.Laid) :
    Text.lines (Layout.print o statements) =
      (Layout.lines o statements).map (·.text) ++ [[]] :=
  Text.lines_document (List.forall_mem_map.mpr fun l hl => (hlaid l hl).oneLine)

theorem Line.Laid.shown
    {l : Line} (h : l.Laid) :
    (l.placements.Pairwise fun p q => p.endColumn ≤ q.column) ∧
      ∀ p ∈ l.placements, (l.text.drop p.column).take p.printed.length = p.printed := by
  obtain ⟨tail, body, htext, hspread⟩ := h.shows
  refine ⟨hspread.ascending, ?_⟩
  intro p hp
  have hslice := (hspread.slice tail p hp).2
  rwa [← htext, Nat.sub_zero] at hslice

/-- A source that is formatted and not passed through is printed with all its tokens: those of code
in its order, and the pragmas in front of the terminators. -/
theorem format_listsTokens
    {o : Options} {source : Text} {filename : Option String} {f : Formatted}
    (h : Layout.format o source filename = .ok f) (hrejection : f.rejection = none) :
    ∃ ts raws statements, Source.tokens source = .ok ts ∧
      Source.split source filename = .ok raws ∧ Layout.arrange raws = .ok statements ∧
      f.text = Layout.print o statements ∧
      ListsTokens o ts raws (Layout.lines o statements) := by
  obtain ⟨raws, statements, hsplit, harrange, rfl⟩ := Layout.format_eq_ok h hrejection
  obtain ⟨ts, hts, hraws⟩ := Source.tokens_of_split hsplit
  have hlexed := Source.lexed_of_mem_tokens hts
  obtain ⟨hgrouped, hrows, hsound, hmem⟩ := Layout.arrange_spec hts hraws harrange
  have hapart := pragmasApart_of_statements hlexed hraws
  -- What is printed, comments left out, is what the rows spell.
  have hspelled : (shownTokens (Layout.lines o statements)).map (fun p => (p.token, p.printed)) =
      (RawStatement.rows false raws).flatMap (codeSpelling o none none) := by
    rw [map_filter_spelledLines, spelled_lines o hlexed hrows hsound hmem, List.filter_flatMap]
    congr 1
    funext row
    exact filter_spelling o none none row
  have htokens : (shownTokens (Layout.lines o statements)).map (·.token) =
      (RawStatement.rows false raws).flatten.filter fun t => !t.isComment := by
    have hfst := congrArg (List.map Prod.fst) hspelled
    rw [List.map_map, List.map_flatMap] at hfst
    rw [List.filter_flatten, ← List.flatMap_def]
    simp only [map_fst_codeSpelling] at hfst
    exact hfst
  have hkept (p : Token → Bool) (hp : ∀ t, t.isComment = true → p t = false) :
      ((shownTokens (Layout.lines o statements)).map (·.token)).filter p =
        (RawStatement.rows false raws).flatten.filter p := by
    rw [htokens, List.filter_filter]
    congr 1
    funext t
    cases hcomment : t.isComment with
    | true => simp [hp t hcomment]
    | false => simp
  refine ⟨ts, raws, statements, hts, hsplit, harrange, rfl, ?_⟩
  exact
    { code := by
        rw [hkept Token.isCode Token.isCode_eq_false_of_isComment,
          Unfinished.filter_isCode_rows false hlexed (by simp) (by simp) hraws]
        rfl
      pragmas := by
        rw [hkept Token.isPragma fun t => Unfinished.isPragma_eq_false_of_isComment,
          RawStatement.filter_isPragma_rows false hapart hgrouped.pragmas_of_comment,
          Unfinished.statements_pragmas hraws]
        rfl
      spelled := hspelled
      terminated := fun r hr hkind =>
        ⟨RawStatement.row_mem_rows false hr hkind, hgrouped.row_terminated hapart r hr hkind⟩
      shown := fun l hl => (laid_lines o hlexed hsound hmem l hl).shown }

/-- The case of a chain with a pragma, comments inside and behind it, and a bracket that moves up. -/
theorem format_listsTokens_chain :
    ∃ ts raws statements,
      Source.tokens "data: a ##needed \"c\n type i,\nb( 1\n). \"d\n".toList = .ok ts ∧
      Source.split "data: a ##needed \"c\n type i,\nb( 1\n). \"d\n".toList none = .ok raws ∧
      Layout.arrange raws = .ok statements ∧
      "DATA: a TYPE i ##NEEDED, \" c\n      b( 1 ). \" d\n".toList =
        Layout.print .default statements ∧
      ListsTokens .default ts raws (Layout.lines .default statements) :=
  format_listsTokens
    (f := { text := "DATA: a TYPE i ##NEEDED, \" c\n      b( 1 ). \" d\n".toList })
    (eq_ok_of_toOption (by decide +kernel)) rfl

end AbapLayout
