import AbapLayout.Proofs.PassThrough
import AbapLayout.Proofs.RecastDocument

/-!
# Sources that are indented anew

Blanks in front of the lines of a source move the tokens on them to the right.  If the lines of a
statement get the same number of blanks, and lines that begin with an asterisk get none, the source
is formatted as before (`format_indentLines`): the layout looks at the distance of tokens on one
line, and of the lines of one statement, and at no other column.
-/

namespace AbapLayout

/-! ## Indented texts -/

namespace Text

/-- Lines with blanks in front of them, where the first has the given number. -/
def indentFrom (f : Nat → Nat) (first : Nat) : List Text → List Text
  | [] => []
  | l :: rest => (blanks (f first) ++ l) :: indentFrom f (first + 1) rest

/-- A text with blanks in front of its lines, which count from one. -/
def indentLines (f : Nat → Nat) (t : Text) : Text :=
  unlines (indentFrom f 1 (lines t))

variable {f : Nat → Nat}

theorem oneLine_of_mem_indentFrom
    {first : Nat} {ls : List Text} (h : ∀ l ∈ ls, OneLine l) :
    ∀ l ∈ indentFrom f first ls, OneLine l := by
  induction ls generalizing first with
  | nil => simp [indentFrom]
  | cons l rest ih =>
      obtain ⟨hl, hrest⟩ := List.forall_mem_cons.mp h
      exact List.forall_mem_cons.mpr ⟨oneLine_append.mpr ⟨oneLine_blanks _, hl⟩, ih hrest⟩

theorem lines_of_oneLine {t : Text} (h : OneLine t) : lines t = [t] := by
  induction t with
  | nil => rfl
  | cons c cs ih =>
      obtain ⟨hc, hcs⟩ := oneLine_cons.mp h
      have hne : c ≠ '\n' := by
        rintro rfl
        simp [isBreak] at hc
      rw [lines, if_neg hne, ih hcs]
      rfl

theorem lines_unlines {ls : List Text} (hne : ls ≠ []) (h : ∀ l ∈ ls, OneLine l) :
    lines (unlines ls) = ls := by
  induction ls with
  | nil => exact absurd rfl hne
  | cons l rest ih =>
      obtain ⟨hl, hrest⟩ := List.forall_mem_cons.mp h
      cases rest with
      | nil =>
          rw [unlines, join, List.intercalate_singleton]
          exact lines_of_oneLine hl
      | cons k more => rw [unlines_cons_cons, lines_append_break hl, ih (by simp) hrest]

theorem indentFrom_ne_nil {first : Nat} {ls : List Text} (h : ls ≠ []) :
    indentFrom f first ls ≠ [] := by
  cases ls with
  | nil => exact absurd rfl h
  | cons l rest => simp [indentFrom]

variable {t : Text} (hreturn : '\r' ∉ t)
include hreturn

theorem oneLine_of_mem_indentFrom_lines : ∀ l ∈ indentFrom f 1 (lines t), OneLine l :=
  oneLine_of_mem_indentFrom fun _ hl =>
    oneLine_of_mem_lines ((unifyBreaks_of_not_mem hreturn).symm ▸ hl)

theorem lines_indentLines : lines (indentLines f t) = indentFrom f 1 (lines t) :=
  lines_unlines (indentFrom_ne_nil (lines_ne_nil t)) (oneLine_of_mem_indentFrom_lines hreturn)

theorem not_mem_indentLines : '\r' ∉ indentLines f t := by
  intro hmem
  rcases mem_unlines hmem with hfeed | ⟨l, hl, hc⟩
  · exact absurd hfeed (by decide)
  · exact absurd (oneLine_of_mem_indentFrom_lines hreturn l hl _ hc) (by decide)

omit hreturn

theorem head?_unlines (l : Text) (rest : List Text) :
    (unlines (l :: rest)).head? = (l ++ if rest.isEmpty then [] else ['\n']).head? := by
  cases rest with
  | nil => simp [unlines, join, List.intercalate_singleton]
  | cons k more =>
      rw [unlines_cons_cons, List.head?_append, List.head?_append]
      rfl

/-- An indented text begins as before or with a blank. -/
theorem head?_indentLines (f : Nat → Nat) (t : Text) :
    (indentLines f t).head? = t.head? ∨ (indentLines f t).head? = some ' ' := by
  obtain ⟨l, rest, hlines⟩ := List.exists_cons_of_ne_nil (lines_ne_nil t)
  have ht : t.head? = (l ++ if rest.isEmpty then [] else ['\n']).head? := by
    rw [← head?_unlines, ← hlines, unlines_lines]
  have hrest : (indentFrom f (1 + 1) rest).isEmpty = rest.isEmpty := by
    cases rest <;> rfl
  rw [indentLines, hlines, indentFrom, head?_unlines, ht, hrest]
  cases hn : f 1 with
  | zero => exact .inl rfl
  | succ n => exact .inr rfl

end Text

/-! ## Indented sources -/

namespace Source

open Text

variable {f : Nat → Nat} {source : Text}

theorem clean_indentLines
    (hreturn : '\r' ∉ source) (hmark : source.head? ≠ some byteOrderMark) :
    clean (indentLines f source) = indentLines f source := by
  refine clean_of_lineFeeds (not_mem_indentLines hreturn) ?_
  rcases head?_indentLines f source with h | h
  · rw [h]
    exact hmark
  · rw [h]
    decide

theorem isBlankText_indentLines (hreturn : '\r' ∉ source) :
    isBlankText (indentLines f source) = isBlankText source := by
  have hlines : ∀ first (ls : List Text),
      (∀ l ∈ indentFrom f first ls, trimRight l = []) ↔ ∀ l ∈ ls, trimRight l = [] := by
    intro first ls
    induction ls generalizing first with
    | nil => simp [indentFrom]
    | cons l rest ih =>
        have hl : trimRight (blanks (f first) ++ l) = [] ↔ trimRight l = [] := by
          simp only [trimRight_eq_nil_iff, List.mem_append]
          exact ⟨fun h c hc => h c (.inr hc),
            fun h c hc => hc.elim isBlank_of_mem_blanks (h c)⟩
        rw [indentFrom, List.forall_mem_cons, List.forall_mem_cons, ih, hl]
  rw [Bool.eq_iff_iff, isBlankText_iff, isBlankText_iff, lines_indentLines hreturn, hlines]

end Source

/-! ## Tokens -/

/-- A token on a line with blanks in front of it. -/
def Token.indent (f : Nat → Nat) (t : Token) : Token :=
  { t with span := t.span.moved f }

/-- Blanks in front of lines move tokens and change nothing else. -/
def Recast.indent (f : Nat → Nat) : Recast where
  toFun := Token.indent f
  shift := f
  role_eq _ := rfl
  letters_eq _ := rfl
  comment_eq _ _ := rfl
  span_eq _ := rfl

theorem Token.indent_onLine (f : Nat → Nat) (role : Role) (text : Text) (line column : Nat) :
    (Token.onLine role text line column).indent f =
      Token.onLine role text line (column + f line) := by
  simp only [Token.indent, Token.onLine, Span.moved, Span.onLine]
  rw [Nat.add_right_comm]

variable {f : Nat → Nat}

theorem tokenizeFrom_indent (line column : Nat) (t : Text) :
    tokenizeFrom line (column + f line) t =
      (tokenizeFrom line column t).map (List.map (Token.indent f)) := by
  fun_induction tokenizeFrom line column t with
  | case1 column => rw [tokenizeFrom]; rfl
  | case2 column c cs hc ih => rw [tokenizeFrom, if_pos hc, ← ih, Nat.add_right_comm]
  | case3 column c cs hc fault hfault => rw [tokenizeFrom, if_neg hc, hfault]; rfl
  | case4 column c cs hc role n hmeasure ih =>
      rw [tokenizeFrom, if_neg hc, hmeasure]
      dsimp only
      rw [Nat.add_right_comm, ih]
      cases tokenizeFrom line (column + (n + 1)) (cs.drop n) with
      | error fault => rfl
      | ok ts => simp [Except.map, Token.indent_onLine]

/-- Blanks in front of a line move its tokens, unless it begins with an asterisk. -/
theorem tokenize_indent
    (line : Nat) {t : Text} (hstar : t.head? = some '*' → f line = 0) :
    tokenize line (Text.blanks (f line) ++ t) =
      (tokenize line t).map (List.map (Token.indent f)) := by
  by_cases h : t.head? = some '*'
  · obtain ⟨cs, rfl⟩ := List.head?_eq_some_iff.mp h
    have hzero := hstar rfl
    rw [hzero]
    simp only [Text.blanks, List.replicate_zero, List.nil_append, tokenize, Except.map,
      List.map_singleton, Token.indent_onLine, hzero, Nat.add_zero]
  · have hindented : (Text.blanks (f line) ++ t).head? ≠ some '*' := by
      cases hn : f line with
      | zero => exact h
      | succ n => simp [Text.blanks, List.replicate_succ]
    rw [tokenize_eq_tokenizeFrom h, tokenize_eq_tokenizeFrom hindented, tokenizeFrom_blanks,
      tokenizeFrom_indent]

theorem tokenizeLines_indent
    (first : Nat) {ls : List Text}
    (hstar : ∀ p ∈ ls.zipIdx first, p.1.head? = some '*' → f p.2 = 0) :
    tokenizeLines first (Text.indentFrom f first ls) =
      (tokenizeLines first ls).map (List.map (Token.indent f)) := by
  induction ls generalizing first with
  | nil => rfl
  | cons l rest ih =>
      rw [List.zipIdx_cons] at hstar
      obtain ⟨hl, hrest⟩ := List.forall_mem_cons.mp hstar
      rw [Text.indentFrom, tokenizeLines, tokenizeLines, tokenize_indent first hl,
        ih (first + 1) hrest]
      cases tokenize first l with
      | error fault => rfl
      | ok ts =>
          simp only [Except.map]
          cases tokenizeLines (first + 1) rest with
          | error rejection => rfl
          | ok us => simp

/-- The tokens of an indented source are those of the source in other columns. -/
theorem Source.tokens_indentLines
    {source : Text} (hreturn : '\r' ∉ source) (hmark : source.head? ≠ some Source.byteOrderMark)
    (hstar : ∀ p ∈ (Text.lines source).zipIdx 1, p.1.head? = some '*' → f p.2 = 0) :
    Source.tokens (Text.indentLines f source) =
      (Source.tokens source).map (List.map (Recast.indent f)) := by
  rw [Source.tokens, Source.tokens, Source.clean_indentLines hreturn hmark,
    Source.clean_of_lineFeeds hreturn hmark, Text.lines_indentLines hreturn]
  exact tokenizeLines_indent 1 hstar

/-! ## Where statements start -/

namespace Span

theorem startLine_union (a b : Span) :
    (a.union b).startLine = min a.startLine b.startLine := by
  unfold union
  dsimp only
  by_cases h : b.startsBefore a = true
  · rw [if_pos h]
    simp only [startsBefore, Bool.or_eq_true, decide_eq_true_eq, Bool.and_eq_true,
      beq_iff_eq] at h
    omega
  · rw [if_neg h]
    simp only [startsBefore, Bool.or_eq_true, decide_eq_true_eq, Bool.and_eq_true,
      beq_iff_eq] at h
    omega

/-- A span that covers others starts on the first of their lines. -/
theorem startLine_cover {spans : List Span} {span : Span} (h : cover spans = some span) :
    (∃ s ∈ spans, s.startLine = span.startLine) ∧ ∀ s ∈ spans, span.startLine ≤ s.startLine := by
  cases spans with
  | nil => simp [cover] at h
  | cons first rest =>
      injection h with h
      subst h
      induction rest generalizing first with
      | nil => simp
      | cons next rest ih =>
          obtain ⟨⟨s, hs, hstart⟩, hleast⟩ := ih (first.union next)
          rw [List.foldl_cons]
          obtain ⟨hunion, hrest⟩ := List.forall_mem_cons.mp hleast
          rw [startLine_union] at hunion
          refine ⟨?_, ?_⟩
          · rcases List.mem_cons.mp hs with rfl | hs
            · rw [startLine_union] at hstart
              rcases Nat.le_total first.startLine next.startLine with hle | hle
              · exact ⟨first, by simp, by omega⟩
              · exact ⟨next, by simp, by omega⟩
            · exact ⟨s, by simp [hs], hstart⟩
          · refine List.forall_mem_cons.mpr ⟨by omega, List.forall_mem_cons.mpr ⟨by omega, hrest⟩⟩

end Span

/-- Where a statement stands, whether it is a chain, and its rows. -/
def Statement.frame (s : Statement) : Option Span × Bool × List (List Token) :=
  (s.span, s.body.chain?.isSome, s.rows)

/-- Whether the lines of a statement that is no chain move to the right by one number, full-line
comments apart. -/
def Statement.Straight (f : Nat → Nat) (s : Statement) : Prop :=
  s.frame.2.1 = false → ∀ span ∈ s.frame.1, ∀ row ∈ s.frame.2.2, ∀ t ∈ row,
    t.isStarComment = false → f t.span.startLine = f span.startLine

/-- Whether the lines of a raw statement get the same number of blanks, full-line comments apart. -/
def RawStatement.EvenlyIndented (f : Nat → Nat) (r : RawStatement) : Prop :=
  ∀ t ∈ r.tokens ++ r.pragmas, ∀ u ∈ r.tokens ++ r.pragmas, t.isStarComment = false →
    u.isStarComment = false → f t.span.startLine = f u.span.startLine

instance (f : Nat → Nat) (r : RawStatement) : Decidable (r.EvenlyIndented f) :=
  inferInstanceAs (Decidable (∀ t ∈ _, ∀ u ∈ _, _ → _ → _))

namespace Statement

theorem Straight.congr {s s' : Statement} (hframe : s'.frame = s.frame) (h : s.Straight f) :
    s'.Straight f := by
  unfold Straight
  rw [hframe]
  exact h

theorem frame_setTrailing (s : Statement) (comment : Option Comment) :
    (s.setTrailing comment).frame = s.frame := by
  have hchain : (s.setTrailing comment).body.chain?.isSome = s.body.chain?.isSome := by
    unfold setTrailing
    cases hbody : s.body with
    | plain cells => simp
    | chain c =>
        dsimp only
        split <;> simp [Body.chain?]
  have hspan : (s.setTrailing comment).span = s.span := congrArg Prod.fst (s.place_setTrailing comment)
  rw [frame, hspan, hchain, s.rows_setTrailing]
  rfl

end Statement

theorem Body.isSome_chain?_withCells (b : Body) (cells : List Cell) :
    (b.withCells cells).chain?.isSome = b.chain?.isSome := by
  cases b <;> rfl

namespace Bracket

theorem frame_sweepStatement (s : Statement) : (sweepStatement s).frame = s.frame := by
  rw [Statement.frame, rows_sweepStatement]
  exact congrArg (fun chain => (s.span, chain, s.rows)) (s.body.isSome_chain?_withCells _)

theorem frame_forcePeriodLine (s : Statement) : (forcePeriodLine s).frame = s.frame := by
  rw [Statement.frame, rows_forcePeriodLine]
  exact congrArg (fun chain => (s.span, chain, s.rows)) (s.body.isSome_chain?_withCells _)

theorem frame_receive (s : Statement) (incoming : Comment) :
    (receive s incoming).frame = s.frame := by
  unfold receive
  dsimp only
  split
  · exact frame_forcePeriodLine { s with post := some incoming }
  · exact s.frame_setTrailing _

end Bracket

namespace Assembly

variable {raws : List RawStatement}

/-- A statement is placed by tokens of its own, its code among them. -/
theorem mem_placing_finish
    {body pragmas : List Token} (hends : EndsIn '.' body)
    (hpragmas : ∀ t ∈ pragmas, t.isPragma = true) :
    (∀ t ∈ placing (finish body pragmas).1, t ∈ body ++ pragmas) ∧
      ∀ t ∈ body, t.isCode = true → t ∈ placing (finish body pragmas).1 := by
  have htokens := map_token_finish .none pragmas (.inl rfl) hends
  constructor
  · intro t ht
    refine mem_of_mem_row (r := RawStatement.ofTokens .none body pragmas) ?_
    rw [← htokens]
    unfold placing at ht
    dsimp only at ht
    split at ht
    · exact ht
    · exact (List.mem_filter.mp ht).1
  · intro t ht hcode
    obtain ⟨hcomment, hpragma⟩ : t.isComment = false ∧ t.isPragma = false := by
      simpa [Token.isCode] using hcode
    have hmem : t ∈ (RawStatement.ofTokens .none body pragmas).row := by
      refine (List.mem_filter (p := Token.isCode).mp ?_).1
      obtain ⟨init, last, rfl, hrole, -⟩ := hends
      rw [Unfinished.filter_isCode_row .none init hrole hpragmas]
      exact List.mem_filter.mpr ⟨ht, hcode⟩
    unfold placing
    dsimp only
    rw [htokens]
    split
    · exact hmem
    · exact List.mem_filter.mpr ⟨hmem, by simp [hpragma]⟩

/-- The first token of a statement is code, and its other tokens stand on no earlier lines.  So the
span of the statement starts on a line with code. -/
theorem straight_ofSingle
    (index : Nat) {body pragmas : List Token} (hends : EndsIn '.' body)
    (hbegins : BeginsWithCode body)
    (hordered : body.Pairwise fun t u => t.span.startLine ≤ u.span.startLine)
    (hpragmas : ∀ t ∈ pragmas, t.isPragma = true)
    (heven : (RawStatement.ofTokens .none body pragmas).EvenlyIndented f) :
    (ofSingle index (RawStatement.ofTokens .none body pragmas)).Straight f := by
  obtain ⟨hown, hcodes⟩ := mem_placing_finish hends hpragmas
  obtain ⟨first, others, hbody, hcode, -⟩ := hbegins
  have hfirst : first ∈ placing (finish body pragmas).1 := hcodes first (by simp [hbody]) hcode
  have hnoComment : first.isComment = false := by
    rw [Token.isCode, Bool.and_eq_true, Bool.not_eq_true'] at hcode
    exact hcode.1
  have hstar : first.isStarComment = false := by simp [Token.isStarComment, hnoComment]
  have hbelow : ∀ t ∈ body ++ pragmas, t.isStarComment = true →
      first.span.startLine ≤ t.span.startLine := by
    intro t ht hstar
    rw [Token.isStarComment, Bool.and_eq_true] at hstar
    rcases List.mem_append.mp ht with ht | ht
    · rw [hbody] at ht hordered
      rcases List.mem_cons.mp ht with rfl | ht
      · exact Nat.le_refl _
      · exact (List.pairwise_cons.mp hordered).1 t ht
    · have hno := Unfinished.isPragma_eq_false_of_isComment hstar.1
      rw [hpragmas t ht] at hno
      simp at hno
  intro _ span hspan row hrow t ht htstar
  have hspan : Span.cover ((placing (finish body pragmas).1).map (·.span)) = some span := hspan
  have hrow : row ∈ (ofSingle index (RawStatement.ofTokens .none body pragmas)).rows := hrow
  rw [rows_ofSingle index pragmas hends, List.mem_singleton] at hrow
  have hmem := mem_of_mem_row (hrow ▸ ht)
  obtain ⟨⟨_, hcovered, hstart⟩, hleast⟩ := Span.startLine_cover hspan
  obtain ⟨leader, hleader, rfl⟩ := List.mem_map.mp hcovered
  cases hleaderStar : leader.isStarComment with
  | false =>
      rw [← hstart]
      exact heven t hmem leader (hown leader hleader) htstar hleaderStar
  | true =>
      have hle := hbelow leader (hown leader hleader) hleaderStar
      have hge := hleast _ (List.mem_map_of_mem hfirst)
      rw [show span.startLine = first.span.startLine by omega]
      exact heven t hmem first (hown first hfirst) htstar hstar

/-- What is known of the raw statements of a source whose lines get blanks in front of them. -/
structure Even (f : Nat → Nat) (r : RawStatement) : Prop where
  headed : r.Headed
  ordered : r.body.Pairwise fun t u => t.span.startLine ≤ u.span.startLine
  pragmas : ∀ t ∈ r.pragmas, t.isPragma = true
  even : r.EvenlyIndented f

theorem chain?_ofChain
    {index : Nat} {first : RawStatement} {rest : List RawStatement} {s : Statement}
    (hcolon : first.colon?.isSome = true) (h : ofChain index first rest = .ok s) :
    s.frame.2.1 = true := by
  unfold ofChain at h
  split at h
  next hnone => simp [RawStatement.colon?, hnone, Opening.colon?] at hcolon
  next => simp at h
  next =>
    split at h
    next => simp at h
    next =>
      obtain ⟨draft, -, rfl⟩ := map_eq_ok_iff.mp h
      rfl

theorem straight_assemble
    {raws : List RawStatement} {statements : List Statement} (hgrouped : Grouped none raws)
    (heven : ∀ r ∈ raws, Even f r) (h : assemble raws = .ok statements) :
    ∀ s ∈ statements, s.Straight f := by
  refine forall_assemble hgrouped ?_ ?_ ?_ ?_ h
  · intro index shared colon first rest s hopening _ hs hplain
    rw [chain?_ofChain (by simp [RawStatement.colon?, hopening, Opening.colon?]) hs] at hplain
    simp at hplain
  · intro index body pragmas hends hmem
    obtain ⟨hheaded, hordered, hpragmas, hsame⟩ := heven _ hmem
    have hbegins : BeginsWithCode body := by
      rcases hheaded with ⟨t, ht, hcomment⟩ | hbegins
      · exact absurd (congrArg RawStatement.kind hcomment)
          (RawStatement.kind_ofTokens_ne_comment hends)
      · exact hbegins
    exact straight_ofSingle index hends hbegins hordered hpragmas hsame
  · intro index t inline _ _ _ span _ row hrow
    simp [Statement.frame, ofComment, Statement.rows, Body.rows] at hrow
  · intro s t inline hs _ _
    exact hs.congr (s.frame_setTrailing _)

end Assembly

/-- The statements of a source that is indented evenly are straight. -/
theorem Layout.straight_arrange
    {raws : List RawStatement} {statements : List Statement} (hgrouped : Grouped none raws)
    (heven : ∀ r ∈ raws, Assembly.Even f r) (h : arrange raws = .ok statements) :
    ∀ s ∈ statements, s.Straight f := by
  obtain ⟨built, hbuilt, rfl⟩ := map_eq_ok_iff.mp h
  have hstraight := Assembly.straight_assemble hgrouped heven hbuilt
  intro s hs
  have hframe : s.frame ∈ built.map Statement.frame := by
    have hkept := Bracket.map_reposition Bracket.frame_sweepStatement Bracket.frame_receive
      Statement.frame_setTrailing (assignLevels (levels raws) built)
    have hlevels : (assignLevels (levels raws) built).map Statement.frame =
        built.map Statement.frame := by
      rw [assignLevels, List.map_map]
      rfl
    rw [← hlevels, ← hkept]
    exact List.mem_map_of_mem hs
  obtain ⟨b, hb, hsame⟩ := List.mem_map.mp hframe
  exact (hstraight b hb).congr hsame.symm

/-! ## Formatting -/

namespace Rendering

/-- A token is printed in the same way wherever it stands. -/
theorem spelledAlike_of_text_eq
    {o : Options} {φ : Recast} (κ : Char → Char) (htext : ∀ t, (φ t).text = t.text)
    (previous before : Option Token) (ts : List Token) :
    SpelledAlike o o.keywordCase φ κ previous before ts := by
  induction ts generalizing previous before with
  | nil => trivial
  | cons t ts ih =>
      refine ⟨?_, ih (some t) previous⟩
      have hcase : o.withCase o.keywordCase = o := rfl
      rw [hcase]
      simp only [tokenText, Keyword.printed, φ.isStarComment, φ.isComment, φ.role, φ.isKeyword,
        htext]

end Rendering

/-- The statements of a source that is indented evenly can be printed in other columns. -/
theorem Layout.steady_arrange
    (o : Options) {source : Text} {filename : Option String} {raws : List RawStatement}
    {statements : List Statement} (heven : ∀ r ∈ raws, r.EvenlyIndented f)
    (hsplit : Source.split source filename = .ok raws) (h : arrange raws = .ok statements) :
    ∀ s ∈ statements, Rendering.Steady o o.keywordCase (Recast.indent f) id s := by
  obtain ⟨ts, hts, hraws⟩ := Source.tokens_of_split hsplit
  obtain ⟨hlines, hstands⟩ := stands_of_tokenizeLines hts
  have hrun := Unfinished.run_of_statements (Source.lexed_of_mem_tokens hts) hraws
  have hascending : ts.Pairwise fun t u => t.span.startLine ≤ u.span.startLine := by
    refine hstands.imp_of_mem ?_
    intro t u ht _ hbefore
    rw [← (hlines t ht).2]
    exact hbefore.1
  have hall : ∀ r ∈ raws, Assembly.Even f r := fun r hr =>
    { headed := (arrange_outcome hsplit).2 r hr
      ordered := ((hascending.filter _).sublist (by simpa using (hrun.draws r hr).body))
      pragmas := fun t ht => by
        have hmem := (hrun.draws r hr).pragmas ht
        rw [List.nil_append] at hmem
        exact (List.mem_filter.mp hmem).2
      even := heven r hr }
  have hstraight := straight_arrange (Source.grouped_of_split hsplit) hall h
  intro s hs
  obtain ⟨hlevel, hspan⟩ := isSome_place hsplit h s hs
  exact
    { level := hlevel
      span := hspan
      shift := fun cells hbody span hspan c hc hstar => by
        refine hstraight s hs (by simp [Statement.frame, hbody, Body.chain?]) span hspan
          (cells.map (·.token)) ?_ c.token (List.mem_map_of_mem hc) hstar
        cases cells with
        | nil => simp at hc
        | cons cell cells => simp [Statement.frame, Statement.rows, hbody, Body.rows]
      spelled := fun row _ => Rendering.spelledAlike_of_text_eq id (fun _ => rfl) none none row }

/-- Blanks in front of lines do not change how a source is formatted, if the lines of each statement
get the same number of blanks and lines that begin with an asterisk get none. -/
theorem format_indentLines
    (o : Options) {source : Text} {filename : Option String} {raws : List RawStatement}
    {statements : List Statement} {f : Nat → Nat}
    (hreturn : '\r' ∉ source) (hmark : source.head? ≠ some Source.byteOrderMark)
    (hsplit : Source.split source filename = .ok raws)
    (harrange : Layout.arrange raws = .ok statements)
    (heven : ∀ r ∈ raws, r.EvenlyIndented f)
    (hstar : ∀ p ∈ (Text.lines source).zipIdx 1, p.1.head? = some '*' → f p.2 = 0) :
    ∃ text, Layout.format o source filename = .ok { text } ∧
      Layout.format o (Text.indentLines f source) filename = .ok { text } := by
  have hblank : Text.isBlankText (Source.clean (Text.indentLines f source)) =
      Text.isBlankText (Source.clean source) := by
    rw [Source.clean_indentLines hreturn hmark, Source.clean_of_lineFeeds hreturn hmark,
      Source.isBlankText_indentLines hreturn]
  obtain ⟨text, text', hformat, hformat', hsame⟩ :=
    Layout.format_recast hblank (Source.tokens_indentLines hreturn hmark hstar) (.inl rfl) hsplit
      harrange (Layout.steady_arrange o heven hsplit harrange)
  rw [List.map_id, List.map_id] at hsame
  exact ⟨text, hformat, hsame ▸ hformat'⟩

/-- The case of a statement on two lines with a full-line comment between them, and of a chain with
a comment and a pragma. -/
theorem format_indentLines_chain :
    ∃ text,
      Layout.format .default
        "a = 1 +\n* half\n    b.\ndata: c, \x22 first\nd ##p.\n".toList none = .ok { text } ∧
      Layout.format .default
        "  a = 1 +\n* half\n      b.\n   data: c, \x22 first\n   d ##p.\n".toList none =
          .ok { text } := by
  generalize hf : (fun n => [0, 2, 0, 2, 3, 3].getD n 0) = f
  have hindented : Text.indentLines f
        "a = 1 +\n* half\n    b.\ndata: c, \x22 first\nd ##p.\n".toList =
      "  a = 1 +\n* half\n      b.\n   data: c, \x22 first\n   d ##p.\n".toList := by
    subst hf
    decide +kernel
  have hfound : (Source.split
      "a = 1 +\n* half\n    b.\ndata: c, \x22 first\nd ##p.\n".toList none).toOption.any
        (fun raws => (Layout.arrange raws).toOption.isSome &&
          raws.all fun r => decide (r.EvenlyIndented f)) = true := by
    subst hf
    decide +kernel
  obtain ⟨raws, hraws, hall⟩ := (Option.any_eq_true _ _).mp hfound
  rw [Bool.and_eq_true, List.all_eq_true, Option.isSome_iff_exists] at hall
  obtain ⟨⟨statements, hstatements⟩, heven⟩ := hall
  rw [← hindented]
  exact format_indentLines .default (by decide) (by decide) (eq_ok_of_toOption hraws)
    (eq_ok_of_toOption hstatements) (fun r hr => of_decide_eq_true (heven r hr))
    (by subst hf; decide +kernel)

end AbapLayout
