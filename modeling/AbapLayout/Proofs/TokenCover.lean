import AbapLayout.Proofs.TokenPlaces
import AbapLayout.Proofs.UnitText

/-!
# Tokens cover their line

The tokens of a line are its text but for blank characters: each is what stands in its columns, they
come one behind the other, and no column outside of them holds anything but a blank character
(`covers_of_tokenize`).  A comment takes the rest of the line.
-/

namespace AbapLayout

/-- The given tokens are the line with the given number, but for blank characters. -/
structure Covers (line : Nat) (t : Text) (ts : List Token) : Prop where
  /-- Every token is a stretch of the line, which is not empty. -/
  slice : ∀ u ∈ ts, u.span.startLine = line ∧ u.span.endLine = line ∧
    u.span.startColumn < u.span.endColumn ∧ u.span.endColumn ≤ t.length ∧
    u.text = (t.drop u.span.startColumn).take (u.span.endColumn - u.span.startColumn)
  /-- No token begins or ends in a blank character. -/
  inked : ∀ u ∈ ts, (∀ c, u.text.head? = some c → Text.isBlank c = false) ∧
    ∀ c, u.text.getLast? = some c → Text.isBlank c = false
  /-- The tokens come one behind the other. -/
  ordered : ts.Pairwise fun u v => u.span.endColumn ≤ v.span.startColumn
  /-- What stands in no token is blank. -/
  gaps : ∀ i c, t[i]? = some c →
    (∀ u ∈ ts, ¬(u.span.startColumn ≤ i ∧ i < u.span.endColumn)) → Text.isBlank c = true
  /-- A comment is the last token, and what stands behind it is blank. -/
  comment : ∀ before u behind, ts = before ++ u :: behind → u.isComment = true →
    behind = [] ∧ ∀ c ∈ t.drop u.span.endColumn, Text.isBlank c = true

/-! ## Columns of a token -/

section Columns

variable {line : Nat} {t : Text} {u : Token}

theorem Token.StandsIn.slice (h : u.StandsIn line [t]) (hline : u.span.startLine = line) :
    u.span.startColumn < u.span.endColumn ∧ u.span.endColumn ≤ t.length ∧
      u.text = (t.drop u.span.startColumn).take (u.span.endColumn - u.span.startColumn) := by
  have hend : u.span.endColumn = u.span.startColumn + u.text.length :=
    congrArg Span.endColumn h.span
  have htext : (t.drop u.span.startColumn).take u.text.length = u.text := by
    simpa [Token.textIn, restOfLine, hline] using h.text
  have hwidth := List.length_pos_iff.mpr h.ne_nil
  have hlength := congrArg List.length htext
  rw [List.length_take, List.length_drop] at hlength
  refine ⟨by omega, by omega, ?_⟩
  rw [hend, Nat.add_sub_cancel_left, htext]

theorem Token.StandsIn.endLine_eq (h : u.StandsIn line [t]) : u.span.endLine = u.span.startLine :=
  congrArg Span.endLine h.span

end Columns

/-! ## What stands between tokens -/

/-- Outside of the tokens into which the rest of a line is cut stand blank characters only. -/
theorem Cut.gaps
    {line column : Nat} {whole t : Text} {ts : List Token} (h : Cut line column t ts)
    (hwhole : whole.drop column = t) {i : Nat} {c : Char} (hi : column ≤ i)
    (hc : whole[i]? = some c)
    (hout : ∀ u ∈ ts, ¬(u.span.startColumn ≤ i ∧ i < u.span.endColumn)) :
    Text.isBlank c = true := by
  induction h with
  | done column =>
      have hlength := List.drop_eq_nil_iff.mp hwhole
      rw [List.getElem?_eq_none (by omega)] at hc
      simp at hc
  | @blank column d ds ts hd _ ih =>
      rcases Nat.eq_or_lt_of_le hi with rfl | hlt
      · have hhead := congrArg (·[0]?) hwhole
        simp only [List.getElem?_drop, Nat.add_zero, List.getElem?_cons_zero] at hhead
        rw [hc, Option.some.injEq] at hhead
        rwa [hhead]
      · exact ih (by rw [← List.drop_drop, hwhole, List.drop_succ_cons, List.drop_zero]) hlt hout
  | @token column role d ds rest ts _ _ _ ih =>
      obtain ⟨hfirst, hothers⟩ := List.forall_mem_cons.mp hout
      have hbehind : column + (ds.length + 1) ≤ i := by
        simp only [Token.onLine, Span.onLine, List.length_cons] at hfirst
        omega
      exact ih (by rw [← List.drop_drop, hwhole, List.drop_succ_cons, List.drop_left]) hbehind
        hothers

/-- Behind a sign comment stand blank characters only, and no token. -/
theorem Cut.comment
    {line column : Nat} {whole t : Text} {ts : List Token} (h : Cut line column t ts)
    (hwhole : whole.drop column = t) {before behind : List Token} {u : Token}
    (hts : ts = before ++ u :: behind) (hcomment : u.isComment = true) :
    behind = [] ∧ ∀ c ∈ whole.drop u.span.endColumn, Text.isBlank c = true := by
  induction h generalizing before with
  | done => simp at hts
  | blank _ _ ih =>
      exact ih (by rw [← List.drop_drop, hwhole, List.drop_succ_cons, List.drop_zero]) hts
  | @token column role d ds rest ts _ hm hcut ih =>
      have hnext : whole.drop (column + (ds.length + 1)) = rest := by
        rw [← List.drop_drop, hwhole, List.drop_succ_cons, List.drop_left]
      cases before with
      | nil =>
          rw [List.nil_append, List.cons.injEq] at hts
          obtain ⟨rfl, rfl⟩ := hts
          have hrole : role = .comment := by simpa [Token.isComment, Token.onLine] using hcomment
          rw [hrole] at hm
          have hblank := Lexeme.blank_of_measure_comment hm
          refine ⟨hcut.eq_nil_of_blank hblank, ?_⟩
          have hend : (Token.onLine role (d :: ds) line column).span.endColumn =
              column + (ds.length + 1) := rfl
          rwa [hend, hnext]
      | cons v before =>
          rw [List.cons_append, List.cons.injEq] at hts
          exact ih hnext hts.2

/-! ## Lines -/

theorem Text.isBlank_of_mem_drop
    {t : Text} {c : Char} (h : c ∈ t.drop (Text.trimRight t).length) :
    Text.isBlank c = true := by
  obtain ⟨s, hs, hblank⟩ := Text.eq_trimRight_append t
  have hdrop : (Text.trimRight t ++ s).drop (Text.trimRight t).length = s := List.drop_left
  rw [← hs] at hdrop
  exact hblank c (hdrop ▸ h)

section Lines

variable {line : Nat} {t : Text} {ts : List Token} (h : tokenize line t = .ok ts)
include h

theorem gaps_of_tokenize
    {i : Nat} {c : Char} (hc : t[i]? = some c)
    (hout : ∀ u ∈ ts, ¬(u.span.startColumn ≤ i ∧ i < u.span.endColumn)) :
    Text.isBlank c = true := by
  unfold tokenize at h
  split at h
  next cs =>
    injection h with h
    have hbehind : (Text.trimRight ('*' :: cs)).length ≤ i := by
      have hfirst := hout (Token.onLine .comment (Text.trimRight ('*' :: cs)) line 0) (by simp [← h])
      simp only [Token.onLine, Span.onLine] at hfirst
      omega
    obtain ⟨k, rfl⟩ := Nat.exists_eq_add_of_le hbehind
    rw [← List.getElem?_drop] at hc
    exact Text.isBlank_of_mem_drop (List.mem_of_getElem? hc)
  next => exact (cut_of_tokenizeFrom h).gaps List.drop_zero (Nat.zero_le i) hc hout

theorem comment_of_tokenize
    {before behind : List Token} {u : Token} (hts : ts = before ++ u :: behind)
    (hcomment : u.isComment = true) :
    behind = [] ∧ ∀ c ∈ t.drop u.span.endColumn, Text.isBlank c = true := by
  unfold tokenize at h
  split at h
  next cs =>
    injection h with h
    rw [hts] at h
    obtain ⟨rfl, hu, rfl⟩ : before = [] ∧ Token.onLine .comment _ line 0 = u ∧ behind = [] := by
      cases before with
      | nil => simpa [eq_comm] using h
      | cons v before => simp at h
    refine ⟨rfl, fun c hc => Text.isBlank_of_mem_drop (t := '*' :: cs) ?_⟩
    rw [← hu] at hc
    simpa [Token.onLine, Span.onLine] using hc
  next => exact (cut_of_tokenizeFrom h).comment List.drop_zero hts hcomment

end Lines

/-- The tokens of a line are the line, but for blank characters between them. -/
theorem covers_of_tokenize
    {line : Nat} {t : Text} {ts : List Token} (h : tokenize line t = .ok ts) :
    Covers line t ts := by
  obtain ⟨hstands, hordered⟩ := standsIn_of_tokenize h
  have hline : ∀ u ∈ ts, u.span.startLine = line := fun u hu => (hstands u hu).1
  refine ⟨fun u hu => ?_, fun u hu => ?_, ?_, fun i c hc hout => gaps_of_tokenize h hc hout,
    fun before u behind hts hcomment => comment_of_tokenize h hts hcomment⟩
  · obtain ⟨hhere, hstandsIn⟩ := hstands u hu
    exact ⟨hhere, hstandsIn.endLine_eq.trans hhere, hstandsIn.slice hhere⟩
  · obtain ⟨⟨c, cs, hbegins, hc⟩, ⟨init, d, hends, hd⟩⟩ :=
      Token.ends_of_unit (unit_of_mem_tokenize h u hu)
    refine ⟨fun e he => ?_, fun e he => ?_⟩
    · rw [hbegins, List.head?_cons, Option.some.injEq] at he
      exact he ▸ hc
    · rw [hends, List.getLast?_concat, Option.some.injEq] at he
      exact he ▸ hd
  · refine hordered.imp_of_mem fun hu hv hbefore => ?_
    rcases hbefore with hlt | ⟨-, hle⟩
    · rw [hline _ hu, hline _ hv] at hlt
      exact absurd hlt (Nat.lt_irrefl _)
    · exact hle

/-- A line with units of every sort: words with a component and an offset, a field symbol, an arrow,
brackets, literals, a template with a literal inside and an escaped bar, a pragma with an argument, a
character that is a word of its own, and a comment in front of blank characters. -/
def mixedLine : Text :=
  "  a-b+2 = <f>->m( \x60'\x60 && |x\x7b '\x7d' \x7d\\||, 'it''s' ) ##P[ ] : ½. \"#EC X\t ".toList

theorem covers_of_tokenize_mixed :
    ∃ ts, tokenize 7 mixedLine = .ok ts ∧ ts.length = 17 ∧ Covers 7 mixedLine ts := by
  have hlength : (tokenize 7 mixedLine).toOption.map List.length = some 17 := by
    decide +kernel
  obtain ⟨ts, hts, hcount⟩ := Option.map_eq_some_iff.mp hlength
  exact ⟨ts, eq_ok_of_toOption hts, hcount, covers_of_tokenize (eq_ok_of_toOption hts)⟩

end AbapLayout
