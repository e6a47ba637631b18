import AbapLayout.Proofs.Neighbours
import AbapLayout.Proofs.RecastDocument

/-!
# Sources in another case

A source and the same source with some letters in another case are cut into tokens at the same
places and with the same roles (`Source.tokens_map`).  Where the two sources differ is a list of
lines and columns, and at each of them stands at most one token.  So a source in which no letter of a
comment has changed has the tokens of the other one respelled (`Source.tokens_respell`).
-/

namespace AbapLayout

open Text (IsCaseMap)

variable {f : Char → Char}

/-! ## Literals -/

namespace Literal

theorem isQuote_map (hf : IsCaseMap f) (c : Char) : isQuote (f c) = isQuote c :=
  hf.class_eq (Text.class_of_isAlpha (b := false) (by decide)) c

/-- A quote is no letter. -/
theorem apply_eq_iff_of_isQuote
    (hf : IsCaseMap f) {q : Char} (hq : isQuote q = true) (c : Char) :
    f c = q ↔ c = q := by
  refine hf.apply_eq_iff ?_ c
  cases hletter : q.isAlpha with
  | false => rfl
  | true =>
      rw [Text.class_of_isAlpha (p := isQuote) (b := false) (by decide) q hletter] at hq
      simp at hq

theorem quotedLength_map
    (hf : IsCaseMap f) {q : Char} (hq : isQuote q = true) (cs : Text) :
    quotedLength q (cs.map f) = quotedLength q cs := by
  have hquote := apply_eq_iff_of_isQuote hf hq
  fun_induction quotedLength q cs with
  | case1 => rfl
  | case2 => simp [quotedLength, (hquote q).mpr rfl]
  | case3 ds ih => simp [quotedLength, (hquote q).mpr rfl, ih]
  | case4 d ds hd =>
      simp [quotedLength, (hquote q).mpr rfl, (hquote d).not.mpr hd]
  | case5 c cs hc ih =>
      rw [List.map_cons, quotedLength.eq_def]
      dsimp only
      rw [if_neg ((hquote c).not.mpr hc), ih]

theorem templateLength_map (hf : IsCaseMap f) (depth : Nat) (outer : List Nat) (cs : Text) :
    templateLength depth outer (cs.map f) = templateLength depth outer cs := by
  have hsign : ∀ {d : Char}, d.isAlpha = false → ∀ c, f c = d ↔ c = d := hf.apply_eq_iff
  have hback := hsign (d := '\x5c') (by decide)
  have hbar := hsign (d := '|') (by decide)
  have hopen := hsign (d := '\x7b') (by decide)
  have hclose := hsign (d := '\x7d') (by decide)
  have hquote := isQuote_map hf
  fun_induction templateLength depth outer cs with
  | case1 => rw [List.map_nil, templateLength]
  | case11 depth outer c cs _ _ _ _ hc fault hfault =>
      have hkept := (apply_eq_iff_of_isQuote hf hc c).mpr rfl
      rw [List.map_cons, hkept, templateLength.eq_def]
      simp_all [quotedLength_map hf hc]
  | case12 depth outer c cs _ _ _ _ hc n hn ih =>
      have hkept := (apply_eq_iff_of_isQuote hf hc c).mpr rfl
      rw [List.map_drop] at ih
      rw [List.map_cons, hkept, templateLength.eq_def]
      simp_all [quotedLength_map hf hc]
  | _ =>
      rw [List.map_cons, templateLength.eq_def]
      simp_all

end Literal

namespace Lexeme

theorem measure_map (hf : IsCaseMap f) (c : Char) (cs : Text) :
    measure (f c) (cs.map f) = measure c cs := by
  have hpragma : (if f c = '#' then Word.pragmaLength? (cs.map f) else none) =
      if c = '#' then Word.pragmaLength? cs else none := by
    rw [Word.pragmaLength?_map hf]
    simp only [hf.apply_eq_iff (d := '#') (by decide)]
  have hquoted : Literal.isQuote c = true →
      Literal.quotedLength (f c) (cs.map f) = Literal.quotedLength c cs := fun hc => by
    rw [(Literal.apply_eq_iff_of_isQuote hf hc c).mpr rfl, Literal.quotedLength_map hf hc]
  unfold measure
  rw [hpragma, Text.trimRight_map hf, List.length_map, Literal.isQuote_map hf,
    Literal.templateLength_map hf, measurePlain_map hf]
  simp only [hf.apply_eq_iff (d := '\x22') (by decide), hf.apply_eq_iff (d := '|') (by decide)]
  by_cases hc : Literal.isQuote c = true
  · rw [hquoted hc]
  · rw [if_neg hc, if_neg hc]

end Lexeme

/-! ## Tokens -/

/-- A token with its text in another case. -/
def Token.mapText (f : Char → Char) (t : Token) : Token :=
  { t with text := t.text.map f }

theorem tokenizeFrom_map (hf : IsCaseMap f) (line column : Nat) (t : Text) :
    tokenizeFrom line column (t.map f) =
      (tokenizeFrom line column t).map (List.map (Token.mapText f)) := by
  fun_induction tokenizeFrom line column t with
  | case1 column => rw [List.map_nil, tokenizeFrom]; rfl
  | case2 column c cs hc ih =>
      rw [List.map_cons, tokenizeFrom, Text.isBlank_map hf, if_pos hc, ih]
  | case3 column c cs hc fault hfault =>
      rw [List.map_cons, tokenizeFrom, Text.isBlank_map hf, if_neg hc, Lexeme.measure_map hf, hfault]
      rfl
  | case4 column c cs hc role n hmeasure ih =>
      rw [List.map_cons, tokenizeFrom, Text.isBlank_map hf, if_neg hc, Lexeme.measure_map hf,
        hmeasure]
      dsimp only
      rw [← List.map_drop, ih, ← List.map_take]
      cases tokenizeFrom line (column + (n + 1)) (cs.drop n) with
      | error fault => rfl
      | ok ts => simp [Except.map, Token.mapText, Token.onLine]

theorem tokenize_map (hf : IsCaseMap f) (line : Nat) (t : Text) :
    tokenize line (t.map f) = (tokenize line t).map (List.map (Token.mapText f)) := by
  have hstar := hf.apply_eq_iff (d := '*') (by decide)
  cases t with
  | nil => exact tokenizeFrom_map hf line 0 []
  | cons c cs =>
      by_cases hc : c = '*'
      · subst hc
        rw [List.map_cons, (hstar _).mpr rfl, tokenize, tokenize]
        have htrim := Text.trimRight_map hf ('*' :: cs)
        rw [List.map_cons, (hstar _).mpr rfl] at htrim
        simp [htrim, Except.map, Token.mapText, Token.onLine]
      · have hplain {d : Char} {ds : Text} (hd : d ≠ '*') :=
          @tokenize_eq_tokenizeFrom (d :: ds) (by simpa using hd) line
        rw [List.map_cons, hplain ((hstar c).not.mpr hc), hplain hc, ← List.map_cons,
          tokenizeFrom_map hf]

theorem tokenizeLines_map (hf : IsCaseMap f) (first : Nat) (ls : List Text) :
    tokenizeLines first (ls.map (List.map f)) =
      (tokenizeLines first ls).map (List.map (Token.mapText f)) := by
  induction ls generalizing first with
  | nil => rfl
  | cons l rest ih =>
      rw [List.map_cons, tokenizeLines, tokenizeLines, tokenize_map hf, ih]
      cases tokenize first l with
      | error fault => rfl
      | ok ts =>
          cases tokenizeLines (first + 1) rest with
          | error rejection => rfl
          | ok us => simp [Except.map]

/-! ## Sources -/

namespace Text

theorem unifyBreaks_map (hf : IsCaseMap f) (t : Text) :
    unifyBreaks (t.map f) = (unifyBreaks t).map f := by
  have hreturn : f '\r' = '\r' := (hf.apply_eq_iff (by decide) _).mpr rfl
  have hfeed := hf.apply_eq_iff (d := '\n') (by decide)
  fun_induction unifyBreaks t with
  | case1 => rfl
  | case2 rest ih =>
      rw [List.map_cons, List.map_cons, hreturn, (hfeed _).mpr rfl, unifyBreaks, if_pos rfl, ih,
        List.map_cons, (hfeed _).mpr rfl]
  | case3 cs hno ih =>
      rw [List.map_cons, hreturn, unifyBreaks, if_pos rfl, ih, List.map_cons, (hfeed _).mpr rfl]
      intro rest heq
      obtain ⟨d, ds, rfl, hd, -⟩ := List.map_eq_cons_iff.mp heq
      exact hno ds (congrArg (· :: ds) ((hfeed d).mp hd))
  | case4 c cs hc ih =>
      have hkept : f c ≠ '\r' := (hf.apply_eq_iff (by decide) c).not.mpr hc
      rw [List.map_cons, unifyBreaks.eq_def]
      dsimp only
      rw [if_neg hkept, ih, List.map_cons]

theorem lines_map (hf : IsCaseMap f) (t : Text) : lines (t.map f) = (lines t).map (List.map f) := by
  induction t with
  | nil => rfl
  | cons c cs ih =>
      rw [List.map_cons, lines, lines, ih]
      simp only [hf.apply_eq_iff (d := '\n') (by decide)]
      split
      · rfl
      · cases lines cs <;> rfl

end Text

namespace Source

theorem clean_map (hf : IsCaseMap f) (t : Text) : clean (t.map f) = (clean t).map f := by
  have hmark : (· == byteOrderMark) ∘ f = (· == byteOrderMark) :=
    funext (Word.beq_map hf (by decide))
  rw [clean, List.dropWhile_map, hmark, Text.unifyBreaks_map hf, clean]

/-- A source in another case has the same tokens in that case. -/
theorem tokens_map (hf : IsCaseMap f) (source : Text) :
    tokens (source.map f) = (tokens source).map (List.map (Token.mapText f)) := by
  rw [tokens, clean_map hf, Text.lines_map hf, tokenizeLines_map hf, tokens]

end Source

/-! ## Where two sources differ -/

namespace Source

/-- The places at which two sources differ. -/
def differences (source source' : Text) : List (Nat × Nat) :=
  (((Text.lines (clean source)).zip (Text.lines (clean source'))).zipIdx 1).flatMap fun p =>
    ((p.1.1.zip p.1.2).zipIdx.filter fun q => q.1.1 != q.1.2).map fun q => (p.2, q.2)

variable {source source' : Text}

theorem mem_differences
    {i j : Nat} {l l' : Text} {c c' : Char} (hl : (Text.lines (clean source))[i]? = some l)
    (hl' : (Text.lines (clean source'))[i]? = some l') (hc : l[j]? = some c)
    (hc' : l'[j]? = some c') (hne : c ≠ c') :
    (i + 1, j) ∈ differences source source' := by
  refine List.mem_flatMap.mpr ⟨((l, l'), i + 1), ?_, ?_⟩
  · rw [List.mk_mem_zipIdx_iff_le_and_getElem?_sub]
    exact ⟨by omega, List.getElem?_zip_eq_some.mpr ⟨hl, hl'⟩⟩
  · refine List.mem_map.mpr ⟨((c, c'), j), List.mem_filter.mpr ⟨?_, by simpa using hne⟩, rfl⟩
    rw [List.mk_mem_zipIdx_iff_le_and_getElem?_sub]
    exact ⟨by omega, List.getElem?_zip_eq_some.mpr ⟨hc, hc'⟩⟩

/-- The lines of two sources with the same letters have the same letters. -/
theorem map_lines_congr (hf : IsCaseMap f) (h : source'.map f = source.map f) :
    (Text.lines (clean source')).map (List.map f) = (Text.lines (clean source)).map (List.map f) := by
  rw [← Text.lines_map hf, ← Text.lines_map hf, ← clean_map hf, ← clean_map hf, h]

/-- A token at no place of which two sources differ has the same text in both. -/
theorem textIn_congr
    (hf : IsCaseMap f) (h : source'.map f = source.map f) {t : Token}
    (hstands : t.StandsIn 1 (Text.lines (clean source)))
    (hsame : ∀ place ∈ differences source source', t.span.holds place = false) :
    t.textIn 1 (Text.lines (clean source')) = t.text := by
  rw [← hstands.text, Token.textIn, Token.textIn]
  refine List.ext_getElem? fun j => ?_
  simp only [List.getElem?_take, restOfLine, List.getElem?_drop, List.getD_eq_getElem?_getD]
  split
  next hj =>
    have hline := congrArg (fun ls => ls[t.span.startLine - 1]?) (map_lines_congr hf h)
    simp only [List.getElem?_map] at hline
    cases hl : (Text.lines (clean source))[t.span.startLine - 1]? with
    | none =>
        rw [hl] at hline
        rw [Option.map_eq_none_iff.mp hline]
    | some l =>
        rw [hl] at hline
        obtain ⟨l', hl', hletters⟩ := Option.map_eq_some_iff.mp hline
        have hchar := congrArg (fun l => l[t.span.startColumn + j]?) hletters
        simp only [List.getElem?_map] at hchar
        simp only [hl', Option.getD_some]
        cases hc : l[t.span.startColumn + j]? with
        | none =>
            rw [hc] at hchar
            exact Option.map_eq_none_iff.mp hchar
        | some c =>
            rw [hc] at hchar
            obtain ⟨c', hc', -⟩ := Option.map_eq_some_iff.mp hchar
            rw [hc']
            refine congrArg some (Decidable.byContradiction fun hne => ?_)
            -- Where the two differ is a place of the token.
            have hplace := hsame _ (mem_differences hl hl' hc hc' fun heq => hne heq.symm)
            have hend := congrArg Span.endColumn hstands.span
            have hfirst := hstands.line
            simp only [Span.onLine] at hend
            simp only [Span.holds, Bool.and_eq_false_iff, beq_eq_false_iff_ne, ne_eq,
              decide_eq_false_iff_not] at hplace
            omega
  next => rfl

end Source

/-! ## Respelled tokens -/

/-- Tokens with the text that stands in some lines in their place, if it has the same letters. -/
def Recast.respell (lines : List Text) : Recast where
  toFun t :=
    if t.isComment = false ∧ (t.textIn 1 lines).map Char.toLower = t.text.map Char.toLower then
      { t with text := t.textIn 1 lines }
    else t
  shift _ := 0
  role_eq t := by split <;> rfl
  letters_eq t := by
    split
    next h => exact h.2
    next => rfl
  comment_eq t ht := by simp [ht]
  span_eq t := by split <;> rfl

theorem Recast.text_respell
    {lines : List Text} {t : Token} (h : t.textIn 1 lines = t.text) :
    (Recast.respell lines t).text = t.text := by
  simp only [Recast.respell]
  split
  next => exact h
  next => rfl

/-- A source in which only letters have another case, and none of a comment, has the tokens of the
other one respelled. -/
theorem Source.tokens_respell
    {source source' : Text} {ts : List Token}
    (h : source'.map Char.toLower = source.map Char.toLower) (hts : Source.tokens source = .ok ts)
    (hcomments : ∀ t ∈ ts, t.isComment = true →
      t.textIn 1 (Text.lines (clean source')) = t.text) :
    Source.tokens source' = .ok (ts.map (Recast.respell (Text.lines (clean source')))) := by
  have hlower := Recast.isCaseMap_toLower
  have hsame : (Source.tokens source').map (List.map (Token.mapText Char.toLower)) =
      .ok (ts.map (Token.mapText Char.toLower)) := by
    rw [← tokens_map hlower, h, tokens_map hlower, hts]
    rfl
  obtain ⟨ts', hts', hmap⟩ := map_eq_ok_iff.mp hsame
  have hstands := (standsIn_of_tokenizeLines hts').1
  have hrespelled : ∀ t ∈ ts, ∀ t' ∈ ts', t'.mapText Char.toLower = t.mapText Char.toLower →
      t' = Recast.respell (Text.lines (clean source')) t := by
    intro t ht t' ht' hmapped
    obtain ⟨role, text, span⟩ := t
    obtain ⟨role', text', span'⟩ := t'
    simp only [Token.mapText, Token.mk.injEq] at hmapped
    obtain ⟨rfl, hletters, rfl⟩ := hmapped
    have hlength := Text.length_of_map hletters
    have htext := (hstands _ ht').text
    simp only [Token.textIn, hlength] at htext
    simp only [Recast.respell, Token.textIn, htext]
    split
    next => rfl
    next hcomment =>
      have := hcomments _ ht (by simpa [hletters] using hcomment)
      simp only [Token.textIn, htext] at this
      rw [this]
  rw [hts']
  refine congrArg Except.ok (List.ext_getElem ?_ fun i hi hi' => ?_)
  · simpa using congrArg List.length hmap
  · rw [List.getElem_map]
    rw [List.length_map] at hi'
    have hget := congrArg (·[i]?) hmap
    simp only [List.getElem?_map, List.getElem?_eq_getElem hi, List.getElem?_eq_getElem hi',
      Option.map_some, Option.some.injEq] at hget
    exact hrespelled _ (List.getElem_mem hi') _ (List.getElem_mem hi) hget

end AbapLayout
