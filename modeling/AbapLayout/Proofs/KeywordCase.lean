import AbapLayout.Proofs.RecasedSource
import AbapLayout.Proofs.TokenOrder
import Mathlib.Data.List.Nodup

/-!
# The case of keywords

In which case keywords and pragmas are written does not show in a formatted source, and in which case
they are printed shows in their letters only (`format_keywordCase`).

A word is a keyword where it is read: between the two tokens in front of it in its row.  Every code
token of a source is read once (`Layout.reading_unique`), so a token that is not read as a keyword
stands at no place where a source may change, and is printed as it was.
-/

namespace AbapLayout

open Text (IsCaseMap)

/-! ## Texts in the configured case -/

namespace Text

theorem IsCaseMap.toLower_apply {f : Char → Char} (hf : IsCaseMap f) (c : Char) :
    (f c).toLower = c.toLower := by
  by_cases hc : c.toNat < 128
  · rcases hf with rfl | rfl | rfl
    · rfl
    · exact forall_ascii (P := fun c => c.toUpper.toLower = c.toLower) (by decide) c hc
    · exact forall_ascii (P := fun c => c.toLower.toLower = c.toLower) (by decide) c hc
  · rcases hf with rfl | rfl | rfl
    · rfl
    · rw [toUpper_of_not_ascii (by omega)]
    · have hkept := toLower_of_not_ascii (c := c) (by omega)
      rw [hkept, hkept]

/-- A text with the letters of an ASCII text is one. -/
theorem ascii_of_letters
    {t t' : Text} (h : ∀ c ∈ t, c.toNat < 128)
    (hletters : t'.map Char.toLower = t.map Char.toLower) :
    ∀ c ∈ t', c.toNat < 128 := by
  intro c hc
  refine Decidable.byContradiction fun hno => ?_
  have hmem : c.toLower ∈ t.map Char.toLower := hletters ▸ List.mem_map_of_mem hc
  obtain ⟨d, hd, heq⟩ := List.mem_map.mp hmem
  have hsmall : d.toLower.toNat < 128 :=
    forall_ascii (P := fun d => d.toLower.toNat < 128) (by decide) d (h d hd)
  rw [heq, toLower_of_not_ascii (c := c) (by omega)] at hsmall
  exact hno hsmall

end Text

namespace Keyword

variable {t t' : Text} (hascii : ∀ c ∈ t, c.toNat < 128)
include hascii

/-- Setting the case of a text keeps its letters. -/
theorem letters_setCase (k : KeywordCase) :
    (setCase k t).map Char.toLower = t.map Char.toLower := by
  obtain ⟨f, hf, hset⟩ := Text.setCase_of_ascii hascii k
  rw [hset, List.map_map]
  exact List.map_congr_left fun c _ => hf.toLower_apply c

/-- Texts with the same letters are the same text in either case. -/
theorem setCase_congr (hletters : t'.map Char.toLower = t.map Char.toLower) (k : KeywordCase) :
    setCase k t' = setCase k t := by
  cases k with
  | upper => exact Text.congr_of_map Text.upper_map_toLower hletters
  | lower =>
      have hascii' := Text.ascii_of_letters hascii hletters
      exact (Text.lowerAfter_of_ascii hascii' false).trans
        (hletters.trans (Text.lowerAfter_of_ascii hascii false).symm)

end Keyword

/-! ## Readings -/

/-- A token and the two tokens in front of it in its row, the nearer one first. -/
structure Reading where
  token : Token
  previous : Option Token
  before : Option Token
deriving DecidableEq, Repr

namespace Reading

def isKeyword (r : Reading) : Bool :=
  Keyword.isKeyword r.token r.previous r.before

def printed (o : Options) (r : Reading) : Text :=
  Rendering.tokenText o r.token r.previous r.before

def recast (φ : Recast) (r : Reading) : Reading :=
  ⟨φ r.token, r.previous.map φ, r.before.map φ⟩

variable {o : Options} {k : KeywordCase} {φ : Recast} {κ : Char → Char} {r : Reading}

/-- A token and its recast are printed with the same letters if those of keywords and pragmas agree
in the case they are printed in, and those of other tokens as they are written. -/
theorem printed_recast
    (hcase : (r.token.isPragma || r.isKeyword) = true →
      (Keyword.setCase k (φ r.token).text).map κ =
        (Keyword.setCase o.keywordCase r.token.text).map κ)
    (hkept : (r.token.isPragma || r.isKeyword) = false →
      (φ r.token).text.map κ = r.token.text.map κ) :
    ((r.recast φ).printed (o.withCase k)).map κ = (r.printed o).map κ := by
  have hsame : r.token.isComment = true → (φ r.token).text = r.token.text := φ.comment_eq r.token
  simp only [printed, recast, Rendering.tokenText, φ.isStarComment, φ.isComment]
  split
  next hstar =>
    rw [hsame (by simp_all [Token.isStarComment])]
  next =>
    split
    next hcomment =>
      rw [hsame hcomment]
      rfl
    next =>
      simp only [Keyword.printed, φ.role, φ.isKeyword]
      split
      next hyes => exact hcase hyes
      next hno => exact hkept (Bool.eq_false_iff.mpr hno)

theorem role_of_isKeyword (h : r.isKeyword = true) : r.token.role = .word := by
  unfold isKeyword Keyword.isKeyword at h
  simp only [Bool.and_eq_true, beq_iff_eq] at h
  exact h.1.1

theorem isCode_of_isKeyword (h : r.isKeyword = true) : r.token.isCode = true := by
  simp [Token.isCode, Token.isComment, Token.isPragma, role_of_isKeyword h]

/-- A word that is read as a keyword is an ASCII text. -/
theorem ascii_of_isKeyword (h : r.isKeyword = true) (hlexed : r.token.Lexed) :
    ∀ c ∈ r.token.text, c.toNat < 128 := by
  have hrole := role_of_isKeyword h
  have hunit : r.token.IsUnit := by
    rcases hlexed.unit with hunit | ⟨hstar, -⟩
    · exact hunit
    · simp [Token.isStarComment, Token.isComment, hrole] at hstar
  unfold isKeyword Keyword.isKeyword at h
  simp only [Bool.and_eq_true, beq_iff_eq] at h
  exact Keyword.ascii_of_spells hunit hrole h.1.2

end Reading

namespace Rendering

/-- The tokens of a row as they are read behind two others. -/
def readings (previous before : Option Token) : List Token → List Reading
  | [] => []
  | t :: ts => ⟨t, previous, before⟩ :: readings (some t) previous ts

theorem map_token_readings (previous before : Option Token) (ts : List Token) :
    (readings previous before ts).map (·.token) = ts := by
  induction ts generalizing previous before with
  | nil => rfl
  | cons t ts ih => rw [readings, List.map_cons, ih]

theorem spelledAlike_of_readings
    {o : Options} {k : KeywordCase} {φ : Recast} {κ : Char → Char}
    {previous before : Option Token} {ts : List Token}
    (h : ∀ r ∈ readings previous before ts,
      ((r.recast φ).printed (o.withCase k)).map κ = (r.printed o).map κ) :
    SpelledAlike o k φ κ previous before ts := by
  induction ts generalizing previous before with
  | nil => trivial
  | cons t ts ih =>
      obtain ⟨ht, hrest⟩ := List.forall_mem_cons.mp h
      exact ⟨ht, ih hrest⟩

end Rendering

namespace Layout

def readings (statements : List Statement) : List Reading :=
  (statements.flatMap Statement.rows).flatMap (Rendering.readings none none)

def keywords (statements : List Statement) : List Token :=
  ((readings statements).filter Reading.isKeyword).map (·.token)

variable {source : Text} {filename : Option String} {ts : List Token} {raws : List RawStatement}
  {statements : List Statement}

section Read

variable (hts : Source.tokens source = .ok ts) (hsplit : Source.split source filename = .ok raws)
  (harrange : arrange raws = .ok statements)
include hts hsplit harrange

/-- The code tokens of a source are read in their order, each once, and all tokens that are read are
tokens of the source. -/
theorem readings_spec :
    ((readings statements).map (·.token)).filter Token.isCode = ts.filter Token.isCode ∧
      ∀ r ∈ readings statements, r.token ∈ ts := by
  obtain ⟨ts', hts', hraws⟩ := Source.tokens_of_split hsplit
  obtain rfl : ts' = ts := Except.ok.inj (hts'.symm.trans hts)
  obtain ⟨-, hrows, -, hmem⟩ := arrange_spec hts hraws harrange
  have htokens : (readings statements).map (·.token) =
      (statements.flatMap Statement.rows).flatten := by
    rw [readings, List.map_flatMap, List.flatten_eq_flatMap]
    exact congrArg (List.flatMap · _) (funext fun row => Rendering.map_token_readings none none row)
  refine ⟨?_, fun r hr => ?_⟩
  · rw [htokens, hrows, Unfinished.filter_isCode_rows false (Source.lexed_of_mem_tokens hts)
      (by simp) (by simp) hraws]
    rfl
  · have hr : r.token ∈ (statements.flatMap Statement.rows).flatten :=
      htokens ▸ List.mem_map_of_mem hr
    obtain ⟨row, hrow, ht⟩ := List.mem_flatten.mp hr
    obtain ⟨s, hs, hrow⟩ := List.mem_flatMap.mp hrow
    exact hmem s hs row hrow _ ht

/-- A code token is read behind the same tokens wherever it is read. -/
theorem reading_unique
    {r r' : Reading} (hr : r ∈ readings statements) (hr' : r' ∈ readings statements)
    (h : r'.token = r.token) (hcode : r'.token.isCode = true) :
    r' = r := by
  have hnodup : (((readings statements).filter fun r => r.token.isCode).map (·.token)).Nodup := by
    have hcodes := (readings_spec hts hsplit harrange).1
    rw [List.filter_map] at hcodes
    exact hcodes ▸ (nodup_of_tokenizeLines hts).filter _
  exact List.inj_on_of_nodup_map hnodup (List.mem_filter.mpr ⟨hr', hcode⟩)
    (List.mem_filter.mpr ⟨hr, h ▸ hcode⟩) h

/-- A source that keeps its letters and its comments is formatted like the source respelled. -/
theorem format_respell
    {o : Options} {k : KeywordCase} {κ : Char → Char} (hκ : IsCaseMap κ) {source' : Text}
    (hletters : source'.map Char.toLower = source.map Char.toLower)
    (hcomments : ∀ t ∈ ts, t.isComment = true →
      t.textIn 1 (Text.lines (Source.clean source')) = t.text)
    (hprinted : ∀ r ∈ readings statements,
      ((r.recast (Recast.respell (Text.lines (Source.clean source')))).printed
        (o.withCase k)).map κ = (r.printed o).map κ) :
    ∃ text text', format o source filename = .ok { text } ∧
      format (o.withCase k) source' filename = .ok { text := text' } ∧
      text'.map κ = text.map κ := by
  have hblank : Text.isBlankText (Source.clean source') = Text.isBlankText (Source.clean source) := by
    refine Text.congr_of_map (Text.isBlankText_map Recast.isCaseMap_toLower) ?_
    rw [← Source.clean_map Recast.isCaseMap_toLower, hletters,
      Source.clean_map Recast.isCaseMap_toLower]
  have htokens := Source.tokens_respell hletters hts hcomments
  have hrecast : Source.tokens source' = (Source.tokens source).map
      (List.map (Recast.respell (Text.lines (Source.clean source')))) := by
    rw [htokens, hts]
    rfl
  refine format_recast hblank hrecast hκ hsplit harrange fun s hs => ?_
  obtain ⟨hlevel, hspan⟩ := isSome_place hsplit harrange s hs
  exact
    { level := hlevel
      span := hspan
      shift := fun _ _ _ _ _ _ _ => rfl
      spelled := fun row hrow => Rendering.spelledAlike_of_readings fun r hr =>
        hprinted r (List.mem_flatMap.mpr ⟨row, List.mem_flatMap.mpr ⟨s, hs, hrow⟩, hr⟩) }

/-- A source that differs in pragmas and keywords only keeps the text of all other tokens. -/
theorem textIn_of_unread
    {source' : Text} (hletters : source'.map Char.toLower = source.map Char.toLower)
    (hplaces : ∀ place ∈ Source.differences source source',
      ∃ t ∈ ts.filter Token.isPragma ++ keywords statements, t.span.holds place = true)
    {t : Token} (ht : t ∈ ts) (hpragma : t.isPragma = false)
    (hkeyword : ∀ r ∈ readings statements, r.token = t → r.isKeyword = false) :
    t.textIn 1 (Text.lines (Source.clean source')) = t.text := by
  refine Source.textIn_congr Recast.isCaseMap_toLower hletters
    ((standsIn_of_tokenizeLines hts).1 t ht) fun place hplace => ?_
  rw [Bool.eq_false_iff]
  intro hholds
  obtain ⟨u, hu, hholds'⟩ := hplaces place hplace
  rcases List.mem_append.mp hu with hu | hu
  · obtain ⟨hu, hchanged⟩ := List.mem_filter.mp hu
    rw [Token.eq_of_holds hts ht hu hholds hholds', hchanged] at hpragma
    simp at hpragma
  · obtain ⟨r, hr, rfl⟩ := List.mem_map.mp hu
    obtain ⟨hr, hread⟩ := List.mem_filter.mp hr
    have hmem := (readings_spec hts hsplit harrange).2 r hr
    have hno := hkeyword r hr (Token.eq_of_holds hts hmem ht hholds' hholds)
    rw [hread] at hno
    simp at hno

end Read

end Layout

/-- The case in which keywords and pragmas are written does not change how a source is formatted,
and the case in which they are printed changes only letters, if pragmas are ASCII texts. -/
theorem format_keywordCase
    {source : Text} {filename : Option String} {ts : List Token} {raws : List RawStatement}
    {statements : List Statement} (hts : Source.tokens source = .ok ts)
    (hsplit : Source.split source filename = .ok raws)
    (harrange : Layout.arrange raws = .ok statements)
    (hascii : ∀ t ∈ ts, t.isPragma = true → ∀ c ∈ t.text, c.toNat < 128) :
    (∀ (o : Options) (source' : Text),
      source'.map Char.toLower = source.map Char.toLower →
      (∀ place ∈ Source.differences source source',
        ∃ t ∈ ts.filter Token.isPragma ++ Layout.keywords statements,
          t.span.holds place = true) →
      ∃ text, Layout.format o source filename = .ok { text } ∧
        Layout.format o source' filename = .ok { text }) ∧
    ∀ o : Options, ∃ upper lower,
      Layout.format (o.withCase .upper) source filename = .ok { text := upper } ∧
      Layout.format (o.withCase .lower) source filename = .ok { text := lower } ∧
      upper.map Char.toLower = lower.map Char.toLower := by
  obtain ⟨-, hread⟩ := Layout.readings_spec hts hsplit harrange
  have hlexed := Source.lexed_of_mem_tokens hts
  have hstands := (standsIn_of_tokenizeLines hts).1
  have hasciiRead : ∀ r ∈ Layout.readings statements,
      (r.token.isPragma || r.isKeyword) = true → ∀ c ∈ r.token.text, c.toNat < 128 := by
    intro r hr hrecased
    rcases Bool.or_eq_true_iff.mp hrecased with hpragma | hkeyword
    · exact hascii _ (hread r hr) hpragma
    · exact r.ascii_of_isKeyword hkeyword (hlexed _ (hread r hr))
  refine ⟨fun o source' hletters hplaces => ?_, fun o => ?_⟩
  · have hkept := fun {t} => @Layout.textIn_of_unread _ _ _ _ _ hts hsplit harrange _ hletters
      hplaces t
    have hcomments : ∀ t ∈ ts, t.isComment = true →
        t.textIn 1 (Text.lines (Source.clean source')) = t.text := by
      intro t ht hcomment
      refine hkept ht (Unfinished.isPragma_eq_false_of_isComment hcomment) ?_
      rintro r - rfl
      rw [Bool.eq_false_iff]
      intro hkeyword
      have hcode := r.isCode_of_isKeyword hkeyword
      rw [Token.isCode_eq_false_of_isComment _ hcomment] at hcode
      simp at hcode
    obtain ⟨text, text', hformat, hformat', hsame⟩ :=
      Layout.format_respell hts hsplit harrange (o := o) (k := o.keywordCase) (.inl rfl) hletters
        hcomments fun r hr => Reading.printed_recast
          (fun hrecased => by
            rw [Keyword.setCase_congr (hasciiRead r hr hrecased) (Recast.letters_eq _ r.token)])
          (fun hother => by
            obtain ⟨hpragma, hname⟩ := Bool.or_eq_false_iff.mp hother
            have hunread : ∀ r' ∈ Layout.readings statements, r'.token = r.token →
                r'.isKeyword = false := by
              intro r' hr' htoken
              rw [Bool.eq_false_iff]
              intro hkeyword
              rw [← Layout.reading_unique hts hsplit harrange hr hr' htoken
                (r'.isCode_of_isKeyword hkeyword), hkeyword] at hname
              simp at hname
            rw [Recast.text_respell (hkept (hread r hr) hpragma hunread)])
    rw [List.map_id, List.map_id] at hsame
    exact ⟨text, hformat, hsame ▸ hformat'⟩
  · obtain ⟨upper, lower, hupper, hlower, hsame⟩ :=
      Layout.format_respell hts hsplit harrange (o := o.withCase .upper)
        (k := .lower) Recast.isCaseMap_toLower rfl (fun t ht _ => (hstands t ht).text)
        fun r hr => Reading.printed_recast
          (fun hrecased => by
            rw [Recast.text_respell (hstands _ (hread r hr)).text,
              Keyword.letters_setCase (hasciiRead r hr hrecased),
              Keyword.letters_setCase (hasciiRead r hr hrecased)])
          (fun _ => by rw [Recast.text_respell (hstands _ (hread r hr)).text])
    exact ⟨upper, lower, hupper, hlower, hsame.symm⟩

/-- The case of a chain with a pragma and of a comparison, where `eq` is a keyword and `data` behind
the arrow is none. -/
theorem format_keywordCase_comparison :
    (∃ text,
      Layout.format .default
        "data: a type i ##needed,\nb.\nif a eq me->data.\nendif.\n".toList none = .ok { text } ∧
      Layout.format .default
        "DATA: a Type i ##NEEDED,\nb.\nIf a EQ me->data.\nEndIf.\n".toList none =
          .ok { text }) ∧
    ∃ upper lower,
      Layout.format (Options.default.withCase .upper)
        "data: a type i ##needed,\nb.\nif a eq me->data.\nendif.\n".toList none =
          .ok { text := upper } ∧
      Layout.format (Options.default.withCase .lower)
        "data: a type i ##needed,\nb.\nif a eq me->data.\nendif.\n".toList none =
          .ok { text := lower } ∧
      upper.map Char.toLower = lower.map Char.toLower := by
  have hfound : ((Source.tokens
      "data: a type i ##needed,\nb.\nif a eq me->data.\nendif.\n".toList).toOption.any fun ts =>
      (Source.split
        "data: a type i ##needed,\nb.\nif a eq me->data.\nendif.\n".toList none).toOption.any
        fun raws => (Layout.arrange raws).toOption.any fun statements =>
          (ts.all fun t => !t.isPragma || t.text.all fun c => decide (c.toNat < 128)) &&
          (Source.differences
            "data: a type i ##needed,\nb.\nif a eq me->data.\nendif.\n".toList
            "DATA: a Type i ##NEEDED,\nb.\nIf a EQ me->data.\nEndIf.\n".toList).all fun place =>
              (ts.filter Token.isPragma ++ Layout.keywords statements).any fun t =>
                t.span.holds place) = true := by
    decide +kernel
  obtain ⟨ts, hts, hfound⟩ := (Option.any_eq_true _ _).mp hfound
  obtain ⟨raws, hraws, hfound⟩ := (Option.any_eq_true _ _).mp hfound
  obtain ⟨statements, hstatements, hfound⟩ := (Option.any_eq_true _ _).mp hfound
  obtain ⟨hascii, hplaces⟩ := Bool.and_eq_true_iff.mp hfound
  obtain ⟨hblind, hletters⟩ := format_keywordCase (eq_ok_of_toOption hts)
    (eq_ok_of_toOption hraws) (eq_ok_of_toOption hstatements) fun t ht hpragma c hc => by
      have hall := List.all_eq_true.mp hascii t ht
      rw [hpragma, Bool.not_true, Bool.false_or, List.all_eq_true] at hall
      exact of_decide_eq_true (hall c hc)
  exact ⟨hblind .default _ (by decide +kernel) fun place hplace =>
    List.any_eq_true.mp (List.all_eq_true.mp hplaces place hplace), hletters .default⟩

end AbapLayout
