import AbapLayout.Layout.Rendering
import AbapLayout.Proofs.Rereading
import AbapLayout.Proofs.TokenPlaces

/-!
# Neighbours in the source and in print

`Token.Placed` says where a token stands in its source, so that of two tokens that touch one is seen
behind the other.  `Token.Behind` says what may stand behind a token in print: nothing, a blank, the
sign of a comment, or directly another token, if the spacing rules let the two touch.  From both it
follows how a printed token is read again: as it was written, except for what `Lexeme.Misread` says
(`Token.Behind.measure_code`, `Token.Behind.measure_pragma`).
-/

namespace AbapLayout

open Text Lexeme

/-! ## Places in the source -/

namespace Token

/-- A token stands where its span says, and is measured there. -/
def Placed (rest : Nat → Nat → Text) (t : Token) : Prop :=
  ∃ c cs, t.text = c :: cs ∧ isBlank c = false ∧
    rest t.span.startLine t.span.startColumn =
      t.text ++ rest t.span.endLine t.span.endColumn ∧
    measure c (cs ++ rest t.span.endLine t.span.endColumn) = .ok (t.role, cs.length)

/-- What stands behind a token in the source. -/
def after (rest : Nat → Nat → Text) (t : Token) : Text :=
  rest t.span.endLine t.span.endColumn

variable {rest : Nat → Nat → Text}

theorem Placed.after_of_touches
    {t u : Token} (hu : u.Placed rest) (htouches : t.span.touches u.span = true) :
    t.after rest = u.text ++ u.after rest := by
  obtain ⟨c, cs, -, -, hrest, -⟩ := hu
  simp only [Span.touches, Bool.and_eq_true, beq_iff_eq] at htouches
  rw [after, htouches.1, ← htouches.2, hrest]
  rfl

theorem Placed.isUnit {t : Token} (h : t.Placed rest) : t.IsUnit := by
  obtain ⟨c, cs, htext, hc, -, hmeasure⟩ := h
  exact ⟨c, cs, _, htext, hc, hmeasure⟩

end Token

theorem Cut.placed
    {line column : Nat} {t : Text} {ts : List Token} {rest : Nat → Nat → Text}
    (h : Cut line column t ts) (hrest : ∀ k, rest line (column + k) = t.drop k) :
    ∀ u ∈ ts, u.Placed rest := by
  induction h with
  | done => simp
  | @blank column c cs ts _ _ ih =>
      refine ih fun k => ?_
      rw [Nat.add_assoc, Nat.add_comm 1, hrest]
      rfl
  | @token column role c cs more ts hc hmeasure _ ih =>
      have hafter : rest line (column + (cs.length + 1)) = more := by
        rw [hrest, List.drop_succ_cons, List.drop_left]
      intro u hu
      rw [List.mem_cons] at hu
      rcases hu with rfl | hu
      · refine ⟨c, cs, rfl, hc, ?_, ?_⟩
        · have hstart := hrest 0
          simp only [Token.onLine, Span.onLine, List.length_cons]
          rw [hafter]
          simpa using hstart
        · simp only [Token.onLine, Span.onLine, List.length_cons]
          rw [hafter]
          exact hmeasure
      · refine ih (fun k => ?_) u hu
        have hk := hrest (cs.length + 1 + k)
        rw [show cs.length + 1 + k = (cs.length + k) + 1 by omega, List.drop_succ_cons,
          List.drop_append, List.drop_of_length_le (by omega), List.nil_append,
          Nat.add_sub_cancel_left] at hk
        rw [← hk]
        congr 1
        omega

/-- The tokens of a source stand where their spans say. -/
theorem placed_of_tokenizeLines
    {first : Nat} {lines : List Text} {ts : List Token}
    (h : tokenizeLines first lines = .ok ts) :
    ∀ t ∈ ts, t.isStarComment = false → t.Placed (restOfLine first lines) := by
  have hmain : ∀ (lines : List Text) (n : Nat) (ts : List Token) (rest : Nat → Nat → Text),
      tokenizeLines n lines = .ok ts →
      (∀ line column, n ≤ line → rest line column = restOfLine n lines line column) →
      ∀ t ∈ ts, t.isStarComment = false → t.Placed rest := by
    intro lines
    induction lines with
    | nil =>
        intro n ts rest h _
        injection h with h
        simp [← h]
    | cons l more ih =>
        intro n ts rest h hrest
        rw [tokenizeLines] at h
        split at h
        · simp at h
        next tokens htokens =>
          obtain ⟨others, hothers, rfl⟩ := map_eq_ok_iff.mp h
          intro t ht hstar
          rcases List.mem_append.mp ht with ht | ht
          · unfold tokenize at htokens
            split at htokens
            next cs =>
              injection htokens with htokens
              rw [← htokens, List.mem_singleton] at ht
              have hhead := Text.head?_trimRight (c := '*') (by decide) cs
              simp [ht, Token.isStarComment, Token.isComment, Token.onLine, hhead] at hstar
            next =>
              refine (cut_of_tokenizeFrom htokens).placed ?_ t ht
              intro k
              rw [hrest n _ (Nat.le_refl n), restOfLine, Nat.sub_self, Nat.zero_add]
              rfl
          · refine ih (n + 1) others rest hothers ?_ t ht hstar
            intro line column hline
            rw [hrest line column (by omega), restOfLine, restOfLine,
              show line - n = (line - (n + 1)) + 1 by omega]
            rfl
  exact hmain lines first ts _ h fun _ _ _ => rfl

/-! ## Neighbours in print -/

namespace Token

/-- Tokens between which the spacing rules ask for no blank. -/
def MayTouch (t u : Token) : Prop :=
  u.role = .punctuation ∨ u.role = .comment ∨ u.role = .arrow ∨ u.role = .colon ∨
    t.role = .arrow ∨
    (t.isOneOf Spacing.stickyTexts = true ∨ u.isOneOf Spacing.stickyTexts = true) ∧
      t.span.touches u.span = true

/-- Behind a pragma stand pragmas and the terminator only. -/
def YieldsTo (t u : Token) : Prop :=
  t.isPragma = true → u.isPragma = true ∨ u.role = .punctuation

theorem mayTouch_of_printed_eq_zero
    {o : Options} {wanted : Option Nat} {t u : Token}
    (h : Spacing.printed o wanted u (some t) = 0) :
    t.MayTouch u := by
  have hleast : Spacing.minimum o u (some t) = 0 := by
    unfold Spacing.printed at h
    dsimp only at h
    split at h
    · omega
    · split at h
      next hzero => exact hzero
      next => omega
  unfold Spacing.minimum at hleast
  dsimp only at hleast
  split at hleast
  next hrole => exact .inl hrole
  next hrole => exact .inr (.inl hrole)
  next hrole => exact .inr (.inr (.inl hrole))
  next =>
    split at hleast
    next hor =>
      rcases hor with hrole | hrole
      · exact .inr (.inr (.inr (.inr (.inl hrole))))
      · exact .inr (.inr (.inr (.inl hrole)))
    next =>
      split at hleast
      next hsticky =>
        rw [Bool.or_eq_true] at hsticky
        split at hleast
        next htouches => exact .inr (.inr (.inr (.inr (.inr ⟨hsticky.symm, htouches⟩))))
        next => simp at hleast
      next => simp at hleast

/-- What may stand behind a token of a source on its printed line. -/
inductive Behind (o : Options) (ts : List Token) : Token → Text → Prop where
  | nothing (t : Token) : Behind o ts t []
  | blank (t : Token) (cs : Text) : Behind o ts t (' ' :: cs)
  | sign (t : Token) (cs : Text) : Behind o ts t (Comment.sign :: cs)
  | joined {t u : Token} {b : Text} (previous before : Option Token) :
      t.MayTouch u → t.YieldsTo u → u ∈ ts → u.isStarComment = false → Behind o ts u b →
      Behind o ts t (Rendering.tokenText o u previous before ++ b)

/-! ## The first characters of printed tokens -/

theorem measurePlain_of_measure
    {t : Token} {c : Char} {cs : Text} {n : Nat} (h : measure c cs = .ok (t.role, n))
    (hcode : t.isCode = true) (hliteral : t.role ≠ .literal) :
    measurePlain c cs = (t.role, n) := by
  rw [isCode, isComment, isPragma] at hcode
  rcases measure_cases h with
    ⟨-, hrole, -⟩ | ⟨-, hrole, -⟩ | ⟨-, hrole, -⟩ | ⟨-, hrole, -⟩ | ⟨-, hplain⟩
  · simp [hrole] at hcode
  · exact absurd hrole hliteral
  · exact absurd hrole hliteral
  · simp [hrole] at hcode
  · exact hplain

/-- An arrow is one of three texts. -/
theorem text_of_arrow
    {t : Token} (h : t.IsUnit) (hrole : t.role = .arrow) :
    ∃ op ∈ Word.arrows, t.text = op.toList := by
  obtain ⟨c, cs, rest, htext, -, hmeasure⟩ := h
  have hplain := measurePlain_of_measure hmeasure
    (by simp [isCode, isComment, isPragma, hrole]) (by simp [hrole])
  rcases text_of_measurePlain hplain with
    ⟨halone, rfl⟩ | hname | ⟨op, hop, hopText, hopRole⟩ | ⟨-, hword, -⟩
  · have hclass : ∀ d ∈ ".,:()[]\x7b\x7d<".toList, standsAlone d = true →
        (measurePlain d []).1 ≠ .arrow :=
      forall_mem_of_all (by decide)
    rw [measurePlain_of_standsAlone halone] at hplain
    exact absurd ((Prod.mk.inj hplain).1.trans hrole) (hclass c (mem_of_standsAlone halone) halone)
  · have := (measurePlain_name hname hplain (b := []) (by simp [Stops]) (.inl rfl)).1
    simp [hrole] at this
  · refine ⟨op, ?_, by rw [htext, hopText]⟩
    rw [hrole, operatorRole] at hopRole
    split at hopRole
    next hmem => exact List.contains_iff_mem.mp hmem
    next => simp at hopRole
  · simp [hrole] at hword

theorem isCode_of_head
    {t : Token} (h : t.IsUnit) {c : Char} {cs : Text} (htext : t.text = c :: cs)
    (hsign : c ≠ Comment.sign) (hnumber : c ≠ '#') :
    t.isCode = true := by
  obtain ⟨d, ds, rest, htext', -, hmeasure⟩ := h
  rw [htext] at htext'
  injection htext' with hc
  rw [isCode, isComment, isPragma, Bool.and_eq_true, Bool.not_eq_true', Bool.not_eq_true',
    beq_eq_false_iff_ne, beq_eq_false_iff_ne]
  constructor
  · intro hrole
    rw [hrole] at hmeasure
    exact hsign (hc.trans (measure_comment hmeasure).1)
  · intro hrole
    rw [hrole] at hmeasure
    exact hnumber (hc.trans (measure_pragma hmeasure).1)

/-- A token of code is printed as it is written, or in another case. -/
theorem tokenText_of_isCode
    (o : Options) {t : Token} (previous before : Option Token) (h : t.IsUnit)
    (hcode : t.isCode = true) :
    ∃ f, IsCaseMap f ∧ (f = id ∨ t.role = .word) ∧
      Rendering.tokenText o t previous before = t.text.map f ∧
      Text.upper (t.text.map f) = t.upper := by
  rw [isCode, Bool.and_eq_true, Bool.not_eq_true', Bool.not_eq_true'] at hcode
  rw [Rendering.tokenText, if_neg (by simp [isStarComment, hcode.1]), if_neg (by simp [hcode.1])]
  exact Keyword.exists_caseMap o previous before h hcode.2

/-- A pragma is printed in the case of the keywords. -/
theorem tokenText_of_isPragma
    (o : Options) {t : Token} (previous before : Option Token) (h : t.isPragma = true) :
    Rendering.tokenText o t previous before = Keyword.setCase o.keywordCase t.text := by
  have hrole : t.role = .pragma := by simpa [isPragma] using h
  rw [Rendering.tokenText, if_neg (by simp [isStarComment, isComment, hrole]),
    if_neg (by simp [isComment, hrole]), Keyword.printed, if_pos (by simp [hrole])]

/-- A printed token begins as it is written, or with a letter in place of a letter. -/
theorem Lexed.head_tokenText
    (o : Options) {t : Token} (previous before : Option Token)
    (h : t.Lexed) (hstar : t.isStarComment = false) :
    ∃ c cs d ds, t.text = c :: cs ∧ Rendering.tokenText o t previous before = d :: ds ∧
      (d = c ∨ c.isAlpha = true ∧ d.isAlpha = true) := by
  have hunit : t.IsUnit := h.unit.resolve_right fun hno => by simp [hstar] at hno
  have ⟨c, cs, rest, htext, _, hmeasure⟩ := hunit
  rw [Rendering.tokenText, if_neg (by simp [hstar])]
  cases hcomment : t.isComment with
  | true =>
      have hrole : t.role = .comment := by simpa [isComment] using hcomment
      rw [hrole] at hmeasure
      have hc : c = Comment.sign := (measure_comment hmeasure).1
      have hline := h.oneLine
      rw [htext, oneLine_cons] at hline
      obtain ⟨comment, -, hnormal⟩ := CommentText.normalize_sign o hline.2
      exact ⟨c, cs, Comment.sign, comment, htext, by rw [if_pos rfl, htext, hc, hnormal],
        .inl hc.symm⟩
  | false =>
      rw [if_neg (by simp)]
      cases hpragma : t.isPragma with
      | true =>
          have hrole : t.role = .pragma := by simpa [isPragma] using hpragma
          rw [hrole] at hmeasure
          have hc := (measure_pragma hmeasure).1
          have hrecased := recased_setCase o.keywordCase t.text
          rw [htext, hc] at hrecased
          obtain ⟨ds, hds, -⟩ := hrecased.cons_inv (by decide)
          refine ⟨c, cs, '#', ds, htext, ?_, .inl hc.symm⟩
          rw [Keyword.printed, if_pos (by simp [hrole]), htext, hc, hds]
      | false =>
          obtain ⟨f, hf, -, hprinted, -⟩ :=
            Keyword.exists_caseMap o previous before hunit hpragma
          exact ⟨c, cs, f c, cs.map f, htext, by rw [hprinted, htext]; rfl, hf.apply c⟩

/-! ## What stands behind a token in print -/

theorem isAlpha_of_mem_stopChars : ∀ d ∈ stopChars, d.isAlpha = false :=
  forall_mem_of_all (by decide)

/-- Tokens of a text that stand where their spans say. -/
structure Standing (rest : Nat → Nat → Text) (ts : List Token) : Prop where
  lexed : ∀ t ∈ ts, t.Lexed
  placed : ∀ t ∈ ts, t.isStarComment = false → t.Placed rest

/-- A token that may touch another without being sticky begins with a sign that stops a word. -/
theorem MayTouch.head
    {t u : Token} (h : t.MayTouch u) (hu : u.Lexed) (hstar : u.isStarComment = false)
    (harrow : t.role ≠ .arrow) :
    (∃ d ds, u.text = d :: ds ∧ d ∈ stopChars) ∨
      isSticky t.text = true ∧ t.span.touches u.span = true := by
  have hunit : u.IsUnit := hu.unit.resolve_right fun hno => by simp [hstar] at hno
  have hsticky : ∀ s ∈ Spacing.stickyTexts, s.toList.head?.any stopChars.contains = true := by
    decide
  have harrows : ∀ op ∈ Word.arrows, op.toList.head?.any stopChars.contains = true := by
    decide
  have hfirst : ∀ {w : Text}, w.head?.any stopChars.contains = true →
      ∃ d ds, w = d :: ds ∧ d ∈ stopChars := by
    intro w hhead
    cases w with
    | nil => simp at hhead
    | cons d ds => exact ⟨d, ds, rfl, by simpa using hhead⟩
  rcases h with hrole | hrole | hrole | hrole | hrole | ⟨hor, htouches⟩
  · left
    rcases hunit.separator_iff.1.mp hrole with htext | htext
    · exact ⟨'.', [], htext, by decide⟩
    · exact ⟨',', [], htext, by decide⟩
  · left
    obtain ⟨c, cs, more, htext, -, hmeasure⟩ := hunit
    rw [hrole] at hmeasure
    exact ⟨c, cs, htext, by rw [(measure_comment hmeasure).1]; decide⟩
  · left
    obtain ⟨op, hop, htext⟩ := text_of_arrow hunit hrole
    exact hfirst (by rw [htext, harrows op hop])
  · exact .inl ⟨':', [], hunit.separator_iff.2.mp hrole, by decide⟩
  · exact absurd hrole harrow
  · rcases hor with ht | hu
    · exact .inr ⟨ht, htouches⟩
    · left
      have hhead := hsticky _ (List.contains_iff_mem.mp hu)
      rw [String.toList_ofList] at hhead
      exact hfirst hhead

namespace Behind

variable {o : Options} {ts : List Token}

/-- Behind a token that is no arrow stands a sign that stops a word, or what stood behind it in the
source. -/
theorem head
    {t : Token} {b : Text} (h : Behind o ts t b) (hts : Standing rest ts)
    (harrow : t.role ≠ .arrow) {d : Char} (hd : b.head? = some d) :
    d ∈ stopChars ∨ isSticky t.text = true ∧
      ∃ c, (t.after rest).head? = some c ∧ (d = c ∨ c.isAlpha = true ∧ d.isAlpha = true) := by
  cases h with
  | nothing => simp at hd
  | blank =>
      injection hd with hd
      exact .inl (by rw [← hd]; decide)
  | sign =>
      injection hd with hd
      exact .inl (by rw [← hd]; decide)
  | @joined _ u b previous before hmay _ hu hstar _ =>
      have hlexed := hts.lexed u hu
      obtain ⟨c, cs, e, es, htext, hprinted, hsame⟩ := hlexed.head_tokenText o previous before hstar
      rw [hprinted, List.cons_append, List.head?_cons, Option.some.injEq] at hd
      subst hd
      rcases hmay.head hlexed hstar harrow with ⟨c', cs', htext', hstop⟩ | ⟨hsticky, htouches⟩
      · rw [htext] at htext'
        injection htext' with hc
        subst hc
        left
        rcases hsame with heq | ⟨halpha, -⟩
        · rwa [heq]
        · simp [isAlpha_of_mem_stopChars c hstop] at halpha
      · right
        refine ⟨hsticky, c, ?_, hsame⟩
        rw [(hts.placed u hu hstar).after_of_touches htouches, htext]
        rfl

theorem stops
    {t : Token} {b : Text} (h : Behind o ts t b) (hts : Standing rest ts)
    (harrow : t.role ≠ .arrow) (hsticky : isSticky t.text = false) :
    Stops b := by
  intro d hd
  rcases h.head hts harrow hd with hstop | ⟨hyes, -⟩
  · exact hstop
  · simp [hsticky] at hyes

/-- A class that holds neither of the signs that stop a word nor of what stood behind a token in the
source does not hold of what stands behind it in print. -/
theorem head_class
    {t : Token} {b : Text} (h : Behind o ts t b) (hts : Standing rest ts)
    (harrow : t.role ≠ .arrow) {p : Char → Bool} {v : Bool}
    (hp : ∀ c : Char, c.isAlpha = true → p c = v) (hstop : ∀ d ∈ stopChars, p d = false)
    (hsource : ∀ c, (t.after rest).head? = some c → p c = false) {d : Char}
    (hd : b.head? = some d) :
    p d = false := by
  rcases h.head hts harrow hd with hmem | ⟨-, c, hc, rfl | ⟨hc', hd'⟩⟩
  · exact hstop d hmem
  · exact hsource d hc
  · rw [hp d hd', ← hp c hc', hsource c hc]

end Behind

/-- A plus sign or hyphen that touches a word in print is a token of its own that touches it in the
source, or the hyphen begins an arrow. -/
theorem MayTouch.sign
    {t u : Token} (h : t.MayTouch u) (hu : u.IsUnit) (harrow : t.role ≠ .arrow)
    (hsticky : isSticky t.text = false) {d : Char} {ds : Text} (htext : u.text = d :: ds)
    (hd : d = '-' ∨ d = '+') :
    u.role = .arrow ∧ d = '-' ∧ ds.head? = some '>' ∨
      u.role ≠ .arrow ∧ ds = [] ∧ t.span.touches u.span = true := by
  have harrows : ∀ op ∈ Word.arrows, op.toList.head? = some '=' ∨
      op.toList.head? = some '-' ∧ op.toList.tail.head? = some '>' := by
    decide
  have hstickies : ∀ s ∈ Spacing.stickyTexts, s.toList.tail = [] ∧ s ∉ Word.arrows := by
    decide
  rcases h with hrole | hrole | hrole | hrole | hrole | ⟨hor, htouches⟩
  · rcases hu.separator_iff.1.mp hrole with htext' | htext' <;>
      rw [htext'] at htext <;> injection htext with hc <;> rw [← hc] at hd <;> simp at hd
  · obtain ⟨c, cs, more, htext', -, hmeasure⟩ := hu
    rw [hrole] at hmeasure
    rw [htext', (measure_comment hmeasure).1] at htext
    injection htext with hc
    rw [← hc] at hd
    simp at hd
  · left
    obtain ⟨op, hop, htext'⟩ := text_of_arrow hu hrole
    have hclass := harrows op hop
    rw [← htext', htext, List.head?_cons, List.tail_cons, Option.some.injEq,
      Option.some.injEq] at hclass
    rcases hclass with rfl | ⟨hc, hgreater⟩
    · simp at hd
    · exact ⟨hrole, hc, hgreater⟩
  · rw [hu.separator_iff.2.mp hrole] at htext
    injection htext with hc
    rw [← hc] at hd
    simp at hd
  · exact absurd hrole harrow
  · right
    have hmem : String.ofList u.text ∈ Spacing.stickyTexts := by
      rcases hor with ht | hu'
      · exact absurd ht (by simpa [isSticky, isOneOf] using hsticky)
      · exact List.contains_iff_mem.mp hu'
    obtain ⟨htail, hno⟩ := hstickies _ hmem
    rw [String.toList_ofList, htext, List.tail_cons] at htail
    refine ⟨fun hrole => ?_, htail, htouches⟩
    obtain ⟨op, hop, htext'⟩ := text_of_arrow hu hrole
    rw [htext', String.ofList_toList] at hno
    exact hno hop

/-! ## Printed tokens are read again -/

theorem length_hyphen (t : Text) :
    Word.length ('-' :: t) = 0 ↔ Word.selectsComponent t = false := by
  have hword : Word.isWordChar '-' = false := by decide
  simp [Word.length, hword]

theorem length_plus (t : Text) :
    Word.length ('+' :: t) = 0 ↔ Word.beginsOffset t = false := by
  have hword : Word.isWordChar '+' = false := by decide
  simp [Word.length, hword]

theorem measurePlain_arrow (t : Text) :
    (measurePlain '-' ('>' :: t)).2 ≠ 0 := by
  rcases measurePlain_cases (c := '-') (by decide) ('>' :: t) with
    ⟨h, -⟩ | ⟨-, ⟨h, -⟩ | ⟨-, ⟨op, hop, heq⟩ | ⟨hop, -⟩⟩⟩
  · simp at h
  · exact absurd h (by simp [Word.begins.eq_def, show Word.isWordChar '-' = false by decide])
  · have hlong : ("->" = op ∨ "->*" = op) := by
      cases hstar : ['*'].isPrefixOf t <;>
        simp [Word.operator?, Word.operators, Text.startsWith, List.find?, List.isPrefixOf,
          hstar] at hop <;>
        simp [hop]
    rw [heq]
    rcases hlong with rfl | rfl <;> decide
  · simp [Word.operator?, Word.operators, Text.startsWith, List.isPrefixOf] at hop

theorem Placed.length_after
    {t : Token} (h : t.Placed rest) (hcode : t.isCode = true)
    (hname : Word.isName t.text = true) :
    t.role = .word ∧ Word.length (t.after rest) = 0 := by
  obtain ⟨c, cs, htext, -, -, hmeasure⟩ := h
  rw [htext] at hname
  have hliteral : t.role ≠ .literal := by
    intro hrole
    have hsign : ∀ d ∈ ['\x27', '\x60', '|'],
        d ≠ '/' ∧ d ≠ '&' ∧ d ≠ '<' ∧ Word.isWordChar d = false :=
      forall_mem_of_all (by decide)
    have hclass : ∀ d ∈ ['\x27', '\x60', '|'], Word.isName (d :: cs) = false := by
      intro d hd
      simp [Word.isName, Word.begins.eq_def, hsign d hd]
    rw [hrole] at hmeasure
    rw [hclass c (measure_literal hmeasure)] at hname
    simp at hname
  have hplain := measurePlain_of_measure hmeasure hcode hliteral
  exact ⟨(measurePlain_name hname hplain (b := []) (by simp [Stops]) (.inl rfl)).1,
    length_eq_zero_of_isName hname hplain⟩

namespace Behind

variable {o : Options} {ts : List Token}

/-- A sign that did not let a word go on in the source does not do so in print, except for a hyphen
at the end of the line. -/
theorem length_of_touches
    {t : Token} {b : Text} (h : Behind o ts t b) (hts : Standing rest ts)
    (harrow : t.role ≠ .arrow) {d : Char} (hd : d = '-' ∨ d = '+')
    (hsource : Word.length (d :: t.after rest) = 0) :
    Word.length (d :: b) = 0 ∨ d :: b = ['-'] := by
  rcases hd with rfl | rfl
  · rw [length_hyphen] at hsource ⊢
    cases hb : b with
    | nil => exact .inr rfl
    | cons e es =>
        left
        have halpha : ∀ c : Char, c.isAlpha = true →
            (Text.isAlphanumeric c || c == '_' || c == '<') = true :=
          class_of_isAlpha (by decide)
        refine h.head_class hts harrow halpha (forall_mem_of_all (by decide +kernel)) ?_
          (by rw [hb]; rfl)
        · intro c hc
          obtain ⟨more, hmore⟩ := List.head?_eq_some_iff.mp hc
          rwa [hmore] at hsource
  · rw [length_plus] at hsource ⊢
    left
    cases hb : b with
    | nil => rfl
    | cons e es =>
        have halpha : ∀ c : Char, c.isAlpha = true → Text.isDigit c = false :=
          class_of_isAlpha (by decide)
        refine h.head_class hts harrow halpha (forall_mem_of_all (by decide)) ?_
          (by rw [hb]; rfl)
        · intro c hc
          obtain ⟨more, hmore⟩ := List.head?_eq_some_iff.mp hc
          rwa [hmore] at hsource

/-- A name does not go on in print, except into a hyphen at the end of the line. -/
theorem length_eq_zero
    {t : Token} {b : Text} (h : Behind o ts t b) (hts : Standing rest ts) (ht : t.Placed rest)
    (hcode : t.isCode = true) (hname : Word.isName t.text = true) :
    Word.length b = 0 ∨ b = ['-'] := by
  obtain ⟨hrole, hsource⟩ := ht.length_after hcode hname
  have harrow : t.role ≠ .arrow := by simp [hrole]
  have hsticky := isSticky_of_isName hname
  have hstops := h.stops hts harrow hsticky
  cases hb : b with
  | nil => exact .inl rfl
  | cons d ds =>
      rw [hb] at hstops
      by_cases hd : d = '-' ∨ d = '+'
      · cases h with
        | nothing => simp at hb
        | blank => simp [← (List.cons.inj hb).1] at hd
        | sign => simp [← (List.cons.inj hb).1, Comment.sign] at hd
        | @joined _ u b' previous before hmay _ hu hstar hbehind =>
            have hplaced := hts.placed u hu hstar
            have hunit := hplaced.isUnit
            obtain ⟨c, cs, e, es, htext, hprinted, hsame⟩ :=
              (hts.lexed u hu).head_tokenText o previous before hstar
            rw [hprinted, List.cons_append] at hb
            obtain ⟨hed, hds⟩ := List.cons.inj hb
            subst hed
            have hec : e = c := hsame.resolve_right fun halpha => by
              rcases hd with rfl | rfl <;> simp at halpha
            subst hec
            obtain ⟨f, -, hf, hmap, -⟩ := tokenText_of_isCode o previous before hunit
              (isCode_of_head hunit htext (by rintro rfl; simp [Comment.sign] at hd)
                (by rintro rfl; simp at hd))
            rw [hprinted, htext, List.map_cons] at hmap
            have hes := (List.cons.inj hmap).2
            rcases hmay.sign hunit harrow hsticky htext hd with
              ⟨hrole', rfl, hgreater⟩ | ⟨hrole', rfl, htouches⟩
            · left
              have hid := hf.resolve_right (by simp [hrole'])
              have hclass : (Text.isAlphanumeric '>' || '>' == '_' || '>' == '<') = false := by
                decide +kernel
              obtain ⟨more, rfl⟩ := List.head?_eq_some_iff.mp hgreater
              rw [length_hyphen, ← hds, hes, hid, List.map_cons, List.cons_append]
              exact hclass
            · rw [List.map_nil] at hes
              rw [hes, List.nil_append] at hds
              subst hds
              rw [hplaced.after_of_touches htouches, htext, List.singleton_append] at hsource
              exact hbehind.length_of_touches hts hrole' hd hsource
      · have hclass : ∀ d ∈ stopChars, d ≠ '-' → d ≠ '+' → Word.isWordChar d = false :=
          forall_mem_of_all (by decide)
        rw [not_or] at hd
        have hword := hclass d (hstops d rfl) hd.1 hd.2
        left
        simp [Word.length, hword, hd.1, hd.2]

/-- A hyphen does not become an arrow. -/
theorem head_ne_greater
    {t : Token} {b : Text} (h : Behind o ts t b) (hts : Standing rest ts) (ht : t.Placed rest)
    (htext : t.text = ['-']) :
    b.head? ≠ some '>' := by
  intro hd
  have hcode : t.isCode = true := isCode_of_head ht.isUnit htext (by decide) (by decide)
  have harrow : t.role ≠ .arrow := by
    intro hrole
    obtain ⟨op, hop, hop'⟩ := text_of_arrow ht.isUnit hrole
    have hclass : ∀ op ∈ Word.arrows, op.toList ≠ ['-'] := by decide
    exact hclass op hop (hop'.symm.trans htext)
  have halpha : ∀ c : Char, c.isAlpha = true → (c == '>') = false :=
    class_of_isAlpha (by decide)
  have hno := h.head_class hts harrow halpha (forall_mem_of_all (by decide))
    (fun c hc => ?_) hd
  · simp at hno
  · cases hgreater : c == '>' with
    | false => rfl
    | true =>
        -- In front of this sign the hyphen would have been read as an arrow.
        rw [beq_iff_eq.mp hgreater] at hc
        obtain ⟨more, hmore⟩ := List.head?_eq_some_iff.mp hc
        obtain ⟨d, ds, htext', -, -, hmeasure⟩ := ht
        rw [htext] at htext'
        injection htext' with hd' hds
        subst hd' hds
        have hsource : measure '-' ('>' :: more) = .ok (t.role, 0) := by
          rw [← hmore]
          exact hmeasure
        have hliteral : t.role ≠ .literal := by
          intro hrole
          rw [hrole] at hsource
          exact absurd (measure_literal hsource) (by decide)
        have hplain := measurePlain_of_measure hsource hcode hliteral
        have hlonger := measurePlain_arrow more
        rw [hplain] at hlonger
        exact absurd rfl hlonger

end Behind

theorem measure_of_plain
    {c : Char} {cs : Text} (hsign : c ≠ '\x22') (hquote : Literal.isQuote c = false)
    (hbar : c ≠ '|') (hpragma : c = '#' → Word.pragmaLength? cs = none) :
    measure c cs = .ok (measurePlain c cs) := by
  unfold Lexeme.measure
  rw [if_neg hsign, if_neg (by simp [hquote]), if_neg hbar]
  split
  next n hn =>
    split at hn
    next hnumber => simp [hpragma hnumber] at hn
    next => simp at hn
  next => rfl

theorem pragmaLength?_append
    {cs rest b : Text} (h : Word.pragmaLength? (cs ++ rest) = none) (hstops : Stops b) :
    Word.pragmaLength? (cs ++ b) = none := by
  have hb : ∀ d ds, b = d :: ds → d ≠ '#' ∧ Word.isNameChar d = false := by
    intro d ds heq
    obtain ⟨-, -, -, hname, hother⟩ := stopChars_class d (hstops d (by rw [heq]; rfl))
    simp only [List.mem_cons, not_or] at hother
    exact ⟨hother.2.2.2.2.2.1, hname⟩
  cases cs with
  | nil =>
      unfold Word.pragmaLength?
      split
      next heq => exact absurd rfl (hb _ _ heq).1
      next => rfl
  | cons c cs =>
      by_cases hc : c = '#'
      · subst hc
        have hnil : (cs ++ b).takeWhile Word.isNameChar = [] := by
          match cs, b with
          | [], [] => rfl
          | [], d :: ds => exact List.takeWhile_cons_of_neg (by simp [(hb d ds rfl).2])
          | e :: es, _ =>
              rw [List.cons_append, List.cons_append, Word.pragmaLength?] at h
              split at h
              next hempty =>
                rw [List.isEmpty_iff, List.takeWhile_cons] at hempty
                split at hempty
                · simp at hempty
                next hname => rw [List.cons_append, List.takeWhile_cons_of_neg hname]
              next => simp at h
        rw [List.cons_append, Word.pragmaLength?, hnil]
        rfl
      · unfold Word.pragmaLength?
        split
        next heq => exact absurd (List.cons.inj heq).1 hc
        next => rfl

/-- What is read in front of another text is another unit, also in capital letters, if its length is
another one. -/
theorem upper_ne_of_length_ne
    {c : Char} {cs rest b : Text} {role other : Role} {n : Nat}
    (h : measurePlain c (cs ++ rest) = (role, cs.length))
    (h' : measurePlain c (cs ++ b) = (other, n)) (hne : n ≠ cs.length) :
    Text.upper (c :: (cs ++ b).take n) ≠ Text.upper (c :: cs) := by
  have htake : ((cs ++ b).take n).length = n := by
    have hle := measurePlain_le c (cs ++ b)
    rw [h'] at hle
    rw [List.length_take]
    omega
  have hcut : measurePlain c ((cs ++ b).take n ++ (cs ++ b).drop n) =
      (other, ((cs ++ b).take n).length) := by
    rw [List.take_append_drop, h', htake]
  have hc : c.toNat < 128 := by
    refine Nat.lt_of_not_le fun hc => hne ?_
    rw [← htake, eq_nil_of_not_ascii hcut hc, eq_nil_of_not_ascii h hc]
  have hlength : ∀ {ds more : Text} {role : Role}, measurePlain c (ds ++ more) = (role, ds.length) →
      (Text.upper (c :: ds)).length = ds.length + 1 := by
    intro ds more role hds
    rw [upper_of_ascii, List.length_map, List.length_cons]
    intro d hd
    rcases List.mem_cons.mp hd with rfl | hd
    · exact hc
    · exact (ascii_of_measurePlain hds d hd).1
  intro heq
  have hsame := congrArg List.length heq
  rw [hlength h, hlength hcut, htake] at hsame
  omega

/-- A unit that is a name or a sign is read as one in print too. -/
theorem measure_recased
    {f : Char → Char} (hf : IsCaseMap f) {c : Char} {cs rest b : Text} {role : Role} {n : Nat}
    (hmeasure : measure c (cs ++ rest) = .ok (role, n))
    (hrole : role ∉ [.comment, .pragma, .literal]) (hstops : c = '#' → Stops b) :
    measure (f c) (cs.map f ++ b) = .ok (measurePlain (f c) (cs.map f ++ b)) := by
  rcases measure_cases hmeasure with
    ⟨-, rfl, -⟩ | ⟨-, rfl, -⟩ | ⟨-, rfl, -⟩ | ⟨-, rfl, -⟩ | ⟨⟨hsign, hquote, hbar, hno⟩, -⟩
  · simp at hrole
  · simp at hrole
  · simp at hrole
  · simp at hrole
  · refine measure_of_plain ?_ ?_ ?_ ?_
    · rwa [ne_eq, hf.apply_eq_iff (by decide)]
    · rw [← hquote]
      exact hf.class_eq (class_of_isAlpha (b := false) (by decide)) c
    · rwa [ne_eq, hf.apply_eq_iff (by decide)]
    · rw [hf.apply_eq_iff (by decide)]
      intro hnumber
      have hnone := (Word.pragmaLength?_map hf _).trans (hno hnumber)
      rw [List.map_append] at hnone
      exact pragmaLength?_append hnone (hstops hnumber)

/-- Pragmas do not touch each other. -/
theorem not_mayTouch_of_isPragma
    {t u : Token} (ht : t.IsUnit) (hu : u.IsUnit) (htp : t.isPragma = true)
    (hup : u.isPragma = true) :
    ¬t.MayTouch u := by
  have hsticky : ∀ {v : Token}, v.IsUnit → v.role = .pragma →
      v.isOneOf Spacing.stickyTexts = false := by
    intro v hv hrole
    obtain ⟨c, cs, more, htext, -, hmeasure⟩ := hv
    rw [hrole] at hmeasure
    obtain ⟨rfl, -⟩ := Lexeme.measure_pragma hmeasure
    have hclass : ∀ s ∈ Spacing.stickyTexts, s.toList.head? ≠ some '#' := by decide
    rw [Bool.eq_false_iff, ne_eq, isOneOf_iff]
    rintro ⟨s, hs, heq⟩
    exact hclass s hs (by rw [← heq, htext]; rfl)
  have htrole : t.role = .pragma := by simpa [isPragma] using htp
  have hurole : u.role = .pragma := by simpa [isPragma] using hup
  simp [MayTouch, htrole, hurole, hsticky ht htrole, hsticky hu hurole]

namespace Behind

variable {o : Options} {ts : List Token}

theorem closed
    {cs more init behind : Text} {c : Char} (hsplit : cs ++ more = init ++ c :: behind)
    (hlength : cs.length = init.length + 1) :
    cs = init ++ [c] := by
  rw [← List.singleton_append, ← List.append_assoc] at hsplit
  exact List.append_inj_left hsplit (by simpa using hlength)

/-- A literal is read as such in print. -/
theorem measure_literal
    {t : Token} {b : Text} (h : Behind o ts t b) (hts : Standing rest ts) (ht : t.IsUnit)
    (hrole : t.role = .literal) :
    ∃ c cs, t.text = c :: cs ∧ Text.isBlank c = false ∧
      measure c (cs ++ b) = .ok (.literal, cs.length) ∧ ¬Misread (c :: cs) b := by
  obtain ⟨c, cs, more, htext, hc, hmeasure⟩ := ht
  rw [hrole] at hmeasure
  have hhead := Lexeme.measure_literal hmeasure
  have hclass : ∀ c ∈ ['\x27', '\x60', '|'], (∀ s ∈ Spacing.stickyTexts, s.toList.head? ≠ some c) ∧
      (∀ s ∈ extendable, s.toList.head? ≠ some c) ∧ c ∉ stopChars ∧ c ≠ '-' ∧ c ≠ '/' ∧ c ≠ '&' ∧
      c ≠ '<' ∧ Word.isWordChar c = false :=
    forall_mem_of_all (by decide)
  obtain ⟨hsticky, hextend, hstop, hhyphen, hslash, hand, hangle, hword⟩ := hclass c hhead
  have hstops : Stops b := by
    refine h.stops hts (by simp [hrole]) (Bool.eq_false_iff.mpr fun hyes => ?_)
    refine hsticky _ (List.contains_iff_mem.mp hyes) ?_
    rw [String.toList_ofList, htext]
    rfl
  refine ⟨c, cs, htext, hc, ?_, ?_⟩
  · have hb : b.head? ≠ some c := fun hd => hstop (hstops c hd)
    rcases measure_cases hmeasure with
      ⟨-, hno, -⟩ | ⟨hquote, -, hlength⟩ | ⟨rfl, -, hlength⟩ | ⟨-, hno, -⟩ | ⟨-, hplain⟩
    · simp at hno
    · obtain ⟨init, behind, hsplit, hinit, -, hread⟩ := Literal.quotedLength_spec hlength
      have hcs : cs = init ++ [c] := closed hsplit hinit
      unfold Lexeme.measure
      rw [if_neg (by rintro rfl; simp at hhead), if_pos hquote, hcs, List.append_assoc,
        List.singleton_append, hread b hb, ← hcs]
      rfl
    · obtain ⟨init, behind, hsplit, hinit, hread⟩ := Literal.templateLength_spec hlength
      have hcs : cs = init ++ ['|'] := closed hsplit hinit
      unfold Lexeme.measure
      rw [if_neg (by decide), if_neg (by decide), if_pos rfl, hcs, List.append_assoc,
        List.singleton_append, hread b, ← hcs]
      rfl
    · simp at hno
    · exact absurd rfl (measurePlain_role_ne hplain).2.2
  · rintro (⟨hname, -⟩ | ⟨hmem, -⟩ | ⟨heq, -⟩)
    · simp [Word.isName, Word.begins.eq_def, hslash, hand, hangle, hword] at hname
    · exact hextend _ hmem (by simp)
    · exact hhyphen (List.cons.inj heq).1

/-- A token of code is read as it is printed, except for what `Misread` says; and then another text
is read. -/
theorem measure_code
    {t : Token} {b : Text} (h : Behind o ts t b) (hts : Standing rest ts) (ht : t ∈ ts)
    (hcode : t.isCode = true) (previous before : Option Token) :
    ∃ d ds, Rendering.tokenText o t previous before = d :: ds ∧ Text.isBlank d = false ∧
      Text.upper (d :: ds) = t.upper ∧
      (¬Misread (d :: ds) b → measure d (ds ++ b) = .ok (t.role, ds.length)) ∧
      (Misread (d :: ds) b → ∃ role n, measure d (ds ++ b) = .ok (role, n) ∧
        (role = .word ∨ role = .arrow) ∧ Text.upper (d :: (ds ++ b).take n) ≠ t.upper) := by
  have hstar : t.isStarComment = false := by
    rw [isCode, Bool.and_eq_true, Bool.not_eq_true'] at hcode
    simp [isStarComment, hcode.1]
  have hplaced := hts.placed t ht hstar
  obtain ⟨f, hf, hid, hprinted, hupper⟩ :=
    tokenText_of_isCode o previous before hplaced.isUnit hcode
  rw [hprinted]
  by_cases hliteral : t.role = .literal
  · obtain ⟨c, cs, htext, hc, hread, hnot⟩ := h.measure_literal hts hplaced.isUnit hliteral
    rw [hid.resolve_right (by simp [hliteral]), List.map_id] at hupper ⊢
    rw [htext] at hupper
    exact ⟨c, cs, htext, hc, hupper, fun _ => by rw [hread, hliteral], fun hyes => absurd hyes hnot⟩
  · have hplaced' := hplaced
    obtain ⟨c, cs, htext, hc, -, hmeasure⟩ := hplaced'
    have hplain := measurePlain_of_measure hmeasure hcode hliteral
    rw [htext, List.map_cons] at hupper ⊢
    have hmap := measurePlain_map hf c (cs ++ t.after rest)
    rw [List.map_append] at hmap
    have hsource : measurePlain (f c) (cs.map f ++ (t.after rest).map f) =
        (t.role, (cs.map f).length) := by
      rw [hmap, List.length_map]
      exact hplain
    have hstops : t.role = .word → isSticky (c :: cs) = false → Stops b := by
      intro hrole hsticky
      exact h.stops hts (by simp [hrole]) (by rw [htext]; exact hsticky)
    have hword : c = '#' → t.role = .word ∧ isSticky (c :: cs) = false := by
      rintro rfl
      have hname : Word.isName ('#' :: cs) = true := by
        simp [Word.isName, Word.begins.eq_def, show Word.isWordChar '#' = true by decide]
      exact ⟨(hplaced.length_after hcode (by rw [htext]; exact hname)).1, isSticky_of_isName hname⟩
    obtain ⟨hkept, hlost⟩ := measurePlain_reread hsource
      (fun hrole hsticky => hstops hrole (by rwa [← List.map_cons, isSticky_map hf] at hsticky))
      (fun hname => h.length_eq_zero hts hplaced hcode
        (by rwa [← List.map_cons, Word.isName_map hf, ← htext] at hname))
      (fun heq => h.head_ne_greater hts hplaced
        (by rwa [← List.map_cons, hf.map_eq_iff (by simp), ← htext] at heq))
    have hread := measure_recased hf (b := b) hmeasure
      (by
        rw [isCode, Bool.and_eq_true, Bool.not_eq_true', Bool.not_eq_true'] at hcode
        simpa [isComment, isPragma, hliteral] using hcode)
      (fun hnumber => hstops (hword hnumber).1 (hword hnumber).2)
    refine ⟨f c, cs.map f, rfl, ?_, hupper, fun hno => ?_, fun hyes => ?_⟩
    · rw [← hc]
      exact hf.class_eq (class_of_isAlpha (b := false) (by decide)) c
    · rw [hread, hkept hno]
    · obtain ⟨role, n, hmisread, hne, hrole⟩ := hlost hyes
      refine ⟨role, n, by rw [hread, hmisread], hrole, ?_⟩
      rw [← hupper]
      exact upper_ne_of_length_ne hsource hmisread hne

/-- Behind a pragma neither its name nor its arguments go on. -/
theorem head_pragma
    {t : Token} {b : Text} (h : Behind o ts t b) (hts : Standing rest ts) (ht : t.IsUnit)
    (hpragma : t.isPragma = true) {d : Char} (hd : b.head? = some d) :
    Word.isNameChar d = false ∧ d ≠ '[' := by
  have hclass : ∀ d ∈ [' ', Comment.sign, '.', ','], Word.isNameChar d = false ∧ d ≠ '[' :=
    forall_mem_of_all (by decide)
  refine hclass d ?_
  cases h with
  | nothing => simp at hd
  | blank =>
      injection hd with hd
      simp [← hd]
  | sign =>
      injection hd with hd
      simp [← hd]
  | @joined _ u b previous before hmay hyields hu hstar _ =>
      have hunit := (hts.placed u hu hstar).isUnit
      have hperiod : u.role = .punctuation := by
        refine (hyields hpragma).resolve_left fun hpragma' => ?_
        exact not_mayTouch_of_isPragma ht hunit hpragma hpragma' hmay
      obtain ⟨c, cs, e, es, htext, hprinted, hsame⟩ :=
        (hts.lexed u hu).head_tokenText o previous before hstar
      rw [hprinted, List.cons_append, List.head?_cons, Option.some.injEq] at hd
      rcases hunit.separator_iff.1.mp hperiod with heq | heq <;> rw [htext] at heq <;>
        injection heq with hc <;> subst hc hd <;> simp at hsame <;> simp [hsame]

/-- A pragma is read as it is printed. -/
theorem measure_pragma
    {t : Token} {b : Text} (h : Behind o ts t b) (hts : Standing rest ts) (ht : t ∈ ts)
    (hpragma : t.isPragma = true) (previous before : Option Token) :
    ∃ d ds, Rendering.tokenText o t previous before = d :: ds ∧ Text.isBlank d = false ∧
      measure d (ds ++ b) = .ok (.pragma, ds.length) := by
  have hrole : t.role = .pragma := by simpa [isPragma] using hpragma
  have hstar : t.isStarComment = false := by simp [isStarComment, isComment, hrole]
  obtain ⟨c, cs, htext, hc, -, hmeasure⟩ := hts.placed t ht hstar
  rw [hrole] at hmeasure
  obtain ⟨rfl, hlength⟩ := Lexeme.measure_pragma hmeasure
  obtain ⟨name, args, more, hsplit, hname, hall, hargs, hlen⟩ := Word.pragmaLength?_spec hlength
  have hcs : cs = '#' :: (name ++ args) := by
    rw [← List.append_assoc, ← List.cons_append] at hsplit
    refine List.append_inj_left hsplit ?_
    rw [hlen, List.length_cons]
    omega
  have hsource : Word.IsPragma t.text := ⟨name, args, by rw [htext, hcs], hname, hall, hargs⟩
  have hrecased := recased_setCase o.keywordCase t.text
  have hprinted := tokenText_of_isPragma o previous before hpragma
  obtain ⟨ds, hds, -⟩ := (htext ▸ hrecased).cons_inv (by decide)
  rw [← htext] at hds
  refine ⟨'#', ds, hprinted.trans hds, hc, ?_⟩
  have hpr := hsource.recased hrecased
  rw [hds] at hpr
  exact hpr.measure fun d hd => h.head_pragma hts (hts.placed t ht hstar).isUnit hpragma hd

end Behind
end Token
end AbapLayout
