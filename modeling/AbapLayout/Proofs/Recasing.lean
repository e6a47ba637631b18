import AbapLayout.Proofs.UnitText

/-!
# Texts in another case

Keywords and pragmas are printed in another case.  On ASCII texts both cases are *case maps*: they
move letters to letters and leave every other character alone, so that a unit is measured as before
(`Lexeme.measurePlain_map`).  A keyword is such a text (`Keyword.exists_caseMap`).  A pragma may have
any characters in its arguments; it keeps its shape, because brackets are left alone
(`Word.IsPragma.recased`).
-/

namespace AbapLayout
namespace Text

/-! ## Case maps -/

/-- The maps of characters that keywords are printed by. -/
def IsCaseMap (f : Char → Char) : Prop :=
  f = id ∨ f = Char.toUpper ∨ f = Char.toLower

theorem toUpper_of_not_ascii
    {c : Char} (h : 128 ≤ c.toNat) :
    c.toUpper = c := by
  unfold Char.toUpper
  rw [dif_neg]
  rintro ⟨-, hle⟩
  rw [UInt32.le_iff_toNat_le] at hle
  have hcode : c.toNat = c.val.toNat := rfl
  have hz : 'z'.val.toNat = 122 := rfl
  omega

theorem toLower_of_not_ascii
    {c : Char} (h : 128 ≤ c.toNat) :
    c.toLower = c := by
  unfold Char.toLower
  rw [dif_neg]
  rintro ⟨-, hle⟩
  rw [UInt32.le_iff_toNat_le] at hle
  have hcode : c.toNat = c.val.toNat := rfl
  have hz : 'Z'.val.toNat = 90 := rfl
  omega

/-- A case map moves letters to letters and leaves all else alone. -/
theorem IsCaseMap.apply
    {f : Char → Char} (h : IsCaseMap f) (c : Char) :
    f c = c ∨ c.isAlpha = true ∧ (f c).isAlpha = true := by
  by_cases hc : c.toNat < 128
  · rcases h with rfl | rfl | rfl
    · exact .inl rfl
    · exact forall_ascii
        (P := fun c => c.toUpper = c ∨ c.isAlpha = true ∧ c.toUpper.isAlpha = true)
        (by decide) c hc
    · exact forall_ascii
        (P := fun c => c.toLower = c ∨ c.isAlpha = true ∧ c.toLower.isAlpha = true)
        (by decide) c hc
  · rcases h with rfl | rfl | rfl
    · exact .inl rfl
    · exact .inl (toUpper_of_not_ascii (by omega))
    · exact .inl (toLower_of_not_ascii (by omega))

/-- A class of characters that holds all letters or none is kept by a case map. -/
theorem IsCaseMap.class_eq
    {f : Char → Char} (h : IsCaseMap f) {p : Char → Bool} {b : Bool}
    (hp : ∀ c : Char, c.isAlpha = true → p c = b) (c : Char) :
    p (f c) = p c := by
  rcases h.apply c with hc | ⟨hc, hfc⟩
  · rw [hc]
  · rw [hp c hc, hp _ hfc]

theorem toNat_lt_of_isAlpha
    {c : Char} (h : c.isAlpha = true) :
    c.toNat < 128 :=
  Word.toNat_lt_of_isAlphanum (by simp [Char.isAlphanum, h])

/-- A class of ASCII characters is decided on them. -/
theorem class_of_isAlpha
    {p : Char → Bool} {b : Bool}
    (h : ∀ n < 128, (Char.ofNat n).isAlpha = true → p (Char.ofNat n) = b) :
    ∀ c : Char, c.isAlpha = true → p c = b := by
  intro c hc
  have hcode := toNat_lt_of_isAlpha hc
  revert hc
  exact forall_ascii (P := fun c => c.isAlpha = true → p c = b) h c hcode

/-- A case map leaves a sign alone and maps nothing else to it. -/
theorem IsCaseMap.apply_eq_iff
    {f : Char → Char} (h : IsCaseMap f) {d : Char} (hd : d.isAlpha = false) (c : Char) :
    f c = d ↔ c = d := by
  rcases h.apply c with hc | ⟨hc, hfc⟩
  · rw [hc]
  · constructor
    · intro heq
      rw [heq, hd] at hfc
      simp at hfc
    · intro heq
      rw [heq, hd] at hc
      simp at hc

/-! ## ASCII texts -/

theorem IsCaseMap.map_eq_iff
    {f : Char → Char} (h : IsCaseMap f) {s : Text} (hs : ∀ d ∈ s, d.isAlpha = false) (t : Text) :
    t.map f = s ↔ t = s := by
  induction s generalizing t with
  | nil => simp
  | cons d ds ih =>
      cases t with
      | nil => simp
      | cons c cs =>
          rw [List.map_cons, List.cons.injEq, List.cons.injEq, h.apply_eq_iff (hs d (by simp)),
            ih fun e he => hs e (by simp [he])]

theorem upper_of_ascii
    {t : Text} (h : ∀ c ∈ t, c.toNat < 128) :
    upper t = t.map Char.toUpper := by
  induction t with
  | nil => rfl
  | cons c cs ih =>
      rw [upper_cons, ih fun d hd => h d (by simp [hd]), upperChar, if_pos (h c (by simp))]
      rfl

theorem lowerAfter_of_ascii
    {t : Text} (h : ∀ c ∈ t, c.toNat < 128) (afterCased : Bool) :
    lowerAfter afterCased t = t.map Char.toLower := by
  induction t generalizing afterCased with
  | nil => rfl
  | cons c cs ih =>
      have hc := h c (by simp)
      have hsigma : c ≠ 'Σ' := by
        rintro rfl
        exact absurd hc (by decide)
      rw [lowerAfter]
      simp only [if_neg hsigma, lowerChar, if_pos hc, ih fun d hd => h d (by simp [hd])]
      rfl

/-- On ASCII texts both cases are case maps. -/
theorem setCase_of_ascii
    {t : Text} (h : ∀ c ∈ t, c.toNat < 128) (k : KeywordCase) :
    ∃ f, IsCaseMap f ∧ Keyword.setCase k t = t.map f := by
  cases k with
  | upper => exact ⟨Char.toUpper, .inr (.inl rfl), upper_of_ascii h⟩
  | lower => exact ⟨Char.toLower, .inr (.inr rfl), lowerAfter_of_ascii h false⟩

/-- A case map does not change the capital form of an ASCII text. -/
theorem upper_map
    {t : Text} (h : ∀ c ∈ t, c.toNat < 128) {f : Char → Char} (hf : IsCaseMap f) :
    upper (t.map f) = upper t := by
  have hchar : ∀ c : Char, c.toNat < 128 → upperChar (f c) = upperChar c := by
    rcases hf with rfl | rfl | rfl
    · exact fun c _ => rfl
    · exact forall_ascii (P := fun c => upperChar c.toUpper = upperChar c) (by decide)
    · exact forall_ascii (P := fun c => upperChar c.toLower = upperChar c) (by decide)
  induction t with
  | nil => rfl
  | cons c cs ih =>
      rw [List.map_cons, upper_cons, upper_cons, ih fun d hd => h d (by simp [hd]),
        hchar c (h c (by simp))]

end Text

/-! ## Units under case maps -/

open Text

variable {f : Char → Char}

namespace Word

theorem isWordChar_map (hf : IsCaseMap f) (c : Char) : isWordChar (f c) = isWordChar c :=
  hf.class_eq (class_of_isAlpha (b := true) (by decide)) c

theorem isNameChar_map (hf : IsCaseMap f) (c : Char) : isNameChar (f c) = isNameChar c :=
  hf.class_eq (class_of_isAlpha (b := true) (by decide)) c

theorem isSymbolChar_map (hf : IsCaseMap f) (c : Char) : isSymbolChar (f c) = isSymbolChar c :=
  hf.class_eq (class_of_isAlpha (b := true) (by decide)) c

theorem isAlphanumeric_map (hf : IsCaseMap f) (c : Char) :
    Text.isAlphanumeric (f c) = Text.isAlphanumeric c :=
  hf.class_eq (class_of_isAlpha (b := true) (by decide)) c

theorem isDigit_map (hf : IsCaseMap f) (c : Char) : Text.isDigit (f c) = Text.isDigit c :=
  hf.class_eq (class_of_isAlpha (b := false) (by decide)) c

theorem beq_map (hf : IsCaseMap f) {d : Char} (hd : d.isAlpha = false) (c : Char) :
    (f c == d) = (c == d) := by
  rw [Bool.eq_iff_iff, beq_iff_eq, beq_iff_eq, hf.apply_eq_iff hd]

theorem selectsComponent_map (hf : IsCaseMap f) (cs : Text) :
    selectsComponent (cs.map f) = selectsComponent cs := by
  cases cs with
  | nil => rfl
  | cons c cs =>
      simp only [List.map_cons, selectsComponent, isAlphanumeric_map hf,
        beq_map hf (d := '_') (by decide), beq_map hf (d := '<') (by decide)]

theorem beginsOffset_map (hf : IsCaseMap f) (cs : Text) :
    beginsOffset (cs.map f) = beginsOffset cs := by
  cases cs with
  | nil => rfl
  | cons c cs => simp only [List.map_cons, beginsOffset, isDigit_map hf]

theorem length_map (hf : IsCaseMap f) (cs : Text) : length (cs.map f) = length cs := by
  induction cs with
  | nil => rfl
  | cons c cs ih =>
      simp only [List.map_cons, length, isWordChar_map hf, selectsComponent_map hf,
        beginsOffset_map hf, beq_map hf (d := '-') (by decide), beq_map hf (d := '+') (by decide),
        ih]

theorem begins_map (hf : IsCaseMap f) (c : Char) (cs : Text) :
    begins (f c) (cs.map f) = begins c cs := by
  unfold begins
  simp only [hf.apply_eq_iff (d := '/') (by decide), hf.apply_eq_iff (d := '&') (by decide),
    isWordChar_map hf]
  cases cs with
  | nil => rfl
  | cons d ds =>
      simp only [List.map_cons, isAlphanumeric_map hf, isDigit_map hf,
        beq_map hf (d := '_') (by decide)]

theorem takeWhile_map_of_class
    {p : Char → Bool} (hp : ∀ c, p (f c) = p c) (cs : Text) :
    (cs.map f).takeWhile p = (cs.takeWhile p).map f := by
  rw [List.takeWhile_map]
  congr 2
  funext c
  exact hp c

theorem fieldSymbolLength?_map (hf : IsCaseMap f) (cs : Text) :
    fieldSymbolLength? (cs.map f) = fieldSymbolLength? cs := by
  have hname := takeWhile_map_of_class (isSymbolChar_map hf) cs
  rw [fieldSymbolLength?_eq, fieldSymbolLength?_eq, hname, List.length_map, ← List.map_drop]
  unfold symbolLength
  rw [List.length_map, List.isEmpty_map]
  cases cs.drop (cs.takeWhile isSymbolChar).length with
  | nil => rfl
  | cons d ds =>
      by_cases hd : d = '>'
      · rw [List.map_cons, (hf.apply_eq_iff (by decide) d).mpr hd, hd]
        simp only [length_map hf]
      · have hfd : f d ≠ '>' := fun h => hd ((hf.apply_eq_iff (by decide) d).mp h)
        rw [List.map_cons]
        split
        next more heq => exact absurd (List.cons.inj heq).1 hfd
        next =>
          split
          next more heq => exact absurd (List.cons.inj heq).1 hd
          next => rfl

theorem isPrefixOf_map
    (hf : IsCaseMap f) {s : Text} (hs : ∀ d ∈ s, d.isAlpha = false) (t : Text) :
    s.isPrefixOf (t.map f) = s.isPrefixOf t := by
  induction s generalizing t with
  | nil => simp
  | cons d ds ih =>
      cases t with
      | nil => rfl
      | cons c cs =>
          have hd := hs d (by simp)
          have hcd : (d == f c) = (d == c) := by
            rw [BEq.comm, beq_map hf hd, BEq.comm]
          simp only [List.map_cons, List.isPrefixOf, hcd, ih fun e he => hs e (by simp [he])]

theorem operators_isAlpha : ∀ op ∈ operators, ∀ d ∈ op.toList, d.isAlpha = false := by
  intro op hop
  refine Text.forall_mem_of_all ?_
  revert op
  decide

theorem operator?_map (hf : IsCaseMap f) (t : Text) : operator? (t.map f) = operator? t := by
  unfold operator?
  have hall : ∀ ops : List String, (∀ op ∈ ops, op ∈ operators) →
      ops.find? (fun op => Text.startsWith (t.map f) op.toList) =
        ops.find? fun op => Text.startsWith t op.toList := by
    intro ops hops
    induction ops with
    | nil => rfl
    | cons op rest ih =>
        have hop : Text.startsWith (t.map f) op.toList = Text.startsWith t op.toList :=
          isPrefixOf_map hf (operators_isAlpha op (hops op (by simp))) t
        rw [List.find?_cons, List.find?_cons, hop, ih fun o ho => hops o (by simp [ho])]
  exact hall operators fun _ h => h

theorem argumentsLength_map (hf : IsCaseMap f) (cs : Text) :
    argumentsLength (cs.map f) = argumentsLength cs := by
  have hopen : f '[' = '[' := (hf.apply_eq_iff (by decide) '[').mpr rfl
  have hclose := takeWhile_map_of_class (f := f) (p := fun c => c != ']')
    (fun c => by simp only [bne, beq_map hf (d := ']') (by decide)])
  fun_induction argumentsLength cs with
  | case1 cs n hn ih =>
      rw [List.map_cons, hopen, argumentsLength, hclose, List.length_map, List.length_map, if_pos hn,
        ← List.map_drop, ih]
  | case2 cs n hn =>
      rw [List.map_cons, hopen, argumentsLength, hclose, List.length_map, List.length_map, if_neg hn]
  | case3 cs hno =>
      cases cs with
      | nil => rw [List.map_nil, argumentsLength]; simp
      | cons d ds =>
          have hfd : f d ≠ '[' := fun h => hno ds
            (congrArg (· :: ds) ((hf.apply_eq_iff (by decide) d).mp h))
          rw [List.map_cons]
          unfold argumentsLength
          split
          next heq => exact absurd (List.cons.inj heq).1 hfd
          next => rfl

theorem pragmaLength?_map (hf : IsCaseMap f) (cs : Text) :
    pragmaLength? (cs.map f) = pragmaLength? cs := by
  cases cs with
  | nil => rfl
  | cons d ds =>
      by_cases hd : d = '#'
      · subst hd
        rw [List.map_cons, (hf.apply_eq_iff (by decide) '#').mpr rfl, pragmaLength?, pragmaLength?,
          takeWhile_map_of_class (isNameChar_map hf), List.isEmpty_map, List.length_map,
          ← List.map_drop, argumentsLength_map hf]
      · have hfd : f d ≠ '#' := fun h => hd ((hf.apply_eq_iff (by decide) d).mp h)
        rw [List.map_cons]
        unfold pragmaLength?
        split
        next heq => exact absurd (List.cons.inj heq).1 hfd
        next =>
          split
          next heq => exact absurd (List.cons.inj heq).1 hd
          next => rfl

end Word

/-- A unit that is no literal, comment or pragma is measured alike in another case. -/
theorem Lexeme.measurePlain_map (hf : IsCaseMap f) (c : Char) (cs : Text) :
    measurePlain (f c) (cs.map f) = measurePlain c cs := by
  have hbracket : isBracket (f c) = isBracket c :=
    hf.class_eq (class_of_isAlpha (b := false) (by decide)) c
  have hop := Word.operator?_map hf (c :: cs)
  rw [List.map_cons] at hop
  unfold measurePlain
  simp only [hf.apply_eq_iff (d := '.') (by decide), hf.apply_eq_iff (d := ',') (by decide),
    hf.apply_eq_iff (d := ':') (by decide), hf.apply_eq_iff (d := '<') (by decide), hbracket,
    Word.fieldSymbolLength?_map hf, Word.begins_map hf, Word.length_map hf, hop]

/-- A unit that begins with a character above the ASCII range is that character. -/
theorem Lexeme.eq_nil_of_not_ascii
    {c : Char} {cs rest : Text} {role : Role}
    (h : measurePlain c (cs ++ rest) = (role, cs.length)) (hc : 128 ≤ c.toNat) :
    cs = [] := by
  cases halone : standsAlone c with
  | true =>
      rw [measurePlain_of_standsAlone halone] at h
      injection h with _ hlen
      exact List.eq_nil_of_length_eq_zero hlen.symm
  | false =>
      rcases measurePlain_cases halone (cs ++ rest) with
        ⟨rfl, -⟩ | ⟨-, ⟨hbegins, -⟩ | ⟨-, ⟨op, hop, -⟩ | ⟨-, heq⟩⟩⟩
      · exact absurd hc (by decide)
      · have hslash : c ≠ '/' := by
          rintro rfl
          exact absurd hc (by decide)
        have hand : c ≠ '&' := by
          rintro rfl
          exact absurd hc (by decide)
        rw [Word.begins.eq_def, if_neg hslash, if_neg hand] at hbegins
        have := Word.toNat_lt_of_isInner (c := c) (by simp [Word.isInner, hbegins])
        omega
      · obtain ⟨hmem, behind, hsplit⟩ := Word.operator?_eq_some hop
        obtain ⟨d, ds, hop⟩ := List.exists_cons_of_ne_nil (Word.operators_ne_nil op hmem)
        rw [hop, List.cons_append] at hsplit
        have := (Word.ascii_of_mem_operators op hmem c (by simp [hop, (List.cons.inj hsplit).1])).1
        omega
      · rw [h] at heq
        injection heq with _ hlen
        exact List.eq_nil_of_length_eq_zero hlen

/-! ## Keywords -/

namespace Keyword

/-- The capital forms of single characters that are spelled with ASCII letters. -/
def ligatures : List Text :=
  [['F', 'F'], ['F', 'I'], ['F', 'L'], ['F', 'F', 'I'], ['F', 'F', 'L'], ['S', 'S'], ['S', 'T']]

theorem mem_ligatures_of_upperExpansions :
    ∀ entry ∈ Text.upperExpansions,
      (∀ n ∈ entry.2, n < 128) → entry.2.map Char.ofNat ∈ ligatures := by
  decide

theorem ligatures_not_in_table : ∀ t ∈ ligatures, table.contains (String.ofList t) = false := by
  decide

/-- A word of two or more ASCII characters. -/
def isAsciiWord : Text → Bool
  | [] => false
  | [_] => false
  | c :: d :: ds => c.toNat < 128 && (d.toNat < 128 && ds.all (·.toNat < 128))

theorem ascii_of_isAsciiWord {w : Text} (h : isAsciiWord w = true) : ∀ d ∈ w, d.toNat < 128 := by
  unfold isAsciiWord at h
  split at h
  · simp at h
  · simp at h
  · simpa using h

theorem table_isAsciiWord : ∀ s ∈ table, isAsciiWord s.toList = true := by
  decide +kernel

/-- No single character above the ASCII range spells a keyword. -/
theorem not_spells_of_singleton
    {t : Token} {c : Char} (htext : t.text = [c]) (hc : 128 ≤ c.toNat) :
    spells t table = false := by
  have hupper : t.upper = mapCase upperExpansions upperRuns c := by
    rw [Token.upper, htext, upper_cons, upperChar, if_neg (by omega)]
    simp [upper]
  cases hspells : spells t table with
  | false => rfl
  | true =>
      have hword := table_isAsciiWord _ (List.contains_iff_mem.mp hspells)
      rw [String.toList_ofList, hupper] at hword
      unfold mapCase at hword hupper
      split at hword
      next entry hfind =>
        have hentry : ∀ n ∈ entry.2, n < 128 := by
          intro n hn
          have hletter := (upperExpansions_isLetterlike entry (List.mem_of_find?_eq_some hfind)).2 n hn
          rw [← toNat_ofNat_of_isLetterlike hletter]
          exact ascii_of_isAsciiWord hword _ (List.mem_map_of_mem hn)
        have hligature := mem_ligatures_of_upperExpansions entry
          (List.mem_of_find?_eq_some hfind) hentry
        rw [hfind] at hupper
        have := ligatures_not_in_table _ hligature
        rw [spells, hupper, this] at hspells
        exact absurd hspells (by simp)
      next => simp [isAsciiWord] at hword

/-- A word that spells a keyword is an ASCII text. -/
theorem ascii_of_spells
    {t : Token} (h : t.IsUnit) (hrole : t.role = .word) (hspells : spells t table = true) :
    ∀ c ∈ t.text, c.toNat < 128 := by
  obtain ⟨c, cs, rest, htext, -, hmeasure⟩ := h
  rw [hrole] at hmeasure
  rcases Lexeme.measure_cases hmeasure with
    ⟨-, hno, -⟩ | ⟨-, hno, -⟩ | ⟨-, hno, -⟩ | ⟨-, hno, -⟩ | ⟨-, hplain⟩
  · simp at hno
  · simp at hno
  · simp at hno
  · simp at hno
  · have hfurther := Lexeme.ascii_of_measurePlain hplain
    have hfirst : c.toNat < 128 := by
      apply Decidable.byContradiction
      intro hc
      -- A first character above the ASCII range is a unit of its own.
      have hnil := Lexeme.eq_nil_of_not_ascii hplain (by omega)
      rw [hnil] at htext
      simp [not_spells_of_singleton htext (by omega)] at hspells
    rw [htext]
    intro d hd
    rw [List.mem_cons] at hd
    rcases hd with rfl | hd
    · exact hfirst
    · exact (hfurther d hd).1

/-- Code is printed as it is written, or in another case if it is a word. -/
theorem exists_caseMap
    (o : Options) {t : Token} (previous before : Option Token)
    (h : t.IsUnit) (hpragma : t.isPragma = false) :
    ∃ f, IsCaseMap f ∧ (f = id ∨ t.role = .word) ∧
      printed o t previous before = t.text.map f ∧ upper (t.text.map f) = t.upper := by
  unfold printed
  split
  next hchanged =>
    have hkeyword : isKeyword t previous before = true := by
      simpa [show (t.role == .pragma) = false from hpragma] using hchanged
    unfold isKeyword at hkeyword
    simp only [Bool.and_eq_true, beq_iff_eq] at hkeyword
    have hascii := ascii_of_spells h hkeyword.1.1 hkeyword.1.2
    obtain ⟨f, hf, hprinted⟩ := setCase_of_ascii hascii o.keywordCase
    exact ⟨f, hf, .inr hkeyword.1.1, hprinted, upper_map hascii hf⟩
  next => exact ⟨id, .inl rfl, .inl rfl, by simp, by simp [Token.upper]⟩

end Keyword

/-! ## Pragmas -/

namespace Text

/-- A text in another case: every character has an image; that of an ASCII character is one
character of the same kind, and signs and blanks are images of themselves only. -/
inductive Recased : Text → Text → Prop where
  | nil : Recased [] []
  | cons {c : Char} {cs image ds : Text} :
      (∀ d ∈ image, isCaseless d = true → c = d) →
      (c.toNat < 128 → ∃ d, image = [d] ∧ Word.isNameChar d = Word.isNameChar c ∧
        (isSign c = true → d = c)) →
      Recased cs ds → Recased (c :: cs) (image ++ ds)

theorem isNameChar_recased
    {f : Char → Char} (hf : IsCaseMap f) (c : Char) :
    ∃ d, [f c] = [d] ∧ Word.isNameChar d = Word.isNameChar c ∧ (isSign c = true → d = c) := by
  refine ⟨f c, rfl, Word.isNameChar_map hf c, ?_⟩
  intro hsign
  have halpha : c.isAlpha = false := by
    simp only [isSign, Bool.and_eq_true, decide_eq_true_eq] at hsign
    obtain ⟨hcode, hletter⟩ := hsign
    revert hletter
    exact forall_ascii (P := fun c => (!isLetterCode c.toNat) = true → c.isAlpha = false)
      (by decide) c hcode
  exact (hf.apply_eq_iff halpha c).mpr rfl

theorem recased_upper (t : Text) : Recased t (upper t) := by
  induction t with
  | nil => exact .nil
  | cons c cs ih =>
      rw [upper_cons]
      refine .cons (fun d hd => eq_of_mem_upperChar hd) ?_ ih
      intro hc
      rw [upperChar, if_pos hc]
      exact isNameChar_recased (.inr (.inl rfl)) c

theorem recased_lowerAfter (t : Text) (afterCased : Bool) : Recased t (lowerAfter afterCased t) := by
  induction t generalizing afterCased with
  | nil => exact .nil
  | cons c cs ih =>
      rw [lowerAfter]
      refine .cons ?_ ?_ (ih _)
      · intro d hd hcaseless
        split at hd
        · rw [List.mem_singleton] at hd
          subst hd
          split at hcaseless <;> exact absurd hcaseless (by decide)
        · exact eq_of_mem_lowerChar hd hcaseless
      · intro hc
        have hsigma : c ≠ 'Σ' := by
          rintro rfl
          exact absurd hc (by decide)
        rw [if_neg hsigma, lowerChar, if_pos hc]
        exact isNameChar_recased (.inr (.inr rfl)) c

theorem recased_setCase (k : KeywordCase) (t : Text) : Recased t (Keyword.setCase k t) := by
  cases k with
  | upper => exact recased_upper t
  | lower => exact recased_lowerAfter t false

namespace Recased

theorem append_inv
    {s t w : Text} (h : Recased (s ++ t) w) :
    ∃ u v, w = u ++ v ∧ Recased s u ∧ Recased t v := by
  induction s generalizing w with
  | nil => exact ⟨[], w, rfl, .nil, h⟩
  | cons c cs ih =>
      cases h with
      | @cons _ _ image ds hcaseless hascii hrest =>
          obtain ⟨u, v, rfl, hu, hv⟩ := ih hrest
          exact ⟨image ++ u, v, by simp, .cons hcaseless hascii hu, hv⟩

/-- A sign keeps its place. -/
theorem cons_inv
    {c : Char} {cs w : Text} (hsign : isSign c = true) (h : Recased (c :: cs) w) :
    ∃ ds, w = c :: ds ∧ Recased cs ds := by
  cases h with
  | @cons _ _ image ds hcaseless hascii hrest =>
      have hc : c.toNat < 128 := by
        simp only [isSign, Bool.and_eq_true, decide_eq_true_eq] at hsign
        exact hsign.1
      obtain ⟨d, rfl, -, hd⟩ := hascii hc
      exact ⟨ds, by simp [hd hsign], hrest⟩

theorem not_mem
    {t w : Text} {d : Char} (h : Recased t w) (hd : isCaseless d = true) (hmem : d ∉ t) :
    d ∉ w := by
  induction h with
  | nil => simp
  | cons hcaseless _ _ ih =>
      rw [List.mem_cons, not_or] at hmem
      rw [List.mem_append, not_or]
      exact ⟨fun himage => hmem.1 (hcaseless d himage hd).symm, ih hmem.2⟩

theorem isNameChar
    {t w : Text} (h : Recased t w) (ht : ∀ c ∈ t, Word.isNameChar c = true) :
    (∀ d ∈ w, Word.isNameChar d = true) ∧ (t ≠ [] → w ≠ []) := by
  induction h with
  | nil => simp
  | @cons c cs image ds _ hascii _ ih =>
      have hc := ht c (by simp)
      obtain ⟨d, rfl, hd, -⟩ := hascii (Word.toNat_lt_of_isInner (Word.isInner_of_isNameChar hc))
      refine ⟨?_, by simp⟩
      intro e he
      rw [List.singleton_append, List.mem_cons] at he
      rcases he with rfl | he
      · rw [hd, hc]
      · exact (ih fun c hc => ht c (by simp [hc])).1 e he

end Recased
end Text

namespace Word

/-- A pragma: a name behind two number signs, and arguments. -/
def IsPragma (w : Text) : Prop :=
  ∃ name args, w = '#' :: '#' :: (name ++ args) ∧ name ≠ [] ∧
    (∀ c ∈ name, isNameChar c = true) ∧ IsArguments args

theorem IsArguments.recased
    {args w : Text} (h : IsArguments args) (hw : Recased args w) :
    IsArguments w := by
  induction h generalizing w with
  | nil =>
      cases hw
      exact .nil
  | @cons inner more hinner _ ih =>
      obtain ⟨ds, rfl, hds⟩ := hw.cons_inv (by decide)
      obtain ⟨u, v, rfl, hu, hv⟩ := hds.append_inv
      obtain ⟨es, rfl, hes⟩ := hv.cons_inv (by decide)
      exact .cons (hu.not_mem (by decide) hinner) (ih hes)

/-- A pragma in another case is a pragma. -/
theorem IsPragma.recased
    {t w : Text} (h : IsPragma t) (hw : Recased t w) :
    IsPragma w := by
  obtain ⟨name, args, rfl, hname, hall, hargs⟩ := h
  obtain ⟨ds, rfl, hds⟩ := hw.cons_inv (by decide)
  obtain ⟨es, rfl, hes⟩ := hds.cons_inv (by decide)
  obtain ⟨u, v, rfl, hu, hv⟩ := hes.append_inv
  obtain ⟨hu', hne⟩ := hu.isNameChar hall
  exact ⟨u, v, rfl, hne hname, hu', hargs.recased hv⟩

/-- Arguments are measured as such in front of anything but another argument. -/
theorem IsArguments.argumentsLength_append
    {args : Text} (h : IsArguments args) {b : Text} (hb : b.head? ≠ some '[') :
    argumentsLength (args ++ b) = args.length := by
  induction h with
  | nil =>
      rw [List.nil_append]
      unfold argumentsLength
      split
      · simp at hb
      · rfl
  | @cons inner more hinner _ ih =>
      have hclosed : (inner ++ ']' :: (more ++ b)).takeWhile (· != ']') = inner := by
        rw [List.takeWhile_append_of_pos, List.takeWhile_cons_of_neg (by simp), List.append_nil]
        intro c hc
        simp only [bne_iff_ne]
        rintro rfl
        exact hinner hc
      rw [List.cons_append, List.append_assoc, List.cons_append, argumentsLength, hclosed,
        if_pos (by simp), List.drop_append, List.drop_of_length_le (by omega)]
      simp [ih]
      omega

/-- A pragma is measured as such in front of anything that is no name and no argument. -/
theorem IsPragma.measure
    {c : Char} {cs b : Text} (h : IsPragma (c :: cs))
    (hb : ∀ d, b.head? = some d → isNameChar d = false ∧ d ≠ '[') :
    Lexeme.measure c (cs ++ b) = .ok (.pragma, cs.length) := by
  obtain ⟨name, args, heq, hname, hall, hargs⟩ := h
  injection heq with hc hcs
  subst hc hcs
  have htake : (name ++ (args ++ b)).takeWhile isNameChar = name := by
    rw [List.takeWhile_append_of_pos hall]
    have hstop : (args ++ b).takeWhile isNameChar = [] := by
      cases hargs with
      | nil =>
          cases b with
          | nil => rfl
          | cons d ds =>
              rw [List.nil_append, List.takeWhile_cons_of_neg]
              simp [(hb d rfl).1]
      | cons _ _ => rw [List.cons_append, List.takeWhile_cons_of_neg (by decide)]
    rw [hstop, List.append_nil]
  have hhead : b.head? ≠ some '[' := fun hhead => (hb '[' hhead).2 rfl
  have hlength : pragmaLength? ('#' :: (name ++ args) ++ b) =
      some ('#' :: (name ++ args)).length := by
    rw [List.cons_append, List.append_assoc, pragmaLength?, htake, List.drop_left,
      hargs.argumentsLength_append hhead]
    simp [hname]
    omega
  unfold Lexeme.measure
  rw [if_neg (by decide), if_neg (by decide), if_neg (by decide), if_pos rfl, hlength]

end Word
end AbapLayout
