import AbapLayout.Proofs.UnitText
import Mathlib.Data.List.Find
import Mathlib.Data.List.TakeWhile

/-!
# Measures in front of blank characters

A unit of a line is measured alike in front of blank characters and at the end of the line, but for
one: a hyphen at the very end of a line belongs to the word in front of it, a hyphen in front of
blank characters is a unit of its own (`Lexeme.measure_append_blank`).
-/

namespace AbapLayout
namespace Text

/-- What the blank characters confirm one by one holds of all of them. -/
theorem forall_blank
    {P : Char → Prop}
    (h : ∀ range ∈ blankRanges, ∀ n ∈ List.range' range.1 (range.2 + 1 - range.1),
      P (Char.ofNat n))
    (c : Char) (hc : isBlank c = true) :
    P c := by
  rw [isBlank, inRanges, List.any_eq_true] at hc
  obtain ⟨range, hrange, hc⟩ := hc
  simp only [Bool.and_eq_true, decide_eq_true_eq] at hc
  have := h range hrange c.toNat (List.mem_range'_1.mpr (by omega))
  rwa [Char.ofNat_toNat] at this

/-- The signs that mean something to a measure. -/
def tellingSigns : List Char :=
  "\x22'`|#*\x5c\x7b\x7d[]-+_<>=&?/".toList

/-- No measure goes on through a blank character. -/
theorem stops_of_isBlank
    {c : Char} (h : isBlank c = true) :
    Word.isWordChar c = false ∧ Word.isNameChar c = false ∧ isAlphanumeric c = false ∧
      isDigit c = false ∧ ∀ sign ∈ tellingSigns, (c == sign) = false := by
  have hsigns := forall_blank (P := fun c => Word.isWordChar c = false ∧ Word.isNameChar c = false ∧
    isAlphanumeric c = false ∧ isDigit c = false ∧
    tellingSigns.all (fun sign => !(c == sign)) = true) (by decide +kernel) c h
  simpa using hsigns

end Text

/-! ## Measures -/

/-- The length `n` of a unit that takes a text to its end and the length `m` of one that leaves out
the hyphen at its end. -/
def LosesHyphen (cs : Text) (n m : Nat) : Prop :=
  ∃ ds, cs = ds ++ ['-'] ∧ n = ds.length + 1 ∧ m = ds.length

theorem LosesHyphen.append
    {cs : Text} {n m : Nat} (h : LosesHyphen cs n m) (before : Text) :
    LosesHyphen (before ++ cs) (before.length + n) (before.length + m) := by
  obtain ⟨ds, rfl, rfl, rfl⟩ := h
  exact ⟨before ++ ds, by simp, by simp [Nat.add_assoc], by simp⟩

theorem takeWhile_append_of_stops
    {p : Char → Bool} {s : Text} (hs : ∀ c ∈ s, p c = false) (cs : Text) :
    (cs ++ s).takeWhile p = cs.takeWhile p := by
  induction cs with
  | nil =>
      cases s with
      | nil => rfl
      | cons b more => simp [hs b (by simp)]
  | cons c cs ih => simp only [List.cons_append, List.takeWhile_cons, ih]

theorem Literal.quotedLength_of_not_mem
    {quote : Char} {t : Text} (h : quote ∉ t) :
    Literal.quotedLength quote t = .error .openLiteral := by
  induction t with
  | nil => rfl
  | cons c cs ih =>
      rw [List.mem_cons, not_or] at h
      rw [Literal.quotedLength.eq_def]
      simp [Ne.symm h.1, ih h.2, Except.map]

theorem Literal.quotedLength_append_of_not_mem
    {quote : Char} {s : Text} (hquote : quote ∉ s) (cs : Text) :
    Literal.quotedLength quote (cs ++ s) = Literal.quotedLength quote cs := by
  fun_induction Literal.quotedLength quote cs with
  | case1 => exact Literal.quotedLength_of_not_mem hquote
  | case2 =>
      have hhead : s.head? ≠ some quote := fun h => hquote (List.mem_of_head? h)
      exact Literal.quotedLength_quote hhead
  | case3 ds ih => simp [Literal.quotedLength, ih]
  | case4 d ds hd => simp [Literal.quotedLength, hd]
  | case5 c cs hc ih =>
      rw [List.cons_append, Literal.quotedLength.eq_def]
      simp [hc, ih]

theorem Literal.isQuote_of_isBlank
    {c : Char} (h : Text.isBlank c = true) :
    Literal.isQuote c = false := by
  obtain ⟨-, -, -, -, hsign⟩ := Text.stops_of_isBlank h
  simp [Literal.isQuote, hsign '\x27' (by decide), hsign '\x60' (by decide)]

theorem Literal.templateLength_of_blank
    {s : Text} (hs : ∀ c ∈ s, Text.isBlank c = true) (depth : Nat) (outer : List Nat) :
    Literal.templateLength depth outer s = .error .openTemplate := by
  induction s generalizing depth with
  | nil => simp [Literal.templateLength]
  | cons b more ih =>
      have hb := hs b (by simp)
      have hsign : ∀ sign ∈ Text.tellingSigns, b ≠ sign := fun sign hsign => by
        simpa using (Text.stops_of_isBlank hb).2.2.2.2 sign hsign
      rw [Literal.templateLength.eq_def]
      simp [hsign '\x5c' (by decide), hsign '|' (by decide), hsign '\x7b' (by decide),
        hsign '\x7d' (by decide), Literal.isQuote_of_isBlank hb,
        ih fun c hc => hs c (by simp [hc]), Except.map]

section Measures

variable {s : Text} (hs : ∀ c ∈ s, Text.isBlank c = true)

include hs

theorem Word.length_blank : Word.length s = 0 := by
  cases s with
  | nil => rfl
  | cons b more =>
      obtain ⟨hword, -, -, -, hsign⟩ := Text.stops_of_isBlank (hs b (by simp))
      rw [Word.length]
      simp [hword, hsign '-' (by decide), hsign '+' (by decide)]

theorem Word.beginsOffset_append_blank (cs : Text) :
    Word.beginsOffset (cs ++ s) = Word.beginsOffset cs := by
  cases cs with
  | cons c cs => rfl
  | nil =>
      cases s with
      | nil => rfl
      | cons b more => exact (Text.stops_of_isBlank (hs b (by simp))).2.2.2.1

theorem Word.begins_append_blank (c : Char) (cs : Text) :
    Word.begins c (cs ++ s) = Word.begins c cs := by
  cases cs with
  | cons d cs => rfl
  | nil =>
      cases s with
      | nil => rfl
      | cons b more =>
          obtain ⟨-, -, halnum, hdigit, hsign⟩ := Text.stops_of_isBlank (hs b (by simp))
          unfold Word.begins
          simp [halnum, hdigit, hsign '_' (by decide)]

/-- A word that ends in a hyphen at the end of the line ends in front of the hyphen if blank
characters follow; nothing else changes. -/
theorem Word.length_append_blank (cs : Text) :
    Word.length (cs ++ s) = Word.length cs ∨
      LosesHyphen cs (Word.length cs) (Word.length (cs ++ s)) := by
  induction cs with
  | nil => exact .inl (Word.length_blank hs)
  | cons c cs ih =>
      have hoffset := Word.beginsOffset_append_blank hs cs
      by_cases hlast : c = '-' ∧ cs = [] ∧ s ≠ []
      · obtain ⟨rfl, rfl, hne⟩ := hlast
        obtain ⟨b, more, rfl⟩ := List.exists_cons_of_ne_nil hne
        obtain ⟨-, -, halnum, -, hsign⟩ := Text.stops_of_isBlank (hs b (by simp))
        have hstops : Word.selectsComponent (b :: more) = false := by
          simp [Word.selectsComponent, halnum, hsign '_' (by decide), hsign '<' (by decide)]
        have hword : Word.isWordChar '-' = false := by decide
        refine .inr ⟨[], rfl, rfl, ?_⟩
        rw [List.singleton_append, Word.length]
        simp [hstops, hword]
      · have hselects : (c == '-' && Word.selectsComponent (cs ++ s)) =
            (c == '-' && Word.selectsComponent cs) := by
          cases cs with
          | cons d cs => rfl
          | nil =>
              by_cases hc : c = '-'
              · have hnil : s = [] := by simpa [hc] using hlast
                rw [hnil]
                rfl
              · simp [beq_false_of_ne hc]
        rw [List.cons_append, Word.length, Word.length, hoffset, hselects]
        split
        · rcases ih with ih | ih
          · exact .inl (by rw [ih])
          · refine .inr ?_
            simpa [Nat.add_comm] using ih.append [c]
        · exact .inl rfl

theorem Word.fieldSymbolLength?_append_blank (cs : Text) :
    Word.fieldSymbolLength? (cs ++ s) = Word.fieldSymbolLength? cs ∨
      ∃ n m, LosesHyphen cs n m ∧ Word.fieldSymbolLength? cs = some n ∧
        Word.fieldSymbolLength? (cs ++ s) = some m := by
  have hname : (cs ++ s).takeWhile (fun c => Word.isNameChar c || c == '/') =
      cs.takeWhile fun c => Word.isNameChar c || c == '/' := by
    refine takeWhile_append_of_stops (fun b hb => ?_) cs
    obtain ⟨-, hname, -, -, hsign⟩ := Text.stops_of_isBlank (hs b hb)
    simp [hname, hsign '/' (by decide)]
  have hsplit := List.takeWhile_append_dropWhile (p := fun c => Word.isNameChar c || c == '/')
    (l := cs)
  unfold Word.fieldSymbolLength?
  rw [hname]
  generalize cs.takeWhile (fun c => Word.isNameChar c || c == '/') = name at hsplit ⊢
  generalize cs.dropWhile (fun c => Word.isNameChar c || c == '/') = rest at hsplit
  subst hsplit
  simp only [List.append_assoc, List.drop_left]
  cases rest with
  | nil =>
      left
      cases s with
      | nil => rfl
      | cons b more =>
          have hangle : b ≠ '>' := by
            simpa using (Text.stops_of_isBlank (hs b (by simp))).2.2.2.2 '>' (by decide)
          simp [hangle]
  | cons c more =>
      by_cases hc : c = '>'
      · subst hc
        simp only [List.cons_append]
        split
        · exact .inl rfl
        · rcases Word.length_append_blank hs more with h | h
          · exact .inl (by rw [h])
          · refine .inr ⟨_, _, ?_, rfl, rfl⟩
            simpa [Nat.add_assoc] using h.append (name ++ ['>'])
      · left
        simp [hc]

theorem Word.argumentsLength_append_blank (cs : Text) :
    Word.argumentsLength (cs ++ s) = Word.argumentsLength cs := by
  fun_induction Word.argumentsLength cs with
  | case1 cs n hn ih =>
      have hclosed : (cs ++ s).takeWhile (· != ']') = cs.takeWhile (· != ']') := by
        rw [List.takeWhile_append, if_neg (by omega)]
      rw [List.cons_append, Word.argumentsLength, hclosed,
        if_pos (by rw [List.length_append]; omega), List.drop_append_of_le_length (by omega), ih]
  | case2 cs n hn =>
      have hbracket : ∀ c ∈ s, (c != ']') = true := fun c hc => by
        simpa using (Text.stops_of_isBlank (hs c hc)).2.2.2.2 ']' (by decide)
      have hopen : (cs.takeWhile (· != ']')).length = cs.length := by
        have := (List.takeWhile_prefix (· != ']') (l := cs)).length_le
        omega
      rw [List.cons_append, Word.argumentsLength, List.takeWhile_append, if_pos hopen,
        List.takeWhile_eq_self_iff.2 hbracket, if_neg (Nat.lt_irrefl _)]
  | case3 cs hcs =>
      cases cs with
      | nil =>
          cases s with
          | nil => simp [Word.argumentsLength]
          | cons b more =>
              have hbracket : b ≠ '[' := by
                simpa using (Text.stops_of_isBlank (hs b (by simp))).2.2.2.2 '[' (by decide)
              simp [Word.argumentsLength, hbracket]
      | cons c cs =>
          have hbracket : c ≠ '[' := by
            rintro rfl
            exact hcs cs rfl
          simp [Word.argumentsLength, hbracket]

theorem Word.pragmaLength?_append_blank (cs : Text) :
    Word.pragmaLength? (cs ++ s) = Word.pragmaLength? cs := by
  have hhash : ∀ c ∈ s, (c == '#') = false := fun c hc =>
    (Text.stops_of_isBlank (hs c hc)).2.2.2.2 '#' (by decide)
  cases cs with
  | nil =>
      cases s with
      | nil => rfl
      | cons b more => simp [Word.pragmaLength?, ne_of_beq_false (hhash b (by simp))]
  | cons c cs =>
      by_cases hc : c = '#'
      · subst hc
        have hname : (cs ++ s).takeWhile Word.isNameChar = cs.takeWhile Word.isNameChar :=
          takeWhile_append_of_stops (fun b hb => (Text.stops_of_isBlank (hs b hb)).2.1) cs
        have hle := (List.takeWhile_prefix Word.isNameChar (l := cs)).length_le
        simp only [List.cons_append, Word.pragmaLength?, hname]
        rw [List.drop_append_of_le_length hle, Word.argumentsLength_append_blank hs]
      · simp [Word.pragmaLength?, hc]

theorem startsWith_append_blank
    {start : Text} (hstart : ∀ c ∈ start, Text.isBlank c = false) (cs : Text) :
    Text.startsWith (cs ++ s) start = Text.startsWith cs start := by
  unfold Text.startsWith
  induction start generalizing cs with
  | nil => simp
  | cons c start ih =>
      cases cs with
      | cons d cs =>
          simp only [List.cons_append, List.isPrefixOf_cons_cons]
          rw [ih fun e he => hstart e (by simp [he])]
      | nil =>
          cases s with
          | nil => rfl
          | cons b more =>
              have hne : c ≠ b := by
                rintro rfl
                simpa [hs c (by simp)] using hstart c (by simp)
              simp [List.isPrefixOf, hne]

theorem Word.operator?_append_blank (cs : Text) :
    Word.operator? (cs ++ s) = Word.operator? cs := by
  have hoperators : ∀ op ∈ Word.operators, op.toList.all (fun c => !Text.isBlank c) = true := by
    decide
  unfold Word.operator?
  refine List.find?_congr fun op hop => ?_
  exact startsWith_append_blank hs (by simpa using hoperators op hop) cs

theorem Literal.templateLength_append_blank (depth : Nat) (outer : List Nat) (cs : Text) :
    Literal.templateLength depth outer (cs ++ s) = Literal.templateLength depth outer cs := by
  have hquote {q : Char} (hq : Literal.isQuote q = true) : q ∉ s := fun hmem => by
    simp [Literal.isQuote_of_isBlank (hs q hmem)] at hq
  fun_induction Literal.templateLength depth outer cs with
  | case1 depth outer => exact Literal.templateLength_of_blank hs depth outer
  | case2 outer =>
      -- A backslash at the end of the line takes the first blank character.
      rw [List.singleton_append, Literal.templateLength.eq_def]
      cases s with
      | nil => simp
      | cons b more =>
          have hmore : ∀ c ∈ more, Text.isBlank c = true := fun c hc => hs c (by simp [hc])
          simp [Literal.templateLength_of_blank hmore, Except.map]
  | case11 depth outer c cs hdepth hopen hclose hbar hc fault hfault =>
      rw [List.cons_append, Literal.templateLength.eq_def]
      simp [hdepth, hopen, hclose, hbar, hc, hfault,
        Literal.quotedLength_append_of_not_mem (hquote hc) cs]
  | case12 depth outer c cs hdepth hopen hclose hbar hc n hn ih =>
      rw [List.cons_append, Literal.templateLength.eq_def]
      simp [hdepth, hopen, hclose, hbar, hc, hn, ih,
        Literal.quotedLength_append_of_not_mem (hquote hc) cs,
        List.drop_append_of_le_length (Literal.quotedLength_le hn)]
  | _ =>
      simp only [List.cons_append]
      rw [Literal.templateLength.eq_def]
      simp [*]

/-- What is neither a literal nor a comment is measured alike, but for a word that ends in a
hyphen. -/
theorem Lexeme.measurePlain_append_blank (c : Char) (cs : Text) :
    Lexeme.measurePlain c (cs ++ s) = Lexeme.measurePlain c cs ∨
      ∃ n m, LosesHyphen cs n m ∧ Lexeme.measurePlain c cs = (.word, n) ∧
        Lexeme.measurePlain c (cs ++ s) = (.word, m) := by
  have hbegins := Word.begins_append_blank hs c cs
  have hoperator : Word.operator? (c :: (cs ++ s)) = Word.operator? (c :: cs) :=
    Word.operator?_append_blank hs (c :: cs)
  by_cases halone : c = '.' ∨ c = ',' ∨ c = ':' ∨ isBracket c = true
  · left
    unfold measurePlain
    rcases halone with rfl | rfl | rfl | hbracket
    · rfl
    · rfl
    · rfl
    · simp [hbracket]
  · simp only [not_or, Bool.not_eq_true] at halone
    obtain ⟨hdot, hcomma, hcolon, hbracket⟩ := halone
    have hfield : (if c = '<' then Word.fieldSymbolLength? (cs ++ s) else none) =
          (if c = '<' then Word.fieldSymbolLength? cs else none) ∨
        ∃ n m, LosesHyphen cs n m ∧
          (if c = '<' then Word.fieldSymbolLength? cs else none) = some n ∧
          (if c = '<' then Word.fieldSymbolLength? (cs ++ s) else none) = some m := by
      split
      · exact Word.fieldSymbolLength?_append_blank hs cs
      · exact .inl rfl
    unfold measurePlain
    simp only [hdot, hcomma, hcolon, hbracket, or_self, if_false, Bool.false_eq_true, hbegins,
      hoperator]
    rcases hfield with hfield | ⟨n, m, hloses, hn, hm⟩
    · rw [hfield]
      split
      · exact .inl rfl
      split
      · rcases Word.length_append_blank hs cs with hlength | hloses
        · exact .inl (by rw [hlength])
        · exact .inr ⟨_, _, hloses, rfl, rfl⟩
      · exact .inl rfl
    · exact .inr ⟨n, m, hloses, by rw [hn], by rw [hm]⟩

/-- A unit is the same in front of blank characters as at the end of the line, but for a word that
ends in a hyphen. -/
theorem Lexeme.measure_append_blank (c : Char) (cs : Text) :
    Lexeme.measure c (cs ++ s) = Lexeme.measure c cs ∨
      ∃ n m, LosesHyphen cs n m ∧ Lexeme.measure c cs = .ok (.word, n) ∧
        Lexeme.measure c (cs ++ s) = .ok (.word, m) := by
  unfold measure
  split
  · exact .inl (by rw [Text.trimRight_append_blank _ _ hs])
  split
  next hquote =>
    have hmem : c ∉ s := fun hmem => by
      simp [Literal.isQuote_of_isBlank (hs c hmem)] at hquote
    exact .inl (by rw [Literal.quotedLength_append_of_not_mem hmem])
  split
  · exact .inl (by rw [Literal.templateLength_append_blank hs])
  have hpragma : (if c = '#' then Word.pragmaLength? (cs ++ s) else none) =
      if c = '#' then Word.pragmaLength? cs else none := by
    rw [Word.pragmaLength?_append_blank hs]
  rw [hpragma]
  split
  · exact .inl rfl
  · rcases Lexeme.measurePlain_append_blank hs c cs with h | ⟨n, m, hloses, hn, hm⟩
    · exact .inl (by rw [h])
    · exact .inr ⟨n, m, hloses, by rw [hn], by rw [hm]⟩

end Measures

end AbapLayout
