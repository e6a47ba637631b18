import AbapLayout.Proofs.LetterCase
import AbapLayout.Proofs.Lexing
import AbapLayout.Proofs.Spread

/-!
# The texts of tokens

How the units that `Lexeme.measure` measures look.  For the layout it matters that no text begins or
ends in a blank character, neither as it is written nor in another case (`solid_tokenText`): then
blanks at the end of a line never belong to a token.
-/

namespace AbapLayout

/-! ## Characters of words and operators -/

namespace Word

theorem toNat_lt_of_isAlphanum
    {c : Char} (h : c.isAlphanum = true) :
    c.toNat < 128 := by
  have hletter : ∀ d : Char, c.val ≤ d.val → d.toNat < 128 → c.toNat < 128 := fun d hle hd =>
    Nat.lt_of_le_of_lt (UInt32.le_iff_toNat_le.mp hle) hd
  rcases Bool.or_eq_true_iff.mp h with halpha | hdigit
  · rcases Bool.or_eq_true_iff.mp halpha with hupper | hlower
    · exact hletter 'Z' (of_decide_eq_true hupper).2 (by decide)
    · exact hletter 'z' (of_decide_eq_true (Bool.and_eq_true_iff.mp hlower).2) (by decide)
  · exact hletter '9' (of_decide_eq_true (Bool.and_eq_true_iff.mp hdigit).2) (by decide)

/-- The characters that stand inside words and field symbols. -/
def isInner (c : Char) : Bool :=
  isWordChar c || c == '-' || c == '+' || c == '>'

theorem toNat_lt_of_isInner
    {c : Char} (h : isInner c = true) :
    c.toNat < 128 := by
  simp only [isInner, isWordChar, Bool.or_eq_true, List.contains_iff_mem, beq_iff_eq] at h
  rcases h with (((h | h) | rfl) | rfl) | rfl
  · exact toNat_lt_of_isAlphanum h
  · have hall : ∀ d ∈ "_%$#/~!@".toList, d.toNat < 128 :=
      Text.forall_mem_of_all (by decide)
    exact hall c h
  · decide
  · decide
  · decide

theorem isBlank_of_isInner
    {c : Char} (h : isInner c = true) :
    Text.isBlank c = false := by
  have hcode := toNat_lt_of_isInner h
  revert h
  exact Text.forall_ascii (P := fun c => isInner c = true → Text.isBlank c = false)
    (by decide) c hcode

theorem isInner_of_isNameChar
    {c : Char} (h : isNameChar c = true) :
    isInner c = true := by
  simp only [isNameChar, Bool.or_eq_true, beq_iff_eq] at h
  rcases h with h | rfl
  · simp [isInner, isWordChar, h]
  · decide

/-- A word goes on with inner characters. -/
theorem isInner_of_mem_take_length (cs : Text) : ∀ c ∈ cs.take (length cs), isInner c = true := by
  induction cs with
  | nil => simp
  | cons c cs ih =>
      rw [length]
      split
      next hgoes =>
        intro d hd
        rw [List.take_succ_cons, List.mem_cons] at hd
        rcases hd with rfl | hd
        · simp only [Bool.or_eq_true, Bool.and_eq_true] at hgoes
          simp only [isInner, Bool.or_eq_true]
          rcases hgoes with (h | h) | h
          · exact .inl (.inl (.inl h))
          · exact .inl (.inl (.inr h.1))
          · exact .inl (.inr h.1)
        · exact ih d hd
      next => simp

/-- The characters of the name of a field symbol. -/
def isSymbolChar (c : Char) : Bool :=
  isNameChar c || c == '/'

theorem isInner_of_isSymbolChar
    {c : Char} (h : isSymbolChar c = true) :
    isInner c = true := by
  simp only [isSymbolChar, Bool.or_eq_true, beq_iff_eq] at h
  rcases h with h | rfl
  · exact isInner_of_isNameChar h
  · decide

theorem takeWhile_append_drop
    (p : Char → Bool) (cs : Text) :
    cs.takeWhile p ++ cs.drop (cs.takeWhile p).length = cs := by
  have htake : cs.take (cs.takeWhile p).length = cs.takeWhile p :=
    (List.prefix_iff_eq_take.mp (List.takeWhile_prefix p)).symm
  conv => lhs; lhs; rw [← htake]
  exact List.take_append_drop _ cs

/-- The length of a field symbol with the given name, in front of the given rest. -/
def symbolLength (name : Text) : Text → Option Nat
  | '>' :: more => if name.isEmpty then none else some (name.length + 1 + length more)
  | _ => none

theorem fieldSymbolLength?_eq (cs : Text) :
    fieldSymbolLength? cs =
      symbolLength (cs.takeWhile isSymbolChar) (cs.drop (cs.takeWhile isSymbolChar).length) :=
  rfl

/-- A field symbol is a name, a closing angle bracket and what a word goes on with. -/
theorem fieldSymbolLength?_eq_some_iff
    {cs : Text} {n : Nat} :
    fieldSymbolLength? cs = some n ↔
      ∃ name more, cs = name ++ '>' :: more ∧ name ≠ [] ∧
        (∀ c ∈ name, isSymbolChar c = true) ∧ n = name.length + 1 + length more := by
  rw [fieldSymbolLength?_eq]
  constructor
  · intro h
    unfold symbolLength at h
    split at h
    next more hmore =>
      split at h
      · simp at h
      next hname =>
        injection h with h
        refine ⟨cs.takeWhile isSymbolChar, more, ?_, by simpa using hname, ?_, h.symm⟩
        · rw [← hmore, takeWhile_append_drop]
        · exact fun c hc => List.all_eq_true.mp (List.all_takeWhile (l := cs)) c hc
    next => simp at h
  · rintro ⟨name, more, rfl, hname, hall, rfl⟩
    have htake : (name ++ '>' :: more).takeWhile isSymbolChar = name := by
      rw [List.takeWhile_append_of_pos hall, List.takeWhile_cons_of_neg (by decide),
        List.append_nil]
    rw [htake, List.drop_left]
    simp [symbolLength, hname]

theorem isInner_of_mem_take_fieldSymbolLength?
    {cs : Text} {n : Nat} (h : fieldSymbolLength? cs = some n) :
    ∀ c ∈ cs.take n, isInner c = true := by
  obtain ⟨name, more, rfl, -, hall, rfl⟩ := fieldSymbolLength?_eq_some_iff.mp h
  intro c hc
  rw [Nat.add_assoc, List.take_length_add_append, Nat.add_comm 1, List.take_succ_cons,
    List.mem_append, List.mem_cons] at hc
  rcases hc with hc | rfl | hc
  · exact isInner_of_isSymbolChar (hall c hc)
  · decide
  · exact isInner_of_mem_take_length more c hc

/-! ## Pragmas -/

/-- Arguments of a pragma: texts without a closing square bracket, each in square brackets. -/
inductive IsArguments : Text → Prop where
  | nil : IsArguments []
  | cons {inner more : Text} :
      ']' ∉ inner → IsArguments more → IsArguments ('[' :: (inner ++ ']' :: more))

theorem IsArguments.ends
    {args : Text} (h : IsArguments args) :
    args = [] ∨ ∃ init, args = init ++ [']'] := by
  induction h with
  | nil => exact .inl rfl
  | @cons inner more _ _ ih =>
      rcases ih with rfl | ⟨init, rfl⟩
      · exact .inr ⟨'[' :: inner, by simp⟩
      · exact .inr ⟨'[' :: (inner ++ ']' :: init), by simp⟩

/-- What is measured as arguments are arguments. -/
theorem argumentsLength_spec (cs : Text) :
    ∃ args rest, cs = args ++ rest ∧ IsArguments args ∧ argumentsLength cs = args.length := by
  fun_induction argumentsLength cs with
  | case1 cs n hn ih =>
      obtain ⟨args, rest, hdrop, hargs, hlength⟩ := ih
      have hsplit := takeWhile_append_drop (· != ']') cs
      have hclosed : cs.drop n = ']' :: cs.drop (n + 1) := by
        rw [List.drop_eq_getElem_cons hn]
        congr 1
        have hrest : cs.drop n = cs.dropWhile (· != ']') := by
          rw [← List.append_cancel_left_eq (cs.takeWhile (· != ']')), hsplit,
            List.takeWhile_append_dropWhile]
        have hhead := List.head?_dropWhile_not (· != ']') cs
        rw [← hrest, List.drop_eq_getElem_cons hn, List.head?_cons] at hhead
        simpa using hhead
      refine ⟨'[' :: (cs.takeWhile (· != ']') ++ ']' :: args), rest, ?_, .cons ?_ hargs, ?_⟩
      · rw [List.cons_append, List.append_assoc, List.cons_append, ← hdrop, ← hclosed, hsplit]
      · intro hmem
        simpa using List.all_eq_true.mp (List.all_takeWhile (l := cs)) _ hmem
      · rw [hlength]
        simp only [List.length_cons, List.length_append]
        omega
  | case2 => exact ⟨[], _, rfl, .nil, rfl⟩
  | case3 => exact ⟨[], _, rfl, .nil, rfl⟩

theorem pragmaLength?_spec
    {cs : Text} {n : Nat} (h : pragmaLength? cs = some n) :
    ∃ name args rest, cs = '#' :: (name ++ (args ++ rest)) ∧ name ≠ [] ∧
      (∀ c ∈ name, isNameChar c = true) ∧ IsArguments args ∧ n = 1 + (name ++ args).length := by
  unfold pragmaLength? at h
  split at h
  next cs =>
    dsimp only at h
    split at h
    · simp at h
    next hname =>
      injection h with h
      obtain ⟨args, rest, hdrop, hargs, hlength⟩ :=
        argumentsLength_spec (cs.drop (cs.takeWhile isNameChar).length)
      refine ⟨cs.takeWhile isNameChar, args, rest, ?_, by simpa using hname, ?_, hargs, ?_⟩
      · rw [← hdrop, takeWhile_append_drop]
      · exact fun c hc => List.all_eq_true.mp (List.all_takeWhile (l := cs)) c hc
      · rw [← h, hlength, List.length_append]
        omega
  next => simp at h

/-- An operator that is measured as a unit is its text. -/
theorem toList_of_measured
    {op : String} {c : Char} {cs rest behind : Text} (hmem : op ∈ operators)
    (hsplit : c :: (cs ++ rest) = op.toList ++ behind) (hlength : cs.length = op.length - 1) :
    op.toList = c :: cs := by
  have hne := operators_ne_nil op hmem
  have hpos : 0 < op.toList.length := List.length_pos_iff.mpr hne
  rw [String.length_toList] at hpos
  rw [← List.cons_append] at hsplit
  exact (List.append_inj hsplit (by simp only [List.length_cons, String.length_toList]; omega)).1.symm

theorem ascii_of_mem_operators :
    ∀ op ∈ operators, ∀ c ∈ op.toList, c.toNat < 128 ∧ Text.isBlank c = false := by
  intro op hop
  refine Text.forall_mem_of_all ?_
  revert op
  decide

end Word

/-! ## Literals -/

namespace Literal

theorem quotedLength_quote
    {quote : Char} {other : Text} (h : other.head? ≠ some quote) :
    quotedLength quote ([] ++ quote :: other) = .ok 1 := by
  rw [List.nil_append, quotedLength.eq_def]
  cases other with
  | nil => simp
  | cons d ds =>
      have hd : d ≠ quote := by simpa using h
      simp [hd]

/-- A quoted literal ends in a quote that is not doubled, and what stands behind does not matter
otherwise. -/
theorem quotedLength_spec
    {quote : Char} {t : Text} {n : Nat} (h : quotedLength quote t = .ok n) :
    ∃ init rest, t = init ++ quote :: rest ∧ n = init.length + 1 ∧ rest.head? ≠ some quote ∧
      ∀ other : Text, other.head? ≠ some quote →
        quotedLength quote (init ++ quote :: other) = .ok n := by
  fun_induction quotedLength quote t generalizing n with
  | case1 => simp at h
  | case2 =>
      injection h with h
      refine ⟨[], [], rfl, h.symm, by simp, ?_⟩
      intro other hother
      rw [← h]
      exact quotedLength_quote hother
  | case3 ds ih =>
      obtain ⟨m, hm, rfl⟩ := map_eq_ok_iff.mp h
      obtain ⟨init, rest, rfl, rfl, hrest, hall⟩ := ih hm
      refine ⟨quote :: quote :: init, rest, rfl, by simp, hrest, ?_⟩
      intro other hother
      rw [List.cons_append, List.cons_append, quotedLength, if_pos rfl]
      simp [hall other hother, Except.map]
  | case4 d ds hd =>
      injection h with h
      refine ⟨[], d :: ds, rfl, h.symm, by simpa using hd, ?_⟩
      intro other hother
      rw [← h]
      exact quotedLength_quote hother
  | case5 c cs hc ih =>
      obtain ⟨m, hm, rfl⟩ := map_eq_ok_iff.mp h
      obtain ⟨init, rest, rfl, rfl, hrest, hall⟩ := ih hm
      refine ⟨c :: init, rest, rfl, by simp, hrest, ?_⟩
      intro other hother
      rw [List.cons_append, quotedLength.eq_def]
      simp [hc, hall other hother, Except.map]

/-- A string template ends in a bar, and what stands behind does not matter. -/
theorem templateLength_spec
    {depth : Nat} {outer : List Nat} {t : Text} {n : Nat}
    (h : templateLength depth outer t = .ok n) :
    ∃ init rest, t = init ++ '|' :: rest ∧ n = init.length + 1 ∧
      ∀ other : Text, templateLength depth outer (init ++ '|' :: other) = .ok n := by
  fun_induction templateLength depth outer t generalizing n with
  | case1 => simp at h
  | case2 => simp at h
  | case3 outer d ds ih =>
      obtain ⟨m, hm, rfl⟩ := map_eq_ok_iff.mp h
      obtain ⟨init, rest, rfl, rfl, hall⟩ := ih hm
      refine ⟨'\x5c' :: d :: init, rest, rfl, by simp, ?_⟩
      intro other
      rw [List.cons_append, List.cons_append, templateLength.eq_def]
      simp [hall other, Except.map]
  | case4 cs =>
      injection h with h
      refine ⟨[], cs, rfl, h.symm, ?_⟩
      intro other
      rw [← h, List.nil_append, templateLength.eq_def]
      simp
  | case11 => simp at h
  | case12 depth outer c cs hdepth hopen hclose hbar hquote m hm ih =>
      obtain ⟨k, hk, rfl⟩ := map_eq_ok_iff.mp h
      obtain ⟨literal, behind, rfl, rfl, hbehind, hliteral⟩ := quotedLength_spec hm
      have hskip : ∀ tail : Text,
          (literal ++ c :: tail).drop (literal.length + 1) = tail := by
        intro tail
        rw [List.drop_append, List.drop_of_length_le (by omega)]
        simp
      rw [hskip] at ih hk
      obtain ⟨init, rest, rfl, rfl, hall⟩ := ih hk
      refine ⟨c :: (literal ++ c :: init), rest, by simp, by simp; omega, ?_⟩
      intro other
      -- The literal still ends where it did: behind it stands the same character or the bar.
      have hstops : (init ++ '|' :: other).head? ≠ some c := by
        cases init with
        | nil => simpa using Ne.symm hbar
        | cons d ds => simpa using hbehind
      have hmeasured := hliteral _ hstops
      rw [List.cons_append, List.append_assoc, List.cons_append, templateLength.eq_def]
      simp [hdepth, hopen, hclose, hbar, hquote, hmeasured, hskip, hall other, Except.map]
  | _ =>
      obtain ⟨m, hm, rfl⟩ := map_eq_ok_iff.mp h
      rename_i ih
      obtain ⟨init, rest, rfl, rfl, hall⟩ := ih hm
      refine ⟨_ :: init, rest, rfl, by simp, ?_⟩
      intro other
      rw [List.cons_append, templateLength.eq_def]
      simp [*, Except.map]

end Literal

/-! ## Units -/

namespace Lexeme

/-- The signs that are units whatever stands behind them. -/
def standsAlone (c : Char) : Bool :=
  c == '.' || c == ',' || c == ':' || isBracket c

theorem measurePlain_of_standsAlone
    {c : Char} (h : standsAlone c = true) (cs : Text) :
    measurePlain c cs = ((measurePlain c []).1, 0) := by
  simp only [standsAlone, Bool.or_eq_true, beq_iff_eq] at h
  unfold measurePlain
  split
  · rfl
  split
  · rfl
  split
  · rfl
  · simp_all

/-- The other units: field symbols, words, operators and single characters. -/
theorem measurePlain_cases
    {c : Char} (h : standsAlone c = false) (cs : Text) :
    (c = '<' ∧ ∃ n, Word.fieldSymbolLength? cs = some n ∧ measurePlain c cs = (.word, n)) ∨
    (c = '<' → Word.fieldSymbolLength? cs = none) ∧
      (Word.begins c cs = true ∧ measurePlain c cs = (.word, Word.length cs) ∨
        Word.begins c cs = false ∧
          ((∃ op, Word.operator? (c :: cs) = some op ∧
              measurePlain c cs =
                (if Word.arrows.contains op then .arrow else .word, op.length - 1)) ∨
            Word.operator? (c :: cs) = none ∧ measurePlain c cs = (.word, 0))) := by
  simp only [standsAlone, Bool.or_eq_false_iff, beq_eq_false_iff_ne] at h
  obtain ⟨⟨⟨hdot, hcomma⟩, hcolon⟩, hbracket⟩ := h
  unfold measurePlain
  rw [if_neg (by simp [hdot, hcomma]), if_neg hcolon, if_neg (by simp [hbracket])]
  split
  next n hn =>
    split at hn
    next hc => exact .inl ⟨hc, n, hn, rfl⟩
    next => simp at hn
  next hnone =>
    refine .inr ⟨fun hc => by rwa [if_pos hc] at hnone, ?_⟩
    cases hbegins : Word.begins c cs with
    | true => exact .inl ⟨rfl, by simp⟩
    | false =>
        refine .inr ⟨rfl, ?_⟩
        cases hop : Word.operator? (c :: cs) with
        | some op => exact .inl ⟨op, rfl, by simp⟩
        | none => exact .inr ⟨rfl, by simp⟩

/-- The further characters of such a unit are ASCII characters and not blank. -/
theorem ascii_of_measurePlain
    {c : Char} {cs rest : Text} {role : Role}
    (h : measurePlain c (cs ++ rest) = (role, cs.length)) :
    ∀ d ∈ cs, d.toNat < 128 ∧ Text.isBlank d = false := by
  have htake : (cs ++ rest).take cs.length = cs := List.take_left
  have hinner {d : Char} (hd : Word.isInner d = true) :
      d.toNat < 128 ∧ Text.isBlank d = false :=
    ⟨Word.toNat_lt_of_isInner hd, Word.isBlank_of_isInner hd⟩
  cases halone : standsAlone c with
  | true =>
      rw [measurePlain_of_standsAlone halone] at h
      injection h with _ hlen
      simp [List.eq_nil_of_length_eq_zero hlen.symm]
  | false =>
      rcases measurePlain_cases halone (cs ++ rest) with
        ⟨-, n, hn, heq⟩ | ⟨-, ⟨-, heq⟩ | ⟨-, ⟨op, hop, heq⟩ | ⟨-, heq⟩⟩⟩ <;>
        rw [h] at heq <;> injection heq with _ hlen
      · intro d hd
        refine hinner (Word.isInner_of_mem_take_fieldSymbolLength? hn d ?_)
        rwa [← hlen, htake]
      · intro d hd
        refine hinner (Word.isInner_of_mem_take_length (cs ++ rest) d ?_)
        rwa [← hlen, htake]
      · obtain ⟨hmem, behind, hsplit⟩ := Word.operator?_eq_some hop
        intro d hd
        refine Word.ascii_of_mem_operators op hmem d ?_
        rw [Word.toList_of_measured hmem hsplit hlen]
        exact List.mem_cons_of_mem c hd
      · simp [List.eq_nil_of_length_eq_zero hlen]

/-- No unit ends in a blank character. -/
theorem ends_of_measure
    {c : Char} {cs rest : Text} {role : Role}
    (hc : Text.isBlank c = false) (h : measure c (cs ++ rest) = .ok (role, cs.length)) :
    ∃ init d, c :: cs = init ++ [d] ∧ Text.isBlank d = false := by
  -- It is enough that no further character is blank.
  have hinner : (∀ d ∈ cs, Text.isBlank d = false) →
      ∃ init d, c :: cs = init ++ [d] ∧ Text.isBlank d = false := by
    intro hall
    refine ⟨(c :: cs).dropLast, (c :: cs).getLast (by simp), ?_, ?_⟩
    · exact (List.dropLast_concat_getLast (by simp)).symm
    · have hmem := List.getLast_mem (l := c :: cs) (by simp)
      rw [List.mem_cons] at hmem
      rcases hmem with hmem | hmem
      · rw [hmem, hc]
      · exact hall _ hmem
  have htake : (cs ++ rest).take cs.length = cs := List.take_left
  rcases measure_cases h with
    ⟨-, -, hlength⟩ | ⟨hquote, -, hlength⟩ | ⟨-, -, hlength⟩ | ⟨-, -, hlength⟩ | ⟨-, hplain⟩
  · obtain ⟨s, hs, -⟩ := Text.eq_trimRight_append (cs ++ rest)
    have hcs : cs = Text.trimRight (cs ++ rest) := (List.append_inj hs hlength).1
    rcases Text.trimRight_ends (cs ++ rest) with hnil | ⟨init, d, hends, hd⟩
    · exact ⟨[], c, by rw [hcs, hnil]; rfl, hc⟩
    · exact ⟨c :: init, d, by rw [hcs, hends]; rfl, hd⟩
  · obtain ⟨init, behind, hsplit, hlen, -, -⟩ := Literal.quotedLength_spec hlength
    rw [hsplit, hlen, List.take_append, List.take_of_length_le (by omega)] at htake
    refine ⟨c :: init, c, ?_, hc⟩
    simp [← htake]
  · obtain ⟨init, behind, hsplit, hlen, -⟩ := Literal.templateLength_spec hlength
    rw [hsplit, hlen, List.take_append, List.take_of_length_le (by omega)] at htake
    refine ⟨c :: init, '|', ?_, by decide⟩
    simp [← htake]
  · obtain ⟨name, args, behind, hsplit, hname, hall, hargs, hlen⟩ := Word.pragmaLength?_spec hlength
    have hcs : cs = '#' :: (name ++ args) := by
      rw [hsplit, hlen, Nat.add_comm, List.take_succ_cons, ← List.append_assoc,
        List.take_left] at htake
      exact htake.symm
    rcases hargs.ends with rfl | ⟨init, rfl⟩
    · refine hinner ?_
      intro d hd
      rw [hcs, List.append_nil, List.mem_cons] at hd
      rcases hd with rfl | hd
      · decide
      · exact Word.isBlank_of_isInner (Word.isInner_of_isNameChar (hall d hd))
    · exact ⟨c :: '#' :: (name ++ init), ']', by simp [hcs], by decide⟩
  · exact hinner fun d hd => (ascii_of_measurePlain hplain d hd).2

end Lexeme

/-- The text of a token begins and ends in a character that is not blank. -/
theorem Token.ends_of_unit
    {t : Token} (h : t.IsUnit ∨ t.isStarComment = true ∧ Text.trimRight t.text = t.text) :
    (∃ c cs, t.text = c :: cs ∧ Text.isBlank c = false) ∧
      ∃ init d, t.text = init ++ [d] ∧ Text.isBlank d = false := by
  rcases h with ⟨c, cs, rest, htext, hc, hmeasure⟩ | ⟨hstar, htrim⟩
  · refine ⟨⟨c, cs, htext, hc⟩, ?_⟩
    rw [htext]
    exact Lexeme.ends_of_measure hc hmeasure
  · rw [Token.isStarComment, Bool.and_eq_true, beq_iff_eq] at hstar
    obtain ⟨-, hhead⟩ := hstar
    obtain ⟨cs, htext⟩ := List.head?_eq_some_iff.mp hhead
    refine ⟨⟨'*', cs, htext, by decide⟩, ?_⟩
    rcases Text.trimRight_ends t.text with hnil | ⟨init, d, hends, hd⟩
    · rw [htrim, htext] at hnil
      simp at hnil
    · exact ⟨init, d, by rw [← hends, htrim], hd⟩

theorem Token.Lexed.solid
    {t : Token} (h : t.Lexed) :
    t.text.Solid :=
  ⟨(Token.ends_of_unit h.unit).1, (Token.ends_of_unit h.unit).2, h.oneLine⟩

/-! ## Texts in another case -/

namespace Text

theorem isBlank_of_mem_upperChar
    {c d : Char} (hc : isBlank c = false) (hd : d ∈ upperChar c) :
    isBlank d = false := by
  cases hblank : isBlank d with
  | false => rfl
  | true =>
      have hcd := eq_of_mem_upperChar hd (by simp [isCaseless, hblank])
      simp [← hcd, hc] at hblank

/-- The small form of a character behind some others. -/
def lowerHere (afterCased : Bool) (c : Char) (cs : Text) : Text :=
  if c = 'Σ' then [if afterCased && !beginsCased cs then 'ς' else 'σ'] else lowerChar c

theorem isBlank_of_mem_lowerHere
    {afterCased : Bool} {c d : Char} {cs : Text} (hc : isBlank c = false)
    (hd : d ∈ lowerHere afterCased c cs) :
    isBlank d = false := by
  unfold lowerHere at hd
  split at hd
  · rw [List.mem_singleton] at hd
    subst hd
    split <;> decide
  · cases hblank : isBlank d with
    | false => rfl
    | true =>
        have hcd := eq_of_mem_lowerChar hd (by simp [isCaseless, hblank])
        simp [← hcd, hc] at hblank

theorem lowerHere_ne_nil (afterCased : Bool) (c : Char) (cs : Text) :
    lowerHere afterCased c cs ≠ [] := by
  unfold lowerHere
  split
  · simp
  · exact lowerChar_ne_nil c

theorem lowerAfter_append_singleton (afterCased : Bool) (cs : Text) (c : Char) :
    ∃ init flag, lowerAfter afterCased (cs ++ [c]) = init ++ lowerHere flag c [] := by
  induction cs generalizing afterCased with
  | nil => exact ⟨[], afterCased, by simp [lowerAfter, lowerHere]⟩
  | cons d ds ih =>
      obtain ⟨init, flag, hinit⟩ := ih (if isCaseIgnorable d then afterCased else isCased d)
      refine ⟨lowerHere afterCased d (ds ++ [c]) ++ init, flag, ?_⟩
      rw [List.cons_append, lowerAfter, hinit, List.append_assoc]
      rfl

theorem OneLine.upper {t : Text} (h : OneLine t) : OneLine (upper t) := by
  intro d hd
  obtain ⟨c, hc, hd⟩ := List.mem_flatMap.mp hd
  cases hbreak : isBreak d with
  | false => rfl
  | true =>
      have hcd := eq_of_mem_upperChar hd (by simp [isCaseless, isBlank_of_isBreak hbreak])
      rw [← hbreak, ← hcd, h c hc]

theorem OneLine.lowerAfter
    {t : Text} (h : OneLine t) (afterCased : Bool) :
    OneLine (lowerAfter afterCased t) := by
  induction t generalizing afterCased with
  | nil => exact OneLine.nil
  | cons c cs ih =>
      obtain ⟨hc, hcs⟩ := oneLine_cons.mp h
      refine oneLine_append.mpr ⟨?_, ih hcs _⟩
      intro d hd
      split at hd
      · rw [List.mem_singleton] at hd
        subst hd
        split <;> decide
      · cases hbreak : isBreak d with
        | false => rfl
        | true =>
            have hcd := eq_of_mem_lowerChar hd (by simp [isCaseless, isBlank_of_isBreak hbreak])
            rw [← hbreak, ← hcd, hc]

/-- A text begins and ends as two others do. -/
theorem solid_of_ends
    {t : Text} (hline : OneLine t) (front more init back : Text)
    (hbegins : t = front ++ more) (hends : t = init ++ back)
    (hfront : front ≠ []) (hback : back ≠ [])
    (hblank : ∀ c ∈ front, isBlank c = false) (hblank' : ∀ c ∈ back, isBlank c = false) :
    Solid t := by
  obtain ⟨c, cs, rfl⟩ := List.exists_cons_of_ne_nil hfront
  refine ⟨⟨c, cs ++ more, hbegins, hblank c (by simp)⟩, ?_, hline⟩
  have hlast := List.dropLast_concat_getLast hback
  refine ⟨init ++ back.dropLast, back.getLast hback, ?_, hblank' _ (List.getLast_mem hback)⟩
  rw [List.append_assoc, hlast, hends]

theorem Solid.upper {t : Text} (h : Solid t) : Solid (upper t) := by
  obtain ⟨⟨c, cs, hbegins, hc⟩, ⟨ds, d, hends, hd⟩, hline⟩ := h
  refine solid_of_ends hline.upper (upperChar c) (Text.upper cs) (Text.upper ds) (upperChar d) ?_ ?_
    (upperChar_ne_nil c) (upperChar_ne_nil d)
    (fun e he => isBlank_of_mem_upperChar hc he) (fun e he => isBlank_of_mem_upperChar hd he)
  · rw [hbegins, upper_cons]
  · rw [hends, upper_append]
    simp [Text.upper]

theorem Solid.lower {t : Text} (h : Solid t) : Solid (lower t) := by
  obtain ⟨⟨c, cs, hbegins, hc⟩, ⟨ds, d, hends, hd⟩, hline⟩ := h
  obtain ⟨init, flag, hlast⟩ := lowerAfter_append_singleton false ds d
  refine solid_of_ends (hline.lowerAfter false) (lowerHere false c cs)
    (lowerAfter (if isCaseIgnorable c then false else isCased c) cs) init (lowerHere flag d [])
    ?_ ?_ (lowerHere_ne_nil _ c cs) (lowerHere_ne_nil _ d [])
    (fun e he => isBlank_of_mem_lowerHere hc he) (fun e he => isBlank_of_mem_lowerHere hd he)
  · rw [hbegins]
    rfl
  · rw [hends]
    exact hlast

end Text

open Text

theorem Keyword.solid_printed
    (o : Options) {t : Token} (previous before : Option Token) (h : t.text.Solid) :
    (Keyword.printed o t previous before).Solid := by
  unfold Keyword.printed
  split
  · unfold Keyword.setCase
    split
    · exact h.upper
    · exact h.lower
  · exact h

theorem CommentText.solid_normalize
    (o : Options) {value : Text} (h : value.Solid) :
    (CommentText.normalize o value).Solid := by
  have hsolid := h
  obtain ⟨⟨c, cs, hbegins, hc⟩, ⟨init, d, hends, hd⟩, hline⟩ := h
  unfold CommentText.normalize
  split
  · split
    next first following rest hdrop =>
      split
      · rw [hbegins, List.dropWhile_cons_of_neg (by simp [hc])] at hdrop
        injection hdrop with hfirst hrest
        have hinit : ∃ es, following :: rest = es ++ [d] := by
          rw [hbegins, hrest] at hends
          cases init with
          | nil => simp at hends
          | cons e es => exact ⟨es, (List.cons.inj hends).2⟩
        obtain ⟨es, hes⟩ := hinit
        have hvalue : value.takeWhile isBlank ++ first :: ' ' :: following :: rest =
            c :: ' ' :: (es ++ [d]) := by
          rw [hbegins, List.takeWhile_cons_of_neg (by simp [hc]), hfirst, hes]
          rfl
        rw [hvalue]
        rw [hbegins, hrest, hes, oneLine_cons] at hline
        exact ⟨⟨c, _, rfl, hc⟩, ⟨c :: ' ' :: es, d, rfl, hd⟩,
          oneLine_cons.mpr ⟨hline.1, oneLine_cons.mpr ⟨by decide, hline.2⟩⟩⟩
      · exact hsolid
    next => exact hsolid
  · exact hsolid

/-- Every token is printed without blanks at its ends. -/
theorem solid_tokenText
    (o : Options) {t : Token} (previous before : Option Token) (h : t.Lexed) :
    (Rendering.tokenText o t previous before).Solid := by
  unfold Rendering.tokenText
  split
  · exact h.solid
  split
  · exact CommentText.solid_normalize o h.solid
  · exact Keyword.solid_printed o previous before h.solid

end AbapLayout
