import AbapLayout.Proofs.BlanksBehind

/-!
# Hyphens at the end of a line

The one thing that the blank characters behind a line change: a hyphen that ends the line belongs to
the word in front of it, and in front of blank characters it is a word of its own.  So a line has
the tokens of its trimmed form, roles, texts and spans alike, but that the last word is cut in front
of its hyphen (`tokenize_eq_detachHyphen`); and both are refused for the same fault.

The other direction needs a look at what stands behind a word: where a word goes on through a
hyphen, it does so for the sake of the character behind, or the line ends there
(`Lexeme.selectsComponent_of_measure`).
-/

namespace AbapLayout

/-! ## Words that end in a hyphen -/

namespace Word

theorem selectsComponent_of_length
    {ds rest : Text} (h : length (ds ++ '-' :: rest) = ds.length + 1) :
    selectsComponent rest = true := by
  induction ds with
  | nil =>
      have hsigns : isWordChar '-' = false ∧ ('-' == '+') = false := by decide
      rw [List.nil_append, length] at h
      by_contra hselects
      simp [hsigns, hselects] at h
  | cons d ds ih =>
      rw [List.cons_append, length] at h
      split at h
      · exact ih (by simpa using h)
      · simp at h

theorem selectsComponent_of_fieldSymbolLength?
    {ds rest : Text} (h : fieldSymbolLength? (ds ++ '-' :: rest) = some (ds.length + 1)) :
    selectsComponent rest = true := by
  unfold fieldSymbolLength? at h
  dsimp only at h
  generalize hname : (ds ++ '-' :: rest).takeWhile (fun c => isNameChar c || c == '/') = name at h
  split at h
  next more hmore =>
    split at h
    · simp at h
    · have hlength := Option.some.inj h
      have hsplit : name ++ '>' :: more = ds ++ '-' :: rest := by
        rw [← hmore, ← hname]
        exact List.prefix_iff_eq_append.mp (List.takeWhile_prefix _)
      -- The hyphen stands behind the closing bracket, in the component.
      rcases List.append_eq_append_iff.mp hsplit with ⟨es, rfl, hes⟩ | ⟨es, rfl, hes⟩
      · cases es with
        | nil => simp at hes
        | cons e es =>
            obtain ⟨rfl, rfl⟩ := List.cons.inj hes
            have hrest : length (es ++ '-' :: rest) = es.length + 1 := by
              simp at hlength
              omega
            exact selectsComponent_of_length hrest
      · cases es with
        | nil => simp at hes
        | cons e es => simp at hlength; omega
  next => simp at h

theorem operators_end :
    ∀ op ∈ operators, 2 ≤ op.toList.length → op.toList.getLast? ≠ some '-' := by
  decide

end Word

namespace Lexeme

theorem measurePlain_of_measure
    {c : Char} {cs : Text} {n : Nat} (h : measure c cs = .ok (.word, n)) :
    measurePlain c cs = (.word, n) := by
  rcases measure_cases h with ⟨-, hrole, -⟩ | ⟨-, hrole, -⟩ | ⟨-, hrole, -⟩ | ⟨-, hrole, -⟩ | ⟨-, h⟩
  · simp at hrole
  · simp at hrole
  · simp at hrole
  · simp at hrole
  · exact h

theorem standsAlone_of_measure
    {c : Char} {cs : Text} {n : Nat} (h : measure c cs = .ok (.word, n + 1)) :
    standsAlone c = false := by
  by_contra halone
  have hplain := measurePlain_of_measure h
  rw [measurePlain_of_standsAlone (by simpa using halone)] at hplain
  simp at hplain

theorem isBracket_of_measure
    {c : Char} {cs : Text} {n : Nat} (h : measure c cs = .ok (.word, n + 1)) :
    isBracket c = false :=
  (Bool.or_eq_false_iff.mp (standsAlone_of_measure h)).2

/-- A word goes on through a hyphen only for the sake of what stands behind. -/
theorem selectsComponent_of_measure
    {c : Char} {ds rest : Text}
    (h : measure c (ds ++ '-' :: rest) = .ok (.word, ds.length + 1)) :
    Word.selectsComponent rest = true := by
  have hplain := measurePlain_of_measure h
  rcases measurePlain_cases (standsAlone_of_measure h) (ds ++ '-' :: rest) with
    ⟨-, n, hn, heq⟩ | ⟨-, ⟨-, heq⟩ | ⟨-, ⟨op, hop, heq⟩ | ⟨-, heq⟩⟩⟩ <;>
    rw [hplain] at heq <;> obtain ⟨-, hlength⟩ := Prod.mk.inj heq
  · exact Word.selectsComponent_of_fieldSymbolLength? (hlength ▸ hn)
  · exact Word.selectsComponent_of_length hlength.symm
  · obtain ⟨hmem, behind, hsplit⟩ := Word.operator?_eq_some hop
    rw [List.append_cons] at hsplit
    have htext := Word.toList_of_measured hmem hsplit (by simpa using hlength)
    have hlast := Word.operators_end op hmem (by simp [htext])
    rw [htext, ← List.cons_append, List.getLast?_concat] at hlast
    exact absurd rfl hlast
  · simp at hlength

end Lexeme

/-! ## Cutting off the hyphen -/

namespace Token

/-- A word that ends in a hyphen behind something else. -/
def endsInHyphen (t : Token) : Bool :=
  t.role == .word && decide (2 ≤ t.text.length) && t.text.getLast? == some '-'

/-- A word, cut in front of a hyphen at its end. -/
def hyphenParts (t : Token) : List Token :=
  if t.endsInHyphen then
    [onLine .word t.text.dropLast t.span.startLine t.span.startColumn,
      onLine .word ['-'] t.span.startLine (t.span.startColumn + (t.text.length - 1))]
  else [t]

end Token

/-- Tokens, the last of which is cut in front of a hyphen at its end. -/
def detachHyphen : List Token → List Token
  | [] => []
  | [t] => t.hyphenParts
  | t :: u :: rest => t :: detachHyphen (u :: rest)

theorem endsInHyphen_onLine
    {role : Role} {c : Char} {cs : Text} {line column : Nat}
    (h : (Token.onLine role (c :: cs) line column).endsInHyphen = true) :
    role = .word ∧ ∃ ds, cs = ds ++ ['-'] := by
  simp only [Token.endsInHyphen, Token.onLine, Bool.and_eq_true, beq_iff_eq] at h
  obtain ⟨⟨hrole, hlength⟩, hlast⟩ := h
  refine ⟨hrole, ?_⟩
  cases cs with
  | nil => simp at hlength
  | cons d ds =>
      rw [List.getLast?_cons_cons] at hlast
      exact List.getLast?_eq_some_iff.mp hlast

theorem hyphenParts_onLine (c : Char) (ds : Text) (line column : Nat) :
    (Token.onLine .word ((c :: ds) ++ ['-']) line column).hyphenParts =
      [Token.onLine .word (c :: ds) line column,
        Token.onLine .word ['-'] line (column + (ds.length + 1))] := by
  have hends : (Token.onLine .word ((c :: ds) ++ ['-']) line column).endsInHyphen = true := by
    simp only [Token.endsInHyphen, Token.onLine, List.getLast?_concat, List.length_append]
    simp
  have hlength : ((c :: ds) ++ ['-']).length - 1 = ds.length + 1 := by simp
  rw [Token.hyphenParts, if_pos hends]
  simp only [Token.onLine, Span.onLine, List.dropLast_concat, hlength]

theorem hyphenParts_of_not_endsInHyphen {t : Token} (h : t.endsInHyphen = false) :
    t.hyphenParts = [t] := by
  simp [Token.hyphenParts, h]

theorem Cut.blank_of_eq_nil
    {line column : Nat} {t : Text} {ts : List Token} (h : Cut line column t ts) (hts : ts = []) :
    ∀ c ∈ t, Text.isBlank c = true := by
  induction h with
  | done => simp
  | blank hc _ ih => exact List.forall_mem_cons.mpr ⟨hc, ih hts⟩
  | token => simp at hts

/-! ## Lines -/

section Behind

variable {s : Text} (hs : ∀ c ∈ s, Text.isBlank c = true) (hne : s ≠ [])
include hs hne

theorem selectsComponent_blank : Word.selectsComponent s = false := by
  obtain ⟨b, more, rfl⟩ := List.exists_cons_of_ne_nil hne
  obtain ⟨-, -, halnum, -, hsign⟩ := Text.stops_of_isBlank (hs b (by simp))
  simp [Word.selectsComponent, halnum, hsign '_' (by decide), hsign '<' (by decide)]

/-- In front of blank characters a word does not end in a hyphen. -/
theorem endsInHyphen_of_measure
    {c : Char} {cs : Text} {role : Role} {n : Nat}
    (h : Lexeme.measure c (cs ++ s) = .ok (role, n)) (hn : n ≤ cs.length)
    (hrest : ∀ d ∈ cs.drop n, Text.isBlank d = true) (line column : Nat) :
    (Token.onLine role (c :: cs.take n) line column).endsInHyphen = false := by
  by_contra hends
  obtain ⟨rfl, ds, hds⟩ := endsInHyphen_onLine (by simpa using hends)
  have hsplit : cs ++ s = ds ++ '-' :: (cs.drop n ++ s) := by
    conv_lhs => rw [← List.take_append_drop n cs, hds]
    simp
  have hlength : n = ds.length + 1 := by
    rw [← List.length_take_of_le hn, hds, List.length_append, List.length_singleton]
  rw [hsplit] at h
  have hselects := Lexeme.selectsComponent_of_measure
    (h.trans (congrArg (fun k => Except.ok (Role.word, k)) hlength))
  rw [selectsComponent_blank (List.forall_mem_append.mpr ⟨hrest, hs⟩) (by simp [hne])] at hselects
  exact Bool.false_ne_true hselects

omit hne in
/-- In front of blank characters a hyphen is an operator. -/
theorem tokenizeFrom_hyphen (line column : Nat) :
    tokenizeFrom line column ('-' :: s) = .ok [Token.onLine .word ['-'] line column] := by
  have hmeasure : Lexeme.measure '-' s = .ok (.word, 0) := by
    rcases Lexeme.measure_append_blank hs '-' [] with h | ⟨_, _, ⟨_, hnil, _⟩, _⟩
    · rw [List.nil_append] at h
      rw [h]
      decide
    · simp at hnil
  rw [tokenizeFrom, if_neg (by decide), hmeasure]
  dsimp only
  rw [List.drop_zero, tokenizeFrom_of_blank hs]
  rfl

/-- What stands in front of blank characters is cut as at the end of the line, but that the last
word is cut in front of its hyphen. -/
theorem tokenizeFrom_append_eq_detachHyphen (line column : Nat) (t : Text) :
    tokenizeFrom line column (t ++ s) = (tokenizeFrom line column t).map detachHyphen := by
  fun_induction tokenizeFrom line column t with
  | case1 column =>
      rw [List.nil_append, tokenizeFrom_of_blank hs]
      rfl
  | case2 column c cs hc ih => rw [List.cons_append, tokenizeFrom, if_pos hc, ih]
  | case3 column c cs hc fault hfault =>
      rcases Lexeme.measure_append_blank hs c cs with h | ⟨n, m, -, hn, -⟩
      · rw [List.cons_append, tokenizeFrom, if_neg hc, h, hfault]
        rfl
      · simp [hfault] at hn
  | case4 column c cs hc role n hn ih =>
      have hle := Lexeme.measure_le hn
      rcases Lexeme.measure_append_blank hs c cs with h | ⟨n', m, hloses, hn', hm⟩
      · rw [List.cons_append, tokenizeFrom, if_neg hc, h, hn]
        dsimp only
        rw [List.drop_append_of_le_length hle, List.take_append_of_le_length hle, ih]
        cases hrest : tokenizeFrom line (column + (n + 1)) (cs.drop n) with
        | error fault => rfl
        | ok ts =>
            cases ts with
            | cons u more => rfl
            | nil =>
                have hblank := (cut_of_tokenizeFrom hrest).blank_of_eq_nil rfl
                have hends := endsInHyphen_of_measure hs hne (h.trans hn) hle hblank line column
                exact congrArg Except.ok (hyphenParts_of_not_endsInHyphen hends).symm
      · obtain ⟨ds, rfl, rfl, rfl⟩ := hloses
        obtain ⟨rfl, rfl⟩ : role = .word ∧ n = ds.length + 1 := by
          rw [hn] at hn'
          injection hn' with hn'
          exact Prod.mk.inj hn'
        have hwhole : (ds ++ ['-']).take (ds.length + 1) = ds ++ ['-'] :=
          List.take_of_length_le (by simp)
        have hbehind : (ds ++ ['-']).drop (ds.length + 1) = [] :=
          List.drop_of_length_le (by simp)
        rw [List.cons_append, tokenizeFrom, if_neg hc, hm]
        dsimp only
        rw [List.append_assoc, List.drop_left, List.take_left, List.singleton_append,
          tokenizeFrom_hyphen hs, hwhole, hbehind, tokenizeFrom]
        exact congrArg Except.ok (hyphenParts_onLine c ds line column).symm

end Behind

theorem detachHyphen_of_isComment {t : Token} (h : t.role = .comment) :
    detachHyphen [t] = [t] :=
  hyphenParts_of_not_endsInHyphen (by simp [Token.endsInHyphen, h])

theorem tokenize_append_eq_detachHyphen
    {s : Text} (hs : ∀ c ∈ s, Text.isBlank c = true) (hne : s ≠ []) (line : Nat) (t : Text) :
    tokenize line (t ++ s) = (tokenize line t).map detachHyphen := by
  by_cases hstar : t.head? = some '*'
  · obtain ⟨cs, rfl⟩ := List.head?_eq_some_iff.mp hstar
    rw [List.cons_append, tokenize, tokenize, ← List.cons_append,
      Text.trimRight_append_blank _ _ hs]
    exact congrArg Except.ok (detachHyphen_of_isComment rfl).symm
  · have hstar' : (t ++ s).head? ≠ some '*' := by
      cases t with
      | cons c cs => exact hstar
      | nil =>
          intro hhead
          exact absurd (hs '*' (List.mem_of_head? hhead)) (by decide)
    rw [tokenize_eq_tokenizeFrom hstar, tokenize_eq_tokenizeFrom hstar',
      tokenizeFrom_append_eq_detachHyphen hs hne]

/-- A line that ends in blank characters has the tokens of its trimmed form, but that the last word
is cut in front of a hyphen at its end, or it is refused for the same fault. -/
theorem tokenize_eq_detachHyphen (line : Nat) (t : Text) :
    tokenize line t =
      if Text.trimRight t = t then tokenize line (Text.trimRight t)
      else (tokenize line (Text.trimRight t)).map detachHyphen := by
  split
  next h => rw [h]
  next h =>
    obtain ⟨s, hs, hblank⟩ := Text.eq_trimRight_append t
    have hne : s ≠ [] := by
      rintro rfl
      exact h (by simpa using hs.symm)
    conv_lhs => rw [hs]
    exact tokenize_append_eq_detachHyphen hblank hne line _

/-- At the end of the line the hyphen belongs to the word, in front of a blank it does not. -/
example :
    (tokenize 1 "a-".toList).toOption.map (·.map (·.text)) = some ["a-".toList] ∧
      (tokenize 1 "a- ".toList).toOption.map (·.map (·.text)) = some [['a'], ['-']] := by
  decide +kernel

end AbapLayout
