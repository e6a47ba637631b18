import AbapLayout.Proofs.DocumentLines

/-!
# How a line is cut

`Cut` relates the rest of a line to the tokens it is cut into: blank characters are skipped, and
every token is a stretch of the line that `Lexeme.measure` measures in front of what follows.  Lines
are cut like this (`cut_of_tokenizeFrom`), and what the later theory needs of a token follows from
it: its text is not empty, and its role goes with its text.
-/

namespace AbapLayout

/-- A mapped result is a result that was there before. -/
theorem map_eq_ok_iff
    {ε α β : Type} {x : Except ε α} {f : α → β} {b : β} :
    x.map f = .ok b ↔ ∃ a, x = .ok a ∧ f a = b := by
  cases x with
  | error e => simp [Except.map]
  | ok a => simp [Except.map]

theorem exists_eq_ok_of_isOk
    {ε α : Type} {x : Except ε α} (h : x.isOk = true) :
    ∃ a, x = .ok a := by
  cases x with
  | error e => simp [Except.isOk, Except.toBool] at h
  | ok a => exact ⟨a, rfl⟩

theorem eq_ok_of_toOption
    {ε α : Type} {x : Except ε α} {a : α} (h : x.toOption = some a) :
    x = .ok a := by
  cases x with
  | error e => simp [Except.toOption] at h
  | ok b => simpa [Except.toOption] using h

theorem Token.isOneOf_iff
    (t : Token) (texts : List String) :
    t.isOneOf texts = true ↔ ∃ s ∈ texts, t.text = s.toList := by
  rw [Token.isOneOf, List.contains_iff_mem]
  constructor
  · intro h
    exact ⟨_, h, by rw [String.toList_ofList]⟩
  · rintro ⟨s, hs, htext⟩
    rwa [htext, String.ofList_toList]

theorem Text.trimRight_trimRight (t : Text) :
    Text.trimRight (Text.trimRight t) = Text.trimRight t := by
  obtain ⟨s, hs, hblank⟩ := Text.eq_trimRight_append t
  calc
    Text.trimRight (Text.trimRight t) = Text.trimRight (Text.trimRight t ++ s) :=
      (Text.trimRight_append_blank _ s hblank).symm
    _ = Text.trimRight t := by rw [← hs]

theorem Text.head?_trimRight
    {c : Char} (h : Text.isBlank c = false) (cs : Text) :
    (Text.trimRight (c :: cs)).head? = some c := by
  rw [Text.trimRight]
  split
  · simp [h]
  · rfl

/-! ## No measure exceeds the line -/

theorem Word.length_le (cs : Text) : Word.length cs ≤ cs.length := by
  induction cs with
  | nil => simp [Word.length]
  | cons c cs ih =>
      rw [Word.length]
      split
      · simpa using ih
      · simp

theorem Literal.quotedLength_le
    {quote : Char} {cs : Text} {n : Nat}
    (h : Literal.quotedLength quote cs = .ok n) :
    n ≤ cs.length := by
  fun_induction Literal.quotedLength quote cs generalizing n with
  | case1 => simp at h
  | case2 => simp_all
  | case3 ds ih =>
      obtain ⟨m, hm, rfl⟩ := map_eq_ok_iff.mp h
      have := ih hm
      simp only [List.length_cons]
      omega
  | case4 d ds hd =>
      injection h with h
      simp only [List.length_cons]
      omega
  | case5 c cs hc ih =>
      obtain ⟨m, hm, rfl⟩ := map_eq_ok_iff.mp h
      have := ih hm
      simp only [List.length_cons]
      omega

theorem Literal.templateLength_le
    {depth : Nat} {outer : List Nat} {cs : Text} {n : Nat}
    (h : Literal.templateLength depth outer cs = .ok n) :
    n ≤ cs.length := by
  fun_induction Literal.templateLength depth outer cs generalizing n with
  | case1 => simp at h
  | case2 => simp at h
  | case4 =>
      injection h with h
      simp only [List.length_cons]
      omega
  | case11 => simp at h
  | case12 depth outer c cs _ _ _ _ _ m hm ih =>
      obtain ⟨k, hk, rfl⟩ := map_eq_ok_iff.mp h
      have := ih hk
      have := Literal.quotedLength_le hm
      simp only [List.length_cons, List.length_drop] at *
      omega
  | _ =>
      obtain ⟨k, hk, rfl⟩ := map_eq_ok_iff.mp h
      rename_i ih
      have := ih hk
      simp only [List.length_cons] at *
      omega

theorem Word.fieldSymbolLength?_le
    {cs : Text} {n : Nat} (h : Word.fieldSymbolLength? cs = some n) :
    n ≤ cs.length := by
  unfold Word.fieldSymbolLength? at h
  dsimp only at h
  split at h
  next more hmore =>
    split at h
    · simp at h
    · injection h with h
      have hlen := congrArg List.length hmore
      have := Word.length_le more
      simp only [List.length_drop, List.length_cons] at hlen
      omega
  next => simp at h

theorem Word.argumentsLength_le (cs : Text) : Word.argumentsLength cs ≤ cs.length := by
  fun_induction Word.argumentsLength cs with
  | case1 cs n hn ih =>
      simp only [List.length_drop, List.length_cons] at *
      omega
  | case2 => simp
  | case3 => simp

theorem Word.pragmaLength?_le
    {cs : Text} {n : Nat} (h : Word.pragmaLength? cs = some n) :
    n ≤ cs.length := by
  unfold Word.pragmaLength? at h
  split at h
  next cs =>
    dsimp only at h
    split at h
    · simp at h
    · injection h with h
      have hargs := Word.argumentsLength_le (cs.drop (cs.takeWhile Word.isNameChar).length)
      have hname := (List.takeWhile_prefix Word.isNameChar (l := cs)).length_le
      simp only [List.length_drop, List.length_cons] at *
      omega
  next => simp at h

theorem Word.operator?_eq_some
    {t : Text} {op : String} (h : Word.operator? t = some op) :
    op ∈ Word.operators ∧ ∃ rest, t = op.toList ++ rest := by
  unfold Word.operator? at h
  refine ⟨List.mem_of_find?_eq_some h, ?_⟩
  have hstart := List.find?_some h
  simp only [Text.startsWith] at hstart
  obtain ⟨rest, hrest⟩ := List.isPrefixOf_iff_prefix.mp hstart
  exact ⟨rest, hrest.symm⟩

theorem Word.operators_ne_nil : ∀ op ∈ Word.operators, op.toList ≠ [] := by
  decide

theorem Lexeme.measurePlain_le (c : Char) (cs : Text) :
    (Lexeme.measurePlain c cs).2 ≤ cs.length := by
  unfold Lexeme.measurePlain
  split
  · simp
  split
  · simp
  split
  · simp
  split
  next n hn =>
    split at hn
    · exact Word.fieldSymbolLength?_le hn
    · simp at hn
  next =>
    split
    · exact Word.length_le cs
    split
    next op hop =>
      obtain ⟨-, rest, hrest⟩ := Word.operator?_eq_some hop
      have := congrArg List.length hrest
      simp only [List.length_cons, List.length_append, String.length_toList] at this
      dsimp only
      omega
    next => simp

/-- The kinds of units: comments, quoted literals, templates, pragmas, and what is left. -/
theorem Lexeme.measure_cases
    {c : Char} {cs : Text} {role : Role} {n : Nat}
    (h : Lexeme.measure c cs = .ok (role, n)) :
    c = '\x22' ∧ role = .comment ∧ n = (Text.trimRight cs).length ∨
    Literal.isQuote c = true ∧ role = .literal ∧ Literal.quotedLength c cs = .ok n ∨
    c = '|' ∧ role = .literal ∧ Literal.templateLength 0 [] cs = .ok n ∨
    c = '#' ∧ role = .pragma ∧ Word.pragmaLength? cs = some n ∨
    (c ≠ '\x22' ∧ Literal.isQuote c = false ∧ c ≠ '|' ∧
        (c = '#' → Word.pragmaLength? cs = none)) ∧
      Lexeme.measurePlain c cs = (role, n) := by
  unfold Lexeme.measure at h
  split at h
  next hsign =>
    injection h with h
    injection h with hrole hlen
    exact .inl ⟨hsign, hrole.symm, hlen.symm⟩
  next hsign =>
    split at h
    next hquote =>
      obtain ⟨m, hm, hmn⟩ := map_eq_ok_iff.mp h
      injection hmn with hrole hlen
      exact .inr (.inl ⟨hquote, hrole.symm, hlen ▸ hm⟩)
    next hquote =>
      split at h
      next hbar =>
        obtain ⟨m, hm, hmn⟩ := map_eq_ok_iff.mp h
        injection hmn with hrole hlen
        exact .inr (.inr (.inl ⟨hbar, hrole.symm, hlen ▸ hm⟩))
      next hbar =>
        split at h
        next m hm =>
          injection h with h
          injection h with hrole hlen
          split at hm
          next hhash => exact .inr (.inr (.inr (.inl ⟨hhash, hrole.symm, hlen ▸ hm⟩)))
          next => simp at hm
        next hpragma =>
          injection h with h
          refine .inr (.inr (.inr (.inr ⟨⟨hsign, by simpa using hquote, hbar, ?_⟩, h⟩)))
          intro hhash
          rwa [if_pos hhash] at hpragma

/-- A unit ends at the end of the line at the latest. -/
theorem Lexeme.measure_le
    {c : Char} {cs : Text} {role : Role} {n : Nat}
    (h : Lexeme.measure c cs = .ok (role, n)) :
    n ≤ cs.length := by
  rcases Lexeme.measure_cases h with
    ⟨-, -, rfl⟩ | ⟨-, -, hlen⟩ | ⟨-, -, hlen⟩ | ⟨-, -, hlen⟩ | ⟨-, hlen⟩
  · obtain ⟨s, hs, -⟩ := Text.eq_trimRight_append cs
    have := congrArg List.length hs
    rw [List.length_append] at this
    omega
  · exact Literal.quotedLength_le hlen
  · exact Literal.templateLength_le hlen
  · exact Word.pragmaLength?_le hlen
  · have := Lexeme.measurePlain_le c cs
    rwa [hlen] at this

/-! ## Cutting as a relation -/

/-- The rest of a line, which starts in the given column, is cut into the given tokens. -/
inductive Cut (line : Nat) : Nat → Text → List Token → Prop where
  | done (column : Nat) : Cut line column [] []
  | blank {column : Nat} {c : Char} {cs : Text} {ts : List Token} :
      Text.isBlank c = true → Cut line (column + 1) cs ts → Cut line column (c :: cs) ts
  | token {column : Nat} {role : Role} {c : Char} {cs rest : Text} {ts : List Token} :
      Text.isBlank c = false → Lexeme.measure c (cs ++ rest) = .ok (role, cs.length) →
      Cut line (column + (cs.length + 1)) rest ts →
      Cut line column (c :: (cs ++ rest)) (Token.onLine role (c :: cs) line column :: ts)

theorem cut_of_tokenizeFrom
    {line column : Nat} {t : Text} {ts : List Token}
    (h : tokenizeFrom line column t = .ok ts) :
    Cut line column t ts := by
  fun_induction tokenizeFrom line column t generalizing ts with
  | case1 column =>
      injection h with h
      exact h ▸ .done column
  | case2 column c cs hc ih => exact .blank hc (ih h)
  | case3 column c cs hc fault hfault => simp at h
  | case4 column c cs hc role n hn ih =>
      obtain ⟨more, hmore, rfl⟩ := map_eq_ok_iff.mp h
      have hle := Lexeme.measure_le hn
      have hlen : (cs.take n).length = n := by simp [hle]
      have hsplit : cs.take n ++ cs.drop n = cs := List.take_append_drop n cs
      have hmeasure : Lexeme.measure c (cs.take n ++ cs.drop n) =
          .ok (role, (cs.take n).length) := by
        rw [hsplit, hlen]
        exact hn
      have hrest : Cut line (column + ((cs.take n).length + 1)) (cs.drop n) more := by
        rw [hlen]
        exact ih hmore
      have hcut := Cut.token (by simpa using hc) hmeasure hrest
      rwa [hsplit] at hcut

/-! ## Steps of cutting a line -/

theorem tokenize_eq_tokenizeFrom
    {t : Text} (h : t.head? ≠ some '*') (line : Nat) :
    tokenize line t = tokenizeFrom line 0 t := by
  unfold tokenize
  split
  · simp at h
  · rfl

theorem tokenizeFrom_of_blank
    {s : Text} (hs : ∀ c ∈ s, Text.isBlank c = true) (line column : Nat) :
    tokenizeFrom line column s = .ok [] := by
  induction s generalizing column with
  | nil => simp [tokenizeFrom]
  | cons b more ih =>
      rw [tokenizeFrom, if_pos (hs b (by simp))]
      exact ih (fun c hc => hs c (by simp [hc])) (column + 1)

theorem tokenizeFrom_blanks (line column n : Nat) (t : Text) :
    tokenizeFrom line column (Text.blanks n ++ t) = tokenizeFrom line (column + n) t := by
  induction n generalizing column with
  | zero => rfl
  | succ n ih =>
      rw [Text.blanks, List.replicate_succ, List.cons_append, tokenizeFrom, if_pos (by decide),
        Nat.add_comm n 1, ← Nat.add_assoc]
      exact ih (column + 1)

/-! ## Role and text -/

/-- What the first character of a unit says about its role. -/
theorem Lexeme.measurePlain_role (c : Char) (cs : Text) :
    (c = '.' ∨ c = ',') ∧ Lexeme.measurePlain c cs = (.punctuation, 0) ∨
    c = ':' ∧ Lexeme.measurePlain c cs = (.colon, 0) ∨
    c ≠ '.' ∧ c ≠ ',' ∧ c ≠ ':' ∧
      ((Lexeme.measurePlain c cs).1 = .word ∨ (Lexeme.measurePlain c cs).1 = .arrow) := by
  unfold Lexeme.measurePlain
  split
  next h => exact .inl ⟨h, rfl⟩
  next hpunctuation =>
    split
    next h => exact .inr (.inl ⟨h, rfl⟩)
    next hcolon =>
      rw [not_or] at hpunctuation
      refine .inr (.inr ⟨hpunctuation.1, hpunctuation.2, hcolon, ?_⟩)
      split
      · exact .inl rfl
      split
      · exact .inl rfl
      split
      · exact .inl rfl
      split
      next op _ =>
        dsimp only
        cases Word.arrows.contains op with
        | true => exact .inr rfl
        | false => exact .inl rfl
      next => exact .inl rfl

theorem Lexeme.measurePlain_role_ne
    {c : Char} {cs : Text} {role : Role} {n : Nat}
    (h : Lexeme.measurePlain c cs = (role, n)) :
    role ≠ .comment ∧ role ≠ .pragma ∧ role ≠ .literal := by
  rcases Lexeme.measurePlain_role c cs with ⟨-, hr⟩ | ⟨-, hr⟩ | ⟨-, -, -, hr | hr⟩ <;>
    rw [h] at hr
  · simp [(Prod.mk.inj hr).1]
  · simp [(Prod.mk.inj hr).1]
  · simp [show role = .word from hr]
  · simp [show role = .arrow from hr]

theorem Lexeme.measure_comment
    {c : Char} {cs : Text} {n : Nat} (h : Lexeme.measure c cs = .ok (.comment, n)) :
    c = '\x22' ∧ n = (Text.trimRight cs).length := by
  rcases Lexeme.measure_cases h with
    ⟨hc, -, hlen⟩ | ⟨-, hrole, -⟩ | ⟨-, hrole, -⟩ | ⟨-, hrole, -⟩ | ⟨-, hplain⟩
  · exact ⟨hc, hlen⟩
  · simp at hrole
  · simp at hrole
  · simp at hrole
  · exact absurd rfl (Lexeme.measurePlain_role_ne hplain).1

theorem Lexeme.measure_literal
    {c : Char} {cs : Text} {n : Nat} (h : Lexeme.measure c cs = .ok (.literal, n)) :
    c ∈ ['\x27', '\x60', '|'] := by
  rcases Lexeme.measure_cases h with
    ⟨-, hrole, -⟩ | ⟨hc, -⟩ | ⟨rfl, -⟩ | ⟨-, hrole, -⟩ | ⟨-, hplain⟩
  · simp at hrole
  · simp only [Literal.isQuote, Bool.or_eq_true, beq_iff_eq] at hc
    rcases hc with rfl | rfl <;> simp
  · simp
  · simp at hrole
  · exact absurd rfl (Lexeme.measurePlain_role_ne hplain).2.2

theorem Lexeme.measure_pragma
    {c : Char} {cs : Text} {n : Nat} (h : Lexeme.measure c cs = .ok (.pragma, n)) :
    c = '#' ∧ Word.pragmaLength? cs = some n := by
  rcases Lexeme.measure_cases h with
    ⟨-, hrole, -⟩ | ⟨-, hrole, -⟩ | ⟨-, hrole, -⟩ | ⟨hc, -, hlen⟩ | ⟨-, hplain⟩
  · simp at hrole
  · simp at hrole
  · simp at hrole
  · exact ⟨hc, hlen⟩
  · exact absurd rfl (Lexeme.measurePlain_role_ne hplain).2.1

/-- A token that is neither a comment nor a pragma. -/
def Token.isCode (t : Token) : Bool :=
  !t.isComment && !t.isPragma

/-- A token that stands in some line as `Lexeme.measure` measures it. -/
def Token.IsUnit (t : Token) : Prop :=
  ∃ c cs rest, t.text = c :: cs ∧ Text.isBlank c = false ∧
    Lexeme.measure c (cs ++ rest) = .ok (t.role, cs.length)

/-- A token as it is cut from a source: a unit, or a full-line comment without trailing blanks. -/
structure Token.Lexed (t : Token) : Prop where
  unit : t.IsUnit ∨ t.isStarComment = true ∧ Text.trimRight t.text = t.text
  oneLine : t.text.OneLine

/-- The role of a unit is that of punctuation or a colon exactly if its text is. -/
theorem Token.IsUnit.separator_iff
    {t : Token} (h : t.IsUnit) :
    (t.role = .punctuation ↔ t.text = ['.'] ∨ t.text = [',']) ∧
      (t.role = .colon ↔ t.text = [':']) := by
  obtain ⟨c, cs, rest, htext, -, hm⟩ := h
  rw [htext]
  rcases Lexeme.measure_cases hm with
    ⟨hc, hrole, -⟩ | ⟨hc, hrole, -⟩ | ⟨hc, hrole, -⟩ | ⟨hc, hrole, -⟩ | ⟨-, hm⟩
  · simp [hrole, hc]
  · simp only [Literal.isQuote, Bool.or_eq_true, beq_iff_eq] at hc
    rcases hc with hc | hc <;> simp [hrole, hc]
  · simp [hrole, hc]
  · simp [hrole, hc]
  · rcases Lexeme.measurePlain_role c (cs ++ rest) with
      ⟨hc, hr⟩ | ⟨hc, hr⟩ | ⟨hdot, hcomma, hcolon, hr⟩
    · rw [hr] at hm
      injection hm with hrole hlen
      have hcs : cs = [] := List.eq_nil_of_length_eq_zero hlen.symm
      rcases hc with rfl | rfl <;> simp [← hrole, hcs]
    · rw [hr] at hm
      injection hm with hrole hlen
      have hcs : cs = [] := List.eq_nil_of_length_eq_zero hlen.symm
      simp [← hrole, hcs, hc]
    · rw [hm] at hr
      rcases hr with hr | hr <;> simp_all

theorem Token.Lexed.separator_iff
    {t : Token} (h : t.Lexed) :
    (t.role = .punctuation ↔ t.text = ['.'] ∨ t.text = [',']) ∧
      (t.role = .colon ↔ t.text = [':']) := by
  rcases h.unit with h | h
  · exact h.separator_iff
  · simp only [Token.isStarComment, Token.isComment, Bool.and_eq_true, beq_iff_eq] at h
    obtain ⟨⟨hrole, hhead⟩, -⟩ := h
    have hdot : t.text ≠ ['.'] := by
      intro hdot
      simp [hdot] at hhead
    have hcomma : t.text ≠ [','] := by
      intro hcomma
      simp [hcomma] at hhead
    have hcolon : t.text ≠ [':'] := by
      intro hcolon
      simp [hcolon] at hhead
    simp [hrole, hdot, hcomma, hcolon]

theorem Cut.isUnit
    {line column : Nat} {t : Text} {ts : List Token}
    (h : Cut line column t ts) :
    ∀ u ∈ ts, u.IsUnit := by
  induction h with
  | done => simp
  | blank _ _ ih => exact ih
  | @token column role c cs rest ts hc hm _ ih =>
      intro u hu
      rw [List.mem_cons] at hu
      rcases hu with rfl | hu
      · exact ⟨c, cs, rest, rfl, hc, hm⟩
      · exact ih u hu

theorem Cut.oneLine
    {line column : Nat} {t : Text} {ts : List Token}
    (h : Cut line column t ts) (ht : t.OneLine) :
    ∀ u ∈ ts, u.text.OneLine := by
  induction h with
  | done => simp
  | blank _ _ ih => exact ih (Text.oneLine_cons.mp ht).2
  | token _ _ _ ih =>
      rw [← List.cons_append, Text.oneLine_append] at ht
      intro u hu
      rw [List.mem_cons] at hu
      rcases hu with rfl | hu
      · exact ht.1
      · exact ih ht.2 u hu

theorem Text.OneLine.trimRight
    {t : Text} (h : t.OneLine) :
    (Text.trimRight t).OneLine := by
  obtain ⟨s, hs, -⟩ := Text.eq_trimRight_append t
  rw [hs, Text.oneLine_append] at h
  exact h.1

/-- A token is a unit, or a full-line comment without trailing blanks. -/
theorem unit_of_mem_tokenize
    {line : Nat} {t : Text} {ts : List Token} (h : tokenize line t = .ok ts) :
    ∀ u ∈ ts, u.IsUnit ∨ u.isStarComment = true ∧ Text.trimRight u.text = u.text := by
  intro u hu
  unfold tokenize at h
  split at h
  next rest =>
    injection h with h
    rw [← h, List.mem_singleton] at hu
    have hhead := Text.head?_trimRight (c := '*') (by decide) rest
    refine .inr ⟨?_, ?_⟩
    · simp [hu, Token.isStarComment, Token.isComment, Token.onLine, hhead]
    · rw [hu, Token.onLine]
      exact Text.trimRight_trimRight _
  next => exact .inl ((cut_of_tokenizeFrom h).isUnit u hu)

theorem lexed_of_mem_tokenize
    {line : Nat} {t : Text} {ts : List Token}
    (ht : t.OneLine) (h : tokenize line t = .ok ts) :
    ∀ u ∈ ts, u.Lexed := by
  intro u hu
  refine ⟨unit_of_mem_tokenize h u hu, ?_⟩
  unfold tokenize at h
  split at h
  next rest =>
    injection h with h
    rw [← h, List.mem_singleton] at hu
    rw [hu, Token.onLine]
    exact ht.trimRight
  next => exact (cut_of_tokenizeFrom h).oneLine ht u hu

theorem lexed_of_mem_tokenizeLines
    {first : Nat} {lines : List Text} {ts : List Token}
    (hlines : ∀ l ∈ lines, l.OneLine) (h : tokenizeLines first lines = .ok ts) :
    ∀ u ∈ ts, u.Lexed := by
  induction lines generalizing first ts with
  | nil =>
      injection h with h
      simp [← h]
  | cons line rest ih =>
      rw [tokenizeLines] at h
      split at h
      · simp at h
      next tokens htokens =>
        obtain ⟨more, hmore, rfl⟩ := map_eq_ok_iff.mp h
        intro u hu
        rw [List.mem_append] at hu
        rcases hu with hu | hu
        · exact lexed_of_mem_tokenize (hlines line (by simp)) htokens u hu
        · exact ih (fun l hl => hlines l (by simp [hl])) hmore u hu

/-- Every token of a source is cut from one of its lines. -/
theorem Source.lexed_of_mem_tokens
    {source : Text} {ts : List Token}
    (h : Source.tokens source = .ok ts) :
    ∀ u ∈ ts, u.Lexed :=
  lexed_of_mem_tokenizeLines (fun _ hl => Text.oneLine_of_mem_lines hl) h

/-! ## Where tokens stand -/

theorem Cut.eq_nil_of_blank
    {line column : Nat} {t : Text} {ts : List Token}
    (h : Cut line column t ts) (hblank : ∀ c ∈ t, Text.isBlank c = true) :
    ts = [] := by
  induction h with
  | done => rfl
  | blank _ _ ih => exact ih fun c hc => hblank c (by simp [hc])
  | @token column role c cs rest ts hc hm _ _ =>
      have := hblank c (by simp)
      simp [hc] at this

/-- A sign comment takes the rest of its line. -/
theorem Lexeme.blank_of_measure_comment
    {c : Char} {cs rest : Text}
    (h : Lexeme.measure c (cs ++ rest) = .ok (.comment, cs.length)) :
    ∀ d ∈ rest, Text.isBlank d = true := by
  obtain ⟨-, hlen⟩ := Lexeme.measure_comment h
  obtain ⟨s, hs, hblank⟩ := Text.eq_trimRight_append (cs ++ rest)
  have hrest : rest = s := (List.append_inj hs hlen).2
  exact hrest ▸ hblank

/-- The order of tokens: lines do not go back, and a comment is the last token of its line. -/
def Token.ComesBefore (t u : Token) : Prop :=
  t.span.endLine ≤ u.span.startLine ∧ (t.isComment = true → t.span.endLine < u.span.startLine)

theorem Cut.stands
    {line column : Nat} {t : Text} {ts : List Token}
    (h : Cut line column t ts) :
    (∀ u ∈ ts, u.span.startLine = line ∧ u.span.endLine = line) ∧
      ts.Pairwise Token.ComesBefore := by
  induction h with
  | done => exact ⟨by simp, .nil⟩
  | blank _ _ ih => exact ih
  | @token column role c cs rest ts hc hm hcut ih =>
      refine ⟨by simpa [Token.onLine, Span.onLine] using ih.1,
        List.pairwise_cons.mpr ⟨?_, ih.2⟩⟩
      intro v hv
      have hline := (ih.1 v hv).1
      refine ⟨by simp [Token.onLine, Span.onLine, hline], ?_⟩
      intro hcomment
      have hrole : role = .comment := by simpa [Token.isComment, Token.onLine] using hcomment
      rw [hrole] at hm
      have hnil := hcut.eq_nil_of_blank (Lexeme.blank_of_measure_comment hm)
      simp [hnil] at hv

theorem stands_of_tokenize
    {line : Nat} {t : Text} {ts : List Token}
    (h : tokenize line t = .ok ts) :
    (∀ u ∈ ts, u.span.startLine = line ∧ u.span.endLine = line) ∧
      ts.Pairwise Token.ComesBefore := by
  unfold tokenize at h
  split at h
  · injection h with h
    simp [← h, Token.onLine, Span.onLine]
  · exact (cut_of_tokenizeFrom h).stands

theorem stands_of_tokenizeLines
    {first : Nat} {lines : List Text} {ts : List Token}
    (h : tokenizeLines first lines = .ok ts) :
    (∀ u ∈ ts, first ≤ u.span.startLine ∧ u.span.endLine = u.span.startLine) ∧
      ts.Pairwise Token.ComesBefore := by
  induction lines generalizing first ts with
  | nil =>
      injection h with h
      simp [← h]
  | cons line rest ih =>
      rw [tokenizeLines] at h
      split at h
      · simp at h
      next tokens htokens =>
        obtain ⟨more, hmore, rfl⟩ := map_eq_ok_iff.mp h
        obtain ⟨hhere, hordered⟩ := stands_of_tokenize htokens
        obtain ⟨hbelow, hordered'⟩ := ih hmore
        constructor
        · intro u hu
          rcases List.mem_append.mp hu with hu | hu
          · have := hhere u hu
            omega
          · have := hbelow u hu
            omega
        · refine List.pairwise_append.mpr ⟨hordered, hordered', ?_⟩
          intro u hu v hv
          have := hhere u hu
          have := hbelow v hv
          exact ⟨by omega, fun _ => by omega⟩

end AbapLayout
