import AbapLayout.Proofs.UnitText

/-!
# The grammar of literals

A quoted literal is a quote, then quotes in pairs and other characters, then a quote.  A string
template is made of pieces between two bars, and a piece may be an expression in braces, which may
hold braces, quoted literals and templates again (`Derives`).  The measures of literals accept
exactly what these rules derive, and find the end of it (`Literal.lengths_decide_grammar`).

What is derived is read over as a whole, whatever stands behind it
(`Derives.templateLength_append`); this holds of a quoted literal in an expression also where another
one follows at once, since the two are then read as one.  Read from the other side, what is still to
be read closes the open braces and templates one by one, the innermost first (`Closes`).
-/

namespace AbapLayout
namespace Literal

/-! ## Rules -/

/-- What stands between the quotes of a quoted literal. -/
inductive QuotedBody (quote : Char) : Text → Prop where
  | nil : QuotedBody quote []
  | plain {c : Char} {rest : Text} :
      c ≠ quote → QuotedBody quote rest → QuotedBody quote (c :: rest)
  | doubled {rest : Text} : QuotedBody quote rest → QuotedBody quote (quote :: quote :: rest)

/-- What a stretch of a string template is. -/
inductive Place where
  | template
  /-- Any number of pieces between the bars of a template. -/
  | pieces
  /-- What stands between braces. -/
  | expression
deriving DecidableEq, Repr

/-- The rules for string templates. -/
inductive Derives : Place → Text → Prop where
  | template {body : Text} : Derives .pieces body → Derives .template ('|' :: (body ++ ['|']))
  | noPiece : Derives .pieces []
  | escaped (c : Char) {rest : Text} :
      Derives .pieces rest → Derives .pieces ('\x5c' :: c :: rest)
  | embedded {body rest : Text} :
      Derives .expression body → Derives .pieces rest →
      Derives .pieces ('\x7b' :: (body ++ '\x7d' :: rest))
  | character {c : Char} {rest : Text} :
      c ∉ ['\x5c', '|', '\x7b'] → Derives .pieces rest → Derives .pieces (c :: rest)
  | noItem : Derives .expression []
  | braced {body rest : Text} :
      Derives .expression body → Derives .expression rest →
      Derives .expression ('\x7b' :: (body ++ '\x7d' :: rest))
  | inner {body rest : Text} :
      Derives .template body → Derives .expression rest → Derives .expression (body ++ rest)
  | quoted {quote : Char} {body rest : Text} :
      isQuote quote = true → QuotedBody quote body → Derives .expression rest →
      Derives .expression (quote :: (body ++ quote :: rest))
  | sign {c : Char} {rest : Text} :
      c ∉ ['\x7b', '\x7d', '|'] → isQuote c = false → Derives .expression rest →
      Derives .expression (c :: rest)

/-- The characters of a line from one position up to another. -/
def stretch (text : Text) (start stop : Nat) : Text :=
  (text.drop start).take (stop - start)

/-- A quoted literal stands between two positions of a line, and no further quote behind it. -/
structure QuotedAt (quote : Char) (text : Text) (start stop : Nat) : Prop where
  forward : start < stop
  within : stop ≤ text.length
  derived : ∃ body, QuotedBody quote body ∧ stretch text start stop = quote :: (body ++ [quote])
  complete : text[stop]? ≠ some quote

/-- A string template stands between two positions of a line. -/
structure TemplateAt (text : Text) (start stop : Nat) : Prop where
  forward : start < stop
  within : stop ≤ text.length
  derived : Derives .template (stretch text start stop)

/-- A search for the end of a literal finds the only one there is, and fails if there is none. -/
structure Decides (found : Except LexFault Nat) (EndsAt : Nat → Prop) : Prop where
  accepts : ∀ stop, found = .ok stop ↔ EndsAt stop
  refuses : (∃ fault, found = .error fault) ↔ ∀ stop, ¬EndsAt stop
  unique : ∀ stop other, EndsAt stop → EndsAt other → stop = other

theorem decides_of_accepts
    {found : Except LexFault Nat} {EndsAt : Nat → Prop}
    (h : ∀ stop, found = .ok stop ↔ EndsAt stop) :
    Decides found EndsAt where
  accepts := h
  refuses := by
    cases found with
    | error fault => simp [← h]
    | ok n => simp [← h]
  unique := fun stop other hstop hother =>
    Except.ok.inj (((h stop).mpr hstop).symm.trans ((h other).mpr hother))

theorem map_add_zero (found : Except LexFault Nat) : found.map (· + 0) = found := by
  cases found <;> rfl

theorem map_add_add
    (found : Except LexFault Nat) (m n : Nat) :
    (found.map (· + m)).map (· + n) = found.map (· + (m + n)) := by
  cases found with
  | error fault => rfl
  | ok k => exact congrArg Except.ok (Nat.add_assoc k m n)

/-! ## Quoted literals -/

theorem QuotedBody.quotedLength_append
    {quote : Char} {body : Text} (h : QuotedBody quote body) (rest : Text) :
    quotedLength quote (body ++ rest) = (quotedLength quote rest).map (· + body.length) := by
  induction h with
  | nil => exact (map_add_zero _).symm
  | @plain c body hc _ ih =>
      rw [List.cons_append, quotedLength.eq_def]
      simp only [hc, if_false, ih, map_add_add, List.length_cons]
  | @doubled body _ ih =>
      rw [List.cons_append, List.cons_append, quotedLength.eq_def]
      simp only [if_true, ih, map_add_add, List.length_cons, Nat.add_assoc]

theorem quotedLength_eq_ok_iff
    {quote : Char} {cs : Text} {n : Nat} :
    quotedLength quote cs = .ok n ↔
      ∃ body rest, cs = body ++ quote :: rest ∧ QuotedBody quote body ∧
        rest.head? ≠ some quote ∧ n = body.length + 1 := by
  constructor
  · intro h
    fun_induction quotedLength quote cs generalizing n with
    | case1 => simp at h
    | case2 => exact ⟨[], [], rfl, .nil, by simp, (Except.ok.inj h).symm⟩
    | case3 ds ih =>
        obtain ⟨m, hm, rfl⟩ := map_eq_ok_iff.mp h
        obtain ⟨body, rest, rfl, hbody, hrest, rfl⟩ := ih hm
        exact ⟨quote :: quote :: body, rest, rfl, .doubled hbody, hrest, rfl⟩
    | case4 d ds hd => exact ⟨[], d :: ds, rfl, .nil, by simpa using hd, (Except.ok.inj h).symm⟩
    | case5 c cs hc ih =>
        obtain ⟨m, hm, rfl⟩ := map_eq_ok_iff.mp h
        obtain ⟨body, rest, rfl, hbody, hrest, rfl⟩ := ih hm
        exact ⟨c :: body, rest, rfl, .plain hc hbody, hrest, rfl⟩
  · rintro ⟨body, rest, rfl, hbody, hrest, rfl⟩
    have hclosing : quotedLength quote (quote :: rest) = .ok 1 := quotedLength_quote hrest
    rw [hbody.quotedLength_append, hclosing]
    exact congrArg Except.ok (Nat.add_comm 1 _)

/-! ## Derived stretches are read over -/

section Steps

variable (depth : Nat) (outer : List Nat) (rest : Text)

theorem templateLength_escape (c : Char) :
    templateLength 0 outer ('\x5c' :: c :: rest) = (templateLength 0 outer rest).map (· + 2) := by
  rw [templateLength.eq_def]
  simp

theorem templateLength_character {c : Char} (hc : c ∉ ['\x5c', '|', '\x7b']) :
    templateLength 0 outer (c :: rest) = (templateLength 0 outer rest).map (· + 1) := by
  simp only [List.mem_cons, List.not_mem_nil, or_false, not_or] at hc
  rw [templateLength.eq_def]
  simp [hc]

theorem templateLength_open :
    templateLength depth outer ('\x7b' :: rest) =
      (templateLength (depth + 1) outer rest).map (· + 1) := by
  rw [templateLength.eq_def]
  cases depth <;> simp

theorem templateLength_close :
    templateLength (depth + 1) outer ('\x7d' :: rest) =
      (templateLength depth outer rest).map (· + 1) := by
  rw [templateLength.eq_def]
  simp

/-- A bar between braces begins a template. -/
theorem templateLength_begin :
    templateLength (depth + 1) outer ('|' :: rest) =
      (templateLength 0 ((depth + 1) :: outer) rest).map (· + 1) := by
  rw [templateLength.eq_def]
  simp

/-- A bar between pieces ends a template. -/
theorem templateLength_resume :
    templateLength 0 (depth :: outer) ('|' :: rest) =
      (templateLength depth outer rest).map (· + 1) := by
  rw [templateLength.eq_def]
  simp

theorem templateLength_last : templateLength 0 [] ('|' :: rest) = .ok 1 := by
  rw [templateLength.eq_def]
  simp

theorem templateLength_sign {c : Char} (hc : c ∉ ['\x7b', '\x7d', '|'])
    (hquote : isQuote c = false) :
    templateLength (depth + 1) outer (c :: rest) =
      (templateLength (depth + 1) outer rest).map (· + 1) := by
  simp only [List.mem_cons, List.not_mem_nil, or_false, not_or] at hc
  rw [templateLength.eq_def]
  simp [hc, hquote]

theorem templateLength_of_isQuote {c : Char} (hquote : isQuote c = true) :
    templateLength (depth + 1) outer (c :: rest) =
      (quotedLength c rest).bind fun n =>
        (templateLength (depth + 1) outer (rest.drop n)).map (· + (n + 1)) := by
  have hsigns : c ≠ '\x7b' ∧ c ≠ '\x7d' ∧ c ≠ '|' := by
    simp only [isQuote, Bool.or_eq_true, beq_iff_eq] at hquote
    rcases hquote with rfl | rfl <;> decide
  obtain ⟨hopen, hclose, hbar⟩ := hsigns
  rw [templateLength.eq_def]
  simp only [Nat.add_eq_zero_iff, Nat.one_ne_zero, and_false, if_false, hopen, hclose, hbar,
    hquote, if_true]
  cases quotedLength c rest <;> rfl

end Steps

/-- A quoted literal in an expression is read over.  If another one follows at once, the two are
read as one, with a doubled quote in the middle, and end where the second one does. -/
theorem QuotedBody.templateLength_append
    {quote : Char} {body : Text} (h : QuotedBody quote body) (hquote : isQuote quote = true)
    (depth : Nat) (outer : List Nat) (rest : Text) :
    templateLength (depth + 1) outer (quote :: (body ++ quote :: rest)) =
      (templateLength (depth + 1) outer rest).map (· + (body.length + 2)) := by
  rw [templateLength_of_isQuote _ _ _ hquote, h.quotedLength_append]
  by_cases hnext : rest.head? = some quote
  · obtain ⟨more, rfl⟩ := List.head?_eq_some_iff.mp hnext
    have hdoubled : quotedLength quote (quote :: quote :: more) =
        (quotedLength quote more).map (· + 2) := by
      rw [quotedLength.eq_def]
      simp
    rw [hdoubled, map_add_add, templateLength_of_isQuote _ _ _ hquote]
    cases quotedLength quote more with
    | error fault => rfl
    | ok n =>
        have hdrop : (body ++ quote :: quote :: more).drop (n + (2 + body.length)) =
            more.drop n := by
          rw [List.drop_append, List.drop_of_length_le (by omega), List.nil_append,
            show n + (2 + body.length) - body.length = n + 2 by omega]
          rfl
        have hlength : n + (2 + body.length) + 1 = n + 1 + (body.length + 2) := by omega
        simp only [Except.map, Except.bind, hdrop, hlength]
        exact (map_add_add _ _ _).symm
  · have hclosing : quotedLength quote (quote :: rest) = .ok 1 := quotedLength_quote hnext
    have hdrop : (body ++ quote :: rest).drop (1 + body.length) = rest := by
      rw [Nat.add_comm, ← List.drop_drop, List.drop_left, List.drop_one, List.tail_cons]
    have hlength : 1 + body.length + 1 = body.length + 2 := by omega
    rw [hclosing]
    simp only [Except.map, Except.bind, hdrop, hlength]

/-- What is derived is read over: pieces where no brace is open, anything else where one is. -/
theorem Derives.templateLength_append
    {place : Place} {t : Text} (h : Derives place t) {depth : Nat}
    (hdepth : depth = 0 ↔ place = .pieces) (outer : List Nat) (rest : Text) :
    templateLength depth outer (t ++ rest) =
      (templateLength depth outer rest).map (· + t.length) := by
  induction h generalizing depth outer rest with
  | @template body _ ih =>
      obtain ⟨depth, rfl⟩ := Nat.exists_eq_succ_of_ne_zero fun h => nomatch hdepth.mp h
      rw [List.cons_append, List.append_assoc, Nat.succ_eq_add_one, templateLength_begin,
        ih (by simp), List.singleton_append, templateLength_resume, map_add_add, map_add_add]
      simp [Nat.add_comm]
  | noPiece => exact (map_add_zero _).symm
  | escaped c _ ih =>
      obtain rfl := hdepth.mpr rfl
      rw [List.cons_append, List.cons_append, templateLength_escape, ih hdepth, map_add_add]
      rfl
  | @embedded body tail _ _ ihbody ihtail =>
      obtain rfl := hdepth.mpr rfl
      rw [List.cons_append, List.append_assoc, List.cons_append, templateLength_open,
        ihbody (by simp), templateLength_close, ihtail hdepth, map_add_add, map_add_add,
        map_add_add]
      simp [Nat.add_comm, Nat.add_left_comm]
  | character hc _ ih =>
      obtain rfl := hdepth.mpr rfl
      rw [List.cons_append, templateLength_character _ _ hc, ih hdepth, map_add_add]
      rfl
  | noItem => exact (map_add_zero _).symm
  | @braced body tail _ _ ihbody ihtail =>
      rw [List.cons_append, List.append_assoc, List.cons_append, templateLength_open,
        ihbody (by simp), templateLength_close, ihtail hdepth, map_add_add, map_add_add,
        map_add_add]
      simp [Nat.add_comm, Nat.add_left_comm]
  | inner _ _ ihbody ihtail =>
      rw [List.append_assoc, ihbody (by simpa using hdepth), ihtail hdepth, map_add_add]
      simp [Nat.add_comm]
  | @quoted quote body tail hquote hbody _ ih =>
      obtain ⟨depth, rfl⟩ := Nat.exists_eq_succ_of_ne_zero fun h => nomatch hdepth.mp h
      rw [List.cons_append, List.append_assoc, List.cons_append, Nat.succ_eq_add_one,
        hbody.templateLength_append hquote, ih hdepth, map_add_add]
      simp [Nat.add_comm, Nat.add_left_comm]
  | sign hc hquote _ ih =>
      obtain ⟨depth, rfl⟩ := Nat.exists_eq_succ_of_ne_zero fun h => nomatch hdepth.mp h
      rw [List.cons_append, Nat.succ_eq_add_one, templateLength_sign _ _ _ hc hquote, ih hdepth,
        map_add_add]
      rfl

/-! ## What is read over is derived -/

/-- A text that closes the open braces and templates, the innermost first: `depth` braces are open
in the innermost template, and those of the templates around it are as in `outer`. -/
inductive Closes : (depth : Nat) → (outer : List Nat) → Text → Prop where
  | last {body : Text} : Derives .pieces body → Closes 0 [] (body ++ ['|'])
  | template {resumed : Nat} {others : List Nat} {body rest : Text} :
      Derives .pieces body → Closes resumed others rest →
      Closes 0 (resumed :: others) (body ++ '|' :: rest)
  | brace {depth : Nat} {outer : List Nat} {body rest : Text} :
      Derives .expression body → Closes depth outer rest →
      Closes (depth + 1) outer (body ++ '\x7d' :: rest)

namespace Closes

variable {depth : Nat} {outer : List Nat} {t : Text}

/-- A piece may come first. -/
theorem piece (h : Closes 0 outer t) (front : Text)
    (hfront : ∀ body, Derives .pieces body → Derives .pieces (front ++ body)) :
    Closes 0 outer (front ++ t) := by
  cases h with
  | last hbody =>
      rw [← List.append_assoc]
      exact .last (hfront _ hbody)
  | template hbody hrest =>
      rw [← List.append_assoc]
      exact .template (hfront _ hbody) hrest

/-- An item of an expression may come first. -/
theorem item (h : Closes (depth + 1) outer t) (front : Text)
    (hfront : ∀ body, Derives .expression body → Derives .expression (front ++ body)) :
    Closes (depth + 1) outer (front ++ t) := by
  cases h with
  | brace hbody hrest =>
      rw [← List.append_assoc]
      exact .brace (hfront _ hbody) hrest

theorem openBrace (h : Closes (depth + 1) outer t) : Closes depth outer ('\x7b' :: t) := by
  cases h with
  | @brace _ _ body rest hbody hrest =>
      have hfront : '\x7b' :: (body ++ '\x7d' :: rest) =
          ('\x7b' :: (body ++ ['\x7d'])) ++ rest := by simp
      rw [hfront]
      cases depth with
      | zero => exact hrest.piece _ fun tail htail => by simpa using Derives.embedded hbody htail
      | succ depth => exact hrest.item _ fun tail htail => by simpa using Derives.braced hbody htail

theorem openTemplate (h : Closes 0 ((depth + 1) :: outer) t) :
    Closes (depth + 1) outer ('|' :: t) := by
  cases h with
  | @template _ _ body rest hbody hrest =>
      have hfront : '|' :: (body ++ '|' :: rest) = ('|' :: (body ++ ['|'])) ++ rest := by simp
      rw [hfront]
      exact hrest.item _ fun tail htail => .inner (.template hbody) htail

end Closes

theorem closes_of_templateLength
    {depth : Nat} {outer : List Nat} {cs : Text} {n : Nat}
    (h : templateLength depth outer cs = .ok n) :
    Closes depth outer (cs.take n) := by
  fun_induction templateLength depth outer cs generalizing n with
  | case1 => simp at h
  | case2 => simp at h
  | case3 outer d ds ih =>
      obtain ⟨m, hm, rfl⟩ := map_eq_ok_iff.mp h
      exact (ih hm).piece ['\x5c', d] fun body hbody => .escaped d hbody
  | case4 cs =>
      obtain rfl := Except.ok.inj h
      exact .last .noPiece
  | case5 cs resumed others _ ih =>
      obtain ⟨m, hm, rfl⟩ := map_eq_ok_iff.mp h
      exact .template .noPiece (ih hm)
  | case6 outer cs _ _ ih =>
      obtain ⟨m, hm, rfl⟩ := map_eq_ok_iff.mp h
      exact (ih hm).openBrace
  | case7 outer c cs hescape hbar hopen ih =>
      obtain ⟨m, hm, rfl⟩ := map_eq_ok_iff.mp h
      exact (ih hm).piece [c] fun body hbody => .character (by simp [*]) hbody
  | case8 depth outer cs hdepth ih =>
      obtain ⟨m, hm, rfl⟩ := map_eq_ok_iff.mp h
      exact (ih hm).openBrace
  | case9 depth outer cs hdepth hopen ih =>
      obtain ⟨depth, rfl⟩ := Nat.exists_eq_succ_of_ne_zero hdepth
      obtain ⟨m, hm, rfl⟩ := map_eq_ok_iff.mp h
      exact .brace .noItem (ih hm)
  | case10 depth outer cs hdepth hopen hclose ih =>
      obtain ⟨depth, rfl⟩ := Nat.exists_eq_succ_of_ne_zero hdepth
      obtain ⟨m, hm, rfl⟩ := map_eq_ok_iff.mp h
      exact (ih hm).openTemplate
  | case11 => simp at h
  | case12 depth outer c cs hdepth hopen hclose hbar hquote n hn ih =>
      obtain ⟨depth, rfl⟩ := Nat.exists_eq_succ_of_ne_zero hdepth
      obtain ⟨m, hm, rfl⟩ := map_eq_ok_iff.mp h
      obtain ⟨body, rest, rfl, hbody, -, rfl⟩ := quotedLength_eq_ok_iff.mp hn
      have hdrop : (body ++ c :: rest).drop (body.length + 1) = rest := by
        rw [← List.drop_drop, List.drop_left, List.drop_one, List.tail_cons]
      have htake : (c :: (body ++ c :: rest)).take (m + (body.length + 1 + 1)) =
          (c :: (body ++ [c])) ++ rest.take m := by
        rw [← Nat.add_assoc, List.take_succ_cons, List.take_append,
          List.take_of_length_le (by omega),
          show m + (body.length + 1) - body.length = m + 1 by omega, List.take_succ_cons]
        simp
      rw [hdrop] at hm ih
      rw [htake]
      exact (ih hm).item _ fun tail htail => by simpa using Derives.quoted hquote hbody htail
  | case13 depth outer c cs hdepth hopen hclose hbar hquote ih =>
      obtain ⟨depth, rfl⟩ := Nat.exists_eq_succ_of_ne_zero hdepth
      obtain ⟨m, hm, rfl⟩ := map_eq_ok_iff.mp h
      exact (ih hm).item [c] fun body hbody =>
        .sign (by simp [*]) (by simpa using hquote) hbody

/-- A template is measured exactly if its rules derive it. -/
theorem templateLength_eq_ok_iff {cs : Text} {n : Nat} :
    templateLength 0 [] cs = .ok n ↔
      n ≤ cs.length ∧ Derives .template ('|' :: cs.take n) := by
  constructor
  · intro h
    refine ⟨templateLength_le h, ?_⟩
    generalize hread : cs.take n = t
    have hcloses := closes_of_templateLength h
    rw [hread] at hcloses
    cases hcloses with
    | last hbody => exact .template hbody
  · rintro ⟨hle, hderives⟩
    generalize hread : cs.take n = t at hderives
    have hsplit : t ++ cs.drop n = cs := hread ▸ List.take_append_drop n cs
    have hlength : t.length = n := hread ▸ List.length_take_of_le hle
    cases hderives with
    | @template body hbody =>
        rw [← hsplit, List.append_assoc, hbody.templateLength_append (by simp),
          List.singleton_append, templateLength_last]
        rw [List.length_append, List.length_singleton] at hlength
        exact congrArg Except.ok ((Nat.add_comm 1 body.length).trans hlength)

/-! ## Positions in a line -/

section Positions

variable {text : Text} {start : Nat} {c : Char} (hc : text[start]? = some c)
include hc

theorem stretch_eq_cons (n : Nat) :
    stretch text start (start + 1 + n) = c :: (text.drop (start + 1)).take n := by
  obtain ⟨hlt, rfl⟩ := List.getElem?_eq_some_iff.mp hc
  rw [stretch, List.drop_eq_getElem_cons hlt, show start + 1 + n - start = n + 1 by omega,
    List.take_succ_cons]

theorem within_iff (n : Nat) :
    start + 1 + n ≤ text.length ↔ n ≤ (text.drop (start + 1)).length := by
  obtain ⟨hlt, -⟩ := List.getElem?_eq_some_iff.mp hc
  rw [List.length_drop]
  omega

theorem quotedAt_iff (n : Nat) :
    QuotedAt c text start (start + 1 + n) ↔
      quotedLength c (text.drop (start + 1)) = .ok n := by
  have hbehind : text[start + 1 + n]? = ((text.drop (start + 1)).drop n).head? := by
    rw [List.drop_drop, List.head?_drop]
  rw [quotedLength_eq_ok_iff]
  constructor
  · rintro ⟨-, hwithin, ⟨body, hbody, hderived⟩, hcomplete⟩
    rw [stretch_eq_cons hc, List.cons.injEq] at hderived
    have htake := List.take_append_drop n (text.drop (start + 1))
    rw [hderived.2, List.append_assoc, List.singleton_append] at htake
    refine ⟨body, _, htake.symm, hbody, hbehind ▸ hcomplete, ?_⟩
    rw [← List.length_take_of_le ((within_iff hc n).mp hwithin), hderived.2, List.length_append,
      List.length_singleton]
  · rintro ⟨body, rest, hsplit, hbody, hrest, rfl⟩
    have hclosed : text.drop (start + 1) = (body ++ [c]) ++ rest := by simp [hsplit]
    have hlength : (body ++ [c]).length = body.length + 1 := by simp
    refine ⟨by omega, (within_iff hc _).mpr ?_, ⟨body, hbody, ?_⟩, ?_⟩
    · rw [hclosed, List.length_append]
      omega
    · rw [stretch_eq_cons hc, hclosed, ← hlength, List.take_left]
    · rwa [hbehind, hclosed, ← hlength, List.drop_left]

end Positions

theorem templateAt_iff {text : Text} {start : Nat} (hbar : text[start]? = some '|') (n : Nat) :
    TemplateAt text start (start + 1 + n) ↔
      templateLength 0 [] (text.drop (start + 1)) = .ok n := by
  rw [templateLength_eq_ok_iff, ← within_iff hbar, ← stretch_eq_cons hbar]
  exact ⟨fun h => ⟨h.within, h.derived⟩, fun h => ⟨by omega, h.1, h.2⟩⟩

/-- What ends behind a position ends some characters behind the one that stands there. -/
theorem decides_behind
    {start : Nat} {measured : Except LexFault Nat} {EndsAt : Nat → Prop}
    (hforward : ∀ stop, EndsAt stop → start < stop)
    (h : ∀ n, EndsAt (start + 1 + n) ↔ measured = .ok n) :
    Decides (measured.map (start + 1 + ·)) EndsAt := by
  refine decides_of_accepts fun stop => ?_
  rw [map_eq_ok_iff]
  constructor
  · rintro ⟨n, hn, rfl⟩
    exact (h n).mpr hn
  · intro hends
    obtain ⟨n, rfl⟩ := Nat.exists_eq_add_of_le (hforward stop hends)
    exact ⟨n, (h n).mp hends, rfl⟩

/-- At a quote and at a bar of any line, the measures find the end of the quoted literal or of the
template that begins there.  It is the only end that the rules allow, behind the sign and within the
line; and where they allow none, the line is refused. -/
theorem lengths_decide_grammar (text : Text) (start : Nat) :
    (∀ quote, text[start]? = some quote →
      Decides ((quotedLength quote (text.drop (start + 1))).map (start + 1 + ·))
        (QuotedAt quote text start)) ∧
    (text[start]? = some '|' →
      Decides ((templateLength 0 [] (text.drop (start + 1))).map (start + 1 + ·))
        (TemplateAt text start)) :=
  ⟨fun _ hquote => decides_behind (fun _ h => h.forward) (quotedAt_iff hquote),
    fun hbar => decides_behind (fun _ h => h.forward) (templateAt_iff hbar)⟩

/-- A template with an escaped bar, a literal with a doubled quote and a brace, and another template
within; then a quoted literal, and one that is left open. -/
def literalLine : Text :=
  "|a\\|\x7b 'b''\x7d' && |\x7b d \x7d\x7d| \x7d\x7d| 'it''s' \x60o".toList

theorem lengths_decide_grammar_literalLine :
    TemplateAt literalLine 0 28 ∧ QuotedAt '\x27' literalLine 29 36 ∧
      ∀ stop, ¬QuotedAt '\x60' literalLine 37 stop := by
  have htemplate := (lengths_decide_grammar literalLine 0).2 (by decide +kernel)
  have hclosed := (lengths_decide_grammar literalLine 29).1 '\x27' (by decide +kernel)
  have hopen := (lengths_decide_grammar literalLine 37).1 '\x60' (by decide +kernel)
  have hrest : literalLine.drop (37 + 1) = ['o'] := by decide +kernel
  exact ⟨(htemplate.accepts 28).mp (eq_ok_of_toOption (by decide +kernel)),
    (hclosed.accepts 36).mp (eq_ok_of_toOption (by decide +kernel)),
    hopen.refuses.mp ⟨.openLiteral, by rw [hrest]; simp [quotedLength, Except.map]⟩⟩

end Literal
end AbapLayout
