import AbapLayout.Layout.Spacing
import AbapLayout.Proofs.Recasing

/-!
# Units in front of another text

Which units are measured as before when another text stands behind them.  `Lexeme.Misread` lists
those that are not: a name that ends in a hyphen or plus sign, or runs into a hyphen at the end of
its line, and an operator that makes a longer one with the sign behind it.  Given what may stand
behind a word in print (`Lexeme.Stops`), all others are read as they were
(`Lexeme.measurePlain_reread`).
-/

namespace AbapLayout

/-! ## Names -/

namespace Word

/-- Whether a text is a name: a word or a field symbol. -/
def isName : Text → Bool
  | [] => false
  | c :: cs => begins c cs || (c == '<' && (fieldSymbolLength? cs).isSome)

theorem isName_map
    {f : Char → Char} (hf : Text.IsCaseMap f) (w : Text) :
    isName (w.map f) = isName w := by
  cases w with
  | nil => rfl
  | cons c cs =>
      rw [List.map_cons, isName, isName, begins_map hf, fieldSymbolLength?_map hf,
        beq_map hf (by decide)]

/-- Up to its last character a word goes on whatever stands behind it. -/
theorem length_append_cons
    {init rest : Text} {c : Char} (h : init.length + 1 ≤ length (init ++ c :: rest)) (b : Text) :
    length (init ++ c :: b) = init.length + length (c :: b) := by
  have hselects : ∀ ds t : Text, selectsComponent (ds ++ c :: t) = selectsComponent (ds ++ [c]) := by
    intro ds t
    cases ds <;> rfl
  have hoffset : ∀ ds t : Text, beginsOffset (ds ++ c :: t) = beginsOffset (ds ++ [c]) := by
    intro ds t
    cases ds <;> rfl
  induction init with
  | nil => simp
  | cons d ds ih =>
      rw [List.cons_append, length, hselects, hoffset] at h
      rw [List.cons_append, length, hselects, hoffset]
      split at h
      next hgoes =>
        rw [if_pos hgoes, ih (by simp only [List.length_cons] at h; omega), List.length_cons]
        omega
      next => simp at h

theorem length_eq_zero_of_append
    {cs rest : Text} (h : length (cs ++ rest) = cs.length) :
    length rest = 0 := by
  induction cs with
  | nil => simpa using h
  | cons c cs ih =>
      rw [List.cons_append, length] at h
      split at h
      · exact ih (by simp only [List.length_cons] at h; omega)
      · simp at h

end Word

/-! ## What may stand behind a word -/

namespace Lexeme

/-- The characters that may stand directly behind a word in print. -/
def stopChars : Text :=
  " \x22.,-=:()[]+".toList

/-- A text that begins with such a character, or is empty. -/
def Stops (b : Text) : Prop :=
  ∀ d, b.head? = some d → d ∈ stopChars

theorem stopChars_class :
    ∀ d ∈ stopChars, Text.isAlphanumeric d = false ∧ Text.isDigit d = false ∧
      Word.isSymbolChar d = false ∧ Word.isNameChar d = false ∧
      d ∉ ['_', '<', '>', '*', '&', '#', '|', '\x27', '\x60'] :=
  Text.forall_mem_of_all (by decide +kernel)

theorem Stops.selectsComponent
    {b : Text} (h : Stops b) (hne : b ≠ []) :
    Word.selectsComponent b = false := by
  cases b with
  | nil => exact absurd rfl hne
  | cons d ds =>
      obtain ⟨halpha, -, -, -, hother⟩ := stopChars_class d (h d rfl)
      simp only [List.mem_cons, not_or] at hother
      simp [Word.selectsComponent, halpha, hother.1, hother.2.1]

theorem Stops.beginsOffset {b : Text} (h : Stops b) : Word.beginsOffset b = false := by
  cases b with
  | nil => rfl
  | cons d ds => exact (stopChars_class d (h d rfl)).2.1

/-- A name goes on as before in front of a text that stops it. -/
theorem length_reread
    {cs rest b : Text} (h : Word.length (cs ++ rest) = cs.length) (hstops : Stops b)
    (hb : Word.length b = 0 ∨ b = ['-']) :
    Word.length (cs ++ b) = cs.length ↔
      ¬(cs.getLast? = some '-' ∧ b ≠ [] ∨ cs.getLast? = some '+' ∨ b = ['-']) := by
  have hhyphen : Word.length b = 0 ↔ b ≠ ['-'] := by
    constructor
    · rintro hzero rfl
      exact absurd hzero (by decide)
    · exact fun hne => hb.resolve_right hne
  rcases List.eq_nil_or_concat cs with rfl | ⟨init, e, rfl⟩
  · simpa using hhyphen
  · rw [List.concat_eq_append] at h ⊢
    simp only [List.append_assoc, List.singleton_append, List.length_append,
      List.length_singleton, List.getLast?_concat, Option.some.injEq] at h ⊢
    have hgoes := fun t => Word.length_append_cons (Nat.le_of_eq h.symm) t
    rw [hgoes, Word.length] at h
    rw [hgoes, Word.length]
    -- The last character has gone on in the source, so it is one of three.
    split at h
    next hlast =>
      by_cases hword : Word.isWordChar e = true
      · have hminus : e ≠ '-' := by
          rintro rfl
          exact absurd hword (by decide)
        have hplus : e ≠ '+' := by
          rintro rfl
          exact absurd hword (by decide)
        rw [if_pos (by simp [hword])]
        simp only [hminus, hplus, false_and, false_or, ← hhyphen]
        omega
      · simp only [hword, Bool.false_or, Bool.or_eq_true, Bool.and_eq_true, beq_iff_eq] at hlast
        rcases hlast with ⟨rfl, -⟩ | ⟨rfl, -⟩
        · cases b with
          | nil => simp [Word.selectsComponent, Word.length]
          | cons d ds =>
              have hselects := hstops.selectsComponent (by simp)
              simp [hword, hselects]
        · have hoffset := hstops.beginsOffset
          simp [hword, hoffset]
    next => omega

/-! ## Names in front of another text -/

/-- The operators that make a longer one with an equals sign. -/
def extendable : List String :=
  ["<", ">", "+", "-", "*", "/", "?", "&&", "**"]

/-- A unit that is not read as such in front of a text that may stand behind it in print. -/
def Misread (w b : Text) : Prop :=
  Word.isName w = true ∧
      (2 ≤ w.length ∧ (w.getLast? = some '-' ∧ b ≠ [] ∨ w.getLast? = some '+') ∨ b = ['-']) ∨
    String.ofList w ∈ extendable ∧ b.head? = some '=' ∨
    w = ['-', '>'] ∧ b.head? = some '*'

instance (w b : Text) : Decidable (Misread w b) :=
  inferInstanceAs (Decidable (_ ∨ _ ∨ _))

theorem begins_eq_false :
    ∀ c ∈ ".,:()[]\x7b\x7d<".toList, ∀ cs, Word.begins c cs = false := by
  intro c hc cs
  have hclass : ∀ d ∈ ".,:()[]\x7b\x7d<".toList, d ≠ '/' ∧ d ≠ '&' ∧ Word.isWordChar d = false :=
    Text.forall_mem_of_all (by decide)
  obtain ⟨hslash, hand, hword⟩ := hclass c hc
  rw [Word.begins.eq_def, if_neg hslash, if_neg hand, hword]

theorem mem_of_standsAlone
    {c : Char} (h : standsAlone c = true) :
    c ∈ ".,:()[]\x7b\x7d<".toList := by
  have hbrackets : ∀ d ∈ "()[]\x7b\x7d".toList, d ∈ ".,:()[]\x7b\x7d<".toList :=
    Text.forall_mem_of_all (by decide)
  simp only [standsAlone, isBracket, Bool.or_eq_true, beq_iff_eq, List.contains_iff_mem] at h
  rcases h with ((rfl | rfl) | rfl) | h
  · decide
  · decide
  · decide
  · exact hbrackets c h

theorem measurePlain_of_begins
    {c : Char} {cs : Text} (h : Word.begins c cs = true) :
    measurePlain c cs = (.word, Word.length cs) := by
  have hother : c ∉ ".,:()[]\x7b\x7d<".toList := by
    intro hc
    simp [begins_eq_false c hc] at h
  have halone : standsAlone c = false := by
    cases halone : standsAlone c with
    | false => rfl
    | true => exact absurd (mem_of_standsAlone halone) hother
  rcases measurePlain_cases halone cs with ⟨rfl, -⟩ | ⟨-, ⟨-, heq⟩ | ⟨hno, -⟩⟩
  · exact absurd (by decide) hother
  · exact heq
  · simp [h] at hno

theorem measurePlain_of_fieldSymbol
    {cs : Text} {n : Nat} (h : Word.fieldSymbolLength? cs = some n) :
    measurePlain '<' cs = (.word, n) := by
  rcases measurePlain_cases (c := '<') (by decide) cs with ⟨-, m, hm, heq⟩ | ⟨hnone, -⟩
  · rw [h, Option.some.injEq] at hm
    rw [heq, hm]
  · simp [h] at hnone

/-- Where the closing angle bracket of a field symbol stands, or at once, a name goes on as a word. -/
theorem measurePlain_of_isName
    {c : Char} {cs : Text} (hname : Word.isName (c :: cs) = true) :
    ∃ front more, cs = front ++ more ∧ (front = [] ∨ front.getLast? = some '>') ∧
      ∀ t, measurePlain c (cs ++ t) = (.word, front.length + Word.length (more ++ t)) := by
  rw [Word.isName, Bool.or_eq_true, Bool.and_eq_true, beq_iff_eq] at hname
  rcases hname with hbegins | ⟨rfl, hsymbol⟩
  · refine ⟨[], cs, rfl, .inl rfl, fun t => ?_⟩
    rw [measurePlain_of_begins, List.length_nil, Nat.zero_add]
    cases cs with
    | cons d ds => simpa [Word.begins.eq_def] using hbegins
    | nil =>
        rw [Word.begins.eq_def] at hbegins ⊢
        split at hbegins
        · simp at hbegins
        next hslash =>
          split at hbegins
          · simp at hbegins
          next hand => rw [if_neg hslash, if_neg hand, hbegins]
  · obtain ⟨k, hk⟩ := Option.isSome_iff_exists.mp hsymbol
    obtain ⟨name, more, rfl, hne, hall, -⟩ := Word.fieldSymbolLength?_eq_some_iff.mp hk
    refine ⟨name ++ ['>'], more, by simp, .inr (by simp), fun t => ?_⟩
    refine measurePlain_of_fieldSymbol (Word.fieldSymbolLength?_eq_some_iff.mpr ?_)
    exact ⟨name, more ++ t, by simp, hne, hall, by simp⟩

theorem length_eq_zero_of_isName
    {c : Char} {cs rest : Text} {role : Role} (hname : Word.isName (c :: cs) = true)
    (h : measurePlain c (cs ++ rest) = (role, cs.length)) :
    Word.length rest = 0 := by
  obtain ⟨front, more, rfl, -, hmeasure⟩ := measurePlain_of_isName hname
  rw [hmeasure rest] at h
  have hlength := (Prod.mk.inj h).2
  rw [List.length_append] at hlength
  exact Word.length_eq_zero_of_append (by omega : Word.length (more ++ rest) = more.length)

/-- A name is read as such in front of another text, except for what `Misread` says. -/
theorem measurePlain_name
    {c : Char} {cs rest b : Text} {role : Role} (hname : Word.isName (c :: cs) = true)
    (h : measurePlain c (cs ++ rest) = (role, cs.length)) (hstops : Stops b)
    (hb : Word.length b = 0 ∨ b = ['-']) :
    role = .word ∧ ∃ n, measurePlain c (cs ++ b) = (.word, n) ∧
      (n = cs.length ↔ ¬(2 ≤ (c :: cs).length ∧
        ((c :: cs).getLast? = some '-' ∧ b ≠ [] ∨ (c :: cs).getLast? = some '+') ∨ b = ['-'])) := by
  obtain ⟨front, more, rfl, hfront, hmeasure⟩ := measurePlain_of_isName hname
  rw [hmeasure rest] at h
  obtain ⟨hrole, hlength⟩ := Prod.mk.inj h
  rw [List.length_append] at hlength
  have hsource : Word.length (more ++ rest) = more.length := by omega
  refine ⟨hrole.symm, _, hmeasure b, ?_⟩
  have hequal : front.length + Word.length (more ++ b) = (front ++ more).length ↔
      Word.length (more ++ b) = more.length := by
    rw [List.length_append]
    omega
  rw [hequal, length_reread hsource hstops hb, ← or_assoc]
  cases more with
  | nil =>
      rcases hfront with rfl | hlast
      · simp
      · obtain ⟨init, rfl⟩ := List.getLast?_eq_some_iff.mp hlast
        rw [List.append_nil, ← List.cons_append, List.getLast?_concat]
        simp
  | cons d ds =>
      have hlast : (c :: (front ++ d :: ds)).getLast? = (d :: ds).getLast? := by
        rw [← List.cons_append, List.getLast?_append, List.getLast?_cons, Option.some_or]
      have htwo : 2 ≤ (c :: (front ++ d :: ds)).length := by
        simp only [List.length_cons, List.length_append]
        omega
      simp only [hlast, htwo, true_and]

/-! ## Operators in front of another text -/

/-- The characters that make a longer operator of an operator. -/
def extensions (op : String) : List Char :=
  Word.operators.filterMap fun longer =>
    if op.toList.isPrefixOf longer.toList then (longer.toList.drop op.length).head? else none

/-- The operators in front of an operator in the table are no beginnings of it. -/
theorem operators_longest_first :
    ∀ op ∈ Word.operators, ∃ front back, Word.operators = front ++ op :: back ∧
      ∀ other ∈ front, other.toList.isPrefixOf op.toList = false := by
  have hsplit : ∀ op ∈ Word.operators,
      Word.operators = Word.operators.takeWhile (· != op) ++
        op :: (Word.operators.dropWhile (· != op)).drop 1 ∧
      ∀ other ∈ Word.operators.takeWhile (· != op),
        other.toList.isPrefixOf op.toList = false := by
    decide
  exact fun op hop => ⟨_, _, (hsplit op hop).1, (hsplit op hop).2⟩

/-- An operator is found in front of every text that makes no longer one of it. -/
theorem operator?_append
    {op : String} (hop : op ∈ Word.operators) {b : Text}
    (hb : ∀ d, b.head? = some d → d ∉ extensions op) :
    Word.operator? (op.toList ++ b) = some op := by
  obtain ⟨front, back, hsplit, hfront⟩ := operators_longest_first op hop
  unfold Word.operator?
  rw [List.find?_eq_some_iff_append]
  refine ⟨by simp [Text.startsWith], front, back, hsplit, ?_⟩
  intro other hother
  rw [Bool.not_eq_true', Bool.eq_false_iff]
  intro hstarts
  have hprefix : other.toList <+: op.toList ++ b := List.isPrefixOf_iff_prefix.mp hstarts
  -- Another operator at this place is longer, and goes on with the first character behind.
  rcases List.prefix_or_prefix_of_prefix hprefix (List.prefix_append op.toList b) with
    hshort | ⟨more, heq⟩
  · have := hfront other hother
    simp [List.isPrefixOf_iff_prefix.mpr hshort] at this
  · rw [← heq, List.prefix_append_right_inj] at hprefix
    cases more with
    | nil =>
        rw [List.append_nil] at heq
        have hself : other.toList <+: op.toList := heq ▸ List.prefix_refl op.toList
        have := hfront other hother
        simp [List.isPrefixOf_iff_prefix.mpr hself] at this
    | cons d ds =>
        obtain ⟨tail, rfl⟩ := hprefix
        refine hb d (by simp) (List.mem_filterMap.mpr ⟨other, ?_, ?_⟩)
        · rw [hsplit]
          exact List.mem_append_left _ hother
        · rw [← heq, if_pos (by simp), ← String.length_toList, List.drop_left, List.head?_cons]

/-- A character that neither names nor numbers hold. -/
def isQuiet (d : Char) : Bool :=
  !Word.isSymbolChar d && !Text.isAlphanumeric d && !Text.isDigit d

/-- A text that begins neither like a bracket nor like a name. -/
def looksLikeOperator : Text → Bool
  | [] => false
  | c :: cs =>
    !standsAlone c && (!Word.isWordChar c || c == '/') && cs.head?.all isQuiet

theorem operators_looksLikeOperator :
    ∀ op ∈ Word.operators, looksLikeOperator op.toList = true := by
  decide +kernel

theorem Stops.isQuiet
    {b : Text} (h : Stops b) {d : Char} (hd : b.head? = some d) :
    isQuiet d = true := by
  obtain ⟨halpha, hdigit, hsymbol, -, -⟩ := stopChars_class d (h d hd)
  simp [Lexeme.isQuiet, halpha, hdigit, hsymbol]

theorem begins_eq_false_of_isQuiet
    {c : Char} {t : Text} (hc : Word.isWordChar c = false ∨ c = '/')
    (ht : c = '/' ∨ c = '&' → ∀ d, t.head? = some d → isQuiet d = true) :
    Word.begins c t = false := by
  rw [Word.begins.eq_def]
  split
  next hslash =>
    cases t with
    | nil => rfl
    | cons d ds =>
        have hquiet := ht (.inl hslash) d rfl
        simp only [isQuiet, Word.isSymbolChar, Word.isNameChar, Bool.and_eq_true,
          Bool.not_eq_true', Bool.or_eq_false_iff, beq_eq_false_iff_ne] at hquiet
        simp [hquiet.1.2, hquiet.1.1.1.2]
  next hslash =>
    split
    next hand =>
      cases t with
      | nil => rfl
      | cons d ds =>
          have hquiet := ht (.inr hand) d rfl
          simp only [isQuiet, Bool.and_eq_true, Bool.not_eq_true'] at hquiet
          simp [hquiet.2]
    next => exact hc.resolve_right hslash

theorem fieldSymbolLength?_eq_none_of_isQuiet
    {t : Text} (ht : ∀ d, t.head? = some d → isQuiet d = true) :
    Word.fieldSymbolLength? t = none := by
  cases hlength : Word.fieldSymbolLength? t with
  | none => rfl
  | some n =>
      obtain ⟨name, more, rfl, hne, hall, -⟩ := Word.fieldSymbolLength?_eq_some_iff.mp hlength
      cases name with
      | nil => exact absurd rfl hne
      | cons d ds =>
          have hquiet := ht d rfl
          simp [isQuiet, hall d (by simp)] at hquiet

def operatorRole (op : String) : Role :=
  if Word.arrows.contains op then .arrow else .word

/-- An operator is read as such in front of every text that makes no longer one and no name of it. -/
theorem measurePlain_operator
    {op : String} {c : Char} {cs b : Text} (hop : op ∈ Word.operators)
    (htext : op.toList = c :: cs) (hb : ∀ d, b.head? = some d → d ∉ extensions op)
    (hquiet : cs = [] → c = '<' ∨ c = '/' ∨ c = '&' → ∀ d, b.head? = some d → isQuiet d = true) :
    measurePlain c (cs ++ b) = (operatorRole op, cs.length) := by
  have hfound := operator?_append hop hb
  have hlooks := operators_looksLikeOperator op hop
  have hlength : op.length - 1 = cs.length := by
    rw [← String.length_toList, htext]
    rfl
  rw [htext] at hfound hlooks
  simp only [looksLikeOperator, Bool.and_eq_true, Bool.not_eq_true', Bool.or_eq_true,
    beq_iff_eq] at hlooks
  obtain ⟨⟨halone, hc⟩, hcs⟩ := hlooks
  have ht : c = '<' ∨ c = '/' ∨ c = '&' → ∀ d, (cs ++ b).head? = some d → isQuiet d = true := by
    intro hor d hd
    cases cs with
    | nil => exact hquiet rfl hor d hd
    | cons e es =>
        rw [List.cons_append, List.head?_cons, Option.some.injEq] at hd
        simpa [hd] using hcs
  have hbegins := begins_eq_false_of_isQuiet hc fun hor => ht (.inr hor)
  rcases measurePlain_cases halone (cs ++ b) with
    ⟨hangle, n, hn, -⟩ | ⟨-, ⟨hyes, -⟩ | ⟨-, ⟨other, hother, heq⟩ | ⟨hnone, -⟩⟩⟩
  · simp [fieldSymbolLength?_eq_none_of_isQuiet (ht (.inl hangle))] at hn
  · simp [hbegins] at hyes
  · rw [← List.cons_append, hfound, Option.some.injEq] at hother
    rw [heq, ← hother, hlength, operatorRole]
  · rw [← List.cons_append, hfound] at hnone
    simp at hnone

/-- Which characters extend which operators. -/
theorem extensions_cases :
    ∀ op ∈ Word.operators, ∀ d ∈ extensions op,
      d = '=' ∧ op ∈ extendable ∨ op = "->" ∧ d = '*' ∨ op = "-" ∧ d = '>' ∨
        (Word.arrows.contains op = false ∧ op ≠ "+" ∧ op ≠ "-") ∧ d ∈ ['>', '*', '&'] := by
  intro op hop
  refine Text.forall_mem_of_all ?_
  revert op
  decide

theorem extendable_class :
    ∀ op ∈ extendable, op ++ "=" ∈ Word.operators ∧ extensions (op ++ "=") = [] ∧
      operatorRole (op ++ "=") = .word := by
  decide

/-- An operator is read as such in front of another text, except for what `Misread` says. -/
theorem measurePlain_operator_reread
    {op : String} {c : Char} {cs b : Text} (hop : op ∈ Word.operators)
    (htext : op.toList = c :: cs)
    (hstops : Word.arrows.contains op = false → op ≠ "+" → op ≠ "-" → Stops b)
    (hminus : op = "-" → b.head? ≠ some '>') :
    (¬(op ∈ extendable ∧ b.head? = some '=' ∨ op = "->" ∧ b.head? = some '*') →
        measurePlain c (cs ++ b) = (operatorRole op, cs.length)) ∧
      (op ∈ extendable ∧ b.head? = some '=' ∨ op = "->" ∧ b.head? = some '*' →
        ∃ role, measurePlain c (cs ++ b) = (role, cs.length + 1) ∧
          (role = .word ∨ role = .arrow)) := by
  constructor
  · intro hno
    rw [not_or] at hno
    have hsingle : ∀ op ∈ Word.operators, op.toList = ['<'] ∨ op.toList = ['/'] ∨
        op.toList = ['&'] → Word.arrows.contains op = false ∧ op ≠ "+" ∧ op ≠ "-" := by
      decide
    refine measurePlain_operator hop htext ?_ ?_
    · intro d hd hext
      rcases extensions_cases op hop d hext with
        ⟨rfl, hmem⟩ | ⟨rfl, rfl⟩ | ⟨rfl, rfl⟩ | ⟨⟨harrow, hplus, hhyphen⟩, hmem⟩
      · exact hno.1 ⟨hmem, hd⟩
      · exact hno.2 ⟨rfl, hd⟩
      · exact hminus rfl hd
      · obtain ⟨-, -, -, -, hother⟩ :=
          stopChars_class d (hstops harrow hplus hhyphen d hd)
        simp only [List.mem_cons, not_or, List.not_mem_nil, or_false] at hother hmem
        rcases hmem with rfl | rfl | rfl <;> simp at hother
    · intro hcs hor d hd
      obtain ⟨harrow, hplus, hhyphen⟩ := hsingle op hop (by
        rw [htext, hcs]
        simpa using hor)
      exact (hstops harrow hplus hhyphen).isQuiet hd
  · intro hyes
    have hlonger : ∀ longer d more, longer ∈ Word.operators → extensions longer = [] →
        longer.toList = c :: (cs ++ [d]) → b = d :: more →
        measurePlain c (cs ++ b) = (operatorRole longer, cs.length + 1) := by
      intro longer d more hmem hext hlonger hb
      have hread := @measurePlain_operator longer c (cs ++ [d]) more hmem hlonger
        (by simp [hext]) (by simp)
      rw [List.append_assoc, List.singleton_append, ← hb] at hread
      rw [hread]
      simp
    rcases hyes with ⟨hmem, hhead⟩ | ⟨rfl, hhead⟩
    · obtain ⟨more, rfl⟩ := List.head?_eq_some_iff.mp hhead
      obtain ⟨hlongerOp, hext, hrole⟩ := extendable_class op hmem
      refine ⟨.word, ?_, .inl rfl⟩
      rw [← hrole]
      refine hlonger _ '=' more hlongerOp hext ?_ rfl
      rw [String.toList_append, htext]
      rfl
    · obtain ⟨more, rfl⟩ := List.head?_eq_some_iff.mp hhead
      refine ⟨operatorRole "->*", ?_, .inr (by decide)⟩
      refine hlonger "->*" '*' more (by decide) (by decide) ?_ rfl
      rw [← List.cons_append, ← htext]
      decide

/-! ## All units that are no literal, comment or pragma -/

/-- The kinds of such units, by their texts. -/
theorem text_of_measurePlain
    {c : Char} {cs rest : Text} {role : Role}
    (h : measurePlain c (cs ++ rest) = (role, cs.length)) :
    standsAlone c = true ∧ cs = [] ∨ Word.isName (c :: cs) = true ∨
      (∃ op ∈ Word.operators, op.toList = c :: cs ∧ role = operatorRole op) ∨
      cs = [] ∧ role = .word ∧ standsAlone c = false ∧ Word.begins c rest = false ∧
        Word.operator? (c :: rest) = none := by
  cases halone : standsAlone c with
  | true =>
      rw [measurePlain_of_standsAlone halone] at h
      injection h with _ hlen
      exact .inl ⟨rfl, List.eq_nil_of_length_eq_zero hlen.symm⟩
  | false =>
      refine .inr ?_
      rcases measurePlain_cases halone (cs ++ rest) with
        ⟨rfl, n, hn, heq⟩ | ⟨-, ⟨hbegins, heq⟩ | ⟨hbegins, ⟨op, hop, heq⟩ | ⟨hop, heq⟩⟩⟩ <;>
        rw [h] at heq <;> injection heq with hrole hlen
      · obtain ⟨name, more, hsplit, hne, hall, hlength⟩ :=
          Word.fieldSymbolLength?_eq_some_iff.mp hn
        -- The closing angle bracket belongs to the unit.
        obtain ⟨inside, hinside⟩ : ∃ inside, cs = name ++ '>' :: inside := by
          have htake := congrArg (List.take cs.length) hsplit
          rw [List.take_left, hlen, hlength, Nat.add_assoc, List.take_length_add_append,
            Nat.add_comm 1, List.take_succ_cons] at htake
          exact ⟨_, htake⟩
        left
        rw [Word.isName, Bool.or_eq_true, Bool.and_eq_true]
        refine .inr ⟨rfl, ?_⟩
        rw [Word.fieldSymbolLength?_eq_some_iff.mpr ⟨name, inside, hinside, hne, hall, rfl⟩]
        rfl
      · cases cs with
        | cons d ds =>
            left
            rw [Word.isName, Bool.or_eq_true]
            exact .inl (by simpa [Word.begins.eq_def] using hbegins)
        | nil =>
            by_cases hslash : c = '/'
            · exact .inr (.inl ⟨"/", by decide, by rw [hslash]; rfl, hrole⟩)
            by_cases hand : c = '&'
            · exact .inr (.inl ⟨"&", by decide, by rw [hand]; rfl, hrole⟩)
            left
            rw [Word.begins.eq_def, if_neg hslash, if_neg hand] at hbegins
            rw [Word.isName, Bool.or_eq_true, Word.begins.eq_def, if_neg hslash, if_neg hand]
            exact .inl hbegins
      · obtain ⟨hmem, behind, hsplit⟩ := Word.operator?_eq_some hop
        exact .inr (.inl ⟨op, hmem, Word.toList_of_measured hmem hsplit hlen, hrole⟩)
      · have hnil := List.eq_nil_of_length_eq_zero hlen
        subst hnil
        exact .inr (.inr ⟨rfl, hrole, rfl, hbegins, hop⟩)

/-- Whether a text touches its neighbours in print if it does in the source. -/
def isSticky (w : Text) : Bool :=
  Spacing.stickyTexts.contains (String.ofList w)

theorem isSticky_map
    {f : Char → Char} (hf : Text.IsCaseMap f) (w : Text) :
    isSticky (w.map f) = isSticky w := by
  have hclass : ∀ s ∈ Spacing.stickyTexts, ∀ d ∈ s.toList, d.isAlpha = false := by
    intro s hs
    refine Text.forall_mem_of_all ?_
    revert s
    decide
  have hiff : isSticky (w.map f) = true ↔ isSticky w = true := by
    simp only [isSticky, List.contains_iff_mem]
    constructor
    · intro hmem
      have hmap := (hf.map_eq_iff (hclass _ hmem) w).mp (by rw [String.toList_ofList])
      rw [hmap, String.ofList_toList]
      exact hmem
    · intro hmem
      have hmap := (hf.map_eq_iff (hclass _ hmem) w).mpr (by rw [String.toList_ofList])
      rw [hmap, String.ofList_toList]
      exact hmem
  exact Bool.eq_iff_iff.mpr hiff

theorem isSticky_of_isName
    {w : Text} (hname : Word.isName w = true) :
    isSticky w = false := by
  have hclass : ∀ s ∈ Spacing.stickyTexts, Word.isName s.toList = false := by decide
  cases hsticky : isSticky w with
  | false => rfl
  | true =>
      have := hclass _ (List.contains_iff_mem.mp hsticky)
      rw [String.toList_ofList, hname] at this
      simp at this

theorem not_misread_of_standsAlone
    {c : Char} (h : standsAlone c = true) (b : Text) :
    ¬Misread [c] b := by
  have hclass : ∀ op ∈ extendable, op.toList.head?.all fun d => !standsAlone d := by
    decide
  rintro (⟨hname, -⟩ | ⟨hmem, -⟩ | ⟨htext, -⟩)
  · rw [Word.isName, begins_eq_false c (mem_of_standsAlone h), Bool.false_or, Bool.and_eq_true,
      beq_iff_eq] at hname
    rw [hname.1] at h
    exact absurd h (by decide)
  · have := hclass _ hmem
    simp [h] at this
  · simp at htext

/-- Names are no operators. -/
theorem misread_name_iff
    {w : Text} (hname : Word.isName w = true) (b : Text) :
    Misread w b ↔
      2 ≤ w.length ∧ (w.getLast? = some '-' ∧ b ≠ [] ∨ w.getLast? = some '+') ∨ b = ['-'] := by
  have hclass : ∀ op ∈ extendable, Word.isName op.toList = false := by decide
  constructor
  · rintro (⟨-, h⟩ | ⟨hmem, -⟩ | ⟨rfl, -⟩)
    · exact h
    · have := hclass _ hmem
      rw [String.toList_ofList, hname] at this
      simp at this
    · exact absurd hname (by decide)
  · exact fun h => .inl ⟨hname, h⟩

theorem misread_operator_iff
    {op : String} (hop : op ∈ Word.operators) (b : Text) :
    Misread op.toList b ↔
      op ∈ extendable ∧ b.head? = some '=' ∨ op = "->" ∧ b.head? = some '*' := by
  have hclass : ∀ op ∈ Word.operators, Word.isName op.toList = false := by decide +kernel
  have harrow : op.toList = ['-', '>'] ↔ op = "->" := by
    constructor
    · intro h
      rw [← String.ofList_toList (s := op), h]
    · rintro rfl
      decide
  rw [Misread, hclass op hop, String.ofList_toList, harrow]
  simp

/-- A character that begins no operator is a unit of its own. -/
theorem measurePlain_other
    {c : Char} {rest : Text} (halone : standsAlone c = false)
    (hbegins : Word.begins c rest = false) (hop : Word.operator? (c :: rest) = none) (b : Text) :
    measurePlain c b = (.word, 0) ∧ ¬Misread [c] b := by
  have hfirst : ∀ op ∈ Word.operators, ∃ single ∈ Word.operators,
      single.toList = op.toList.take 1 := by
    decide
  have hnone : ∀ op ∈ Word.operators, op.toList.head? ≠ some c := by
    intro op hmem hhead
    obtain ⟨more, hmore⟩ := List.head?_eq_some_iff.mp hhead
    obtain ⟨single, hsingle, hsingleText⟩ := hfirst op hmem
    rw [hmore, List.take_succ_cons, List.take_zero] at hsingleText
    have := List.find?_eq_none.mp hop single hsingle
    simp [Text.startsWith, hsingleText] at this
  have hslash : c ≠ '/' := fun h => hnone "/" (by decide) (by rw [h]; decide)
  have hand : c ≠ '&' := fun h => hnone "&" (by decide) (by rw [h]; decide)
  have hangle : c ≠ '<' := fun h => hnone "<" (by decide) (by rw [h]; decide)
  have hword : Word.isWordChar c = false := by
    rwa [Word.begins.eq_def, if_neg hslash, if_neg hand] at hbegins
  have hno : ∀ t, Word.begins c t = false := by
    intro t
    rw [Word.begins.eq_def, if_neg hslash, if_neg hand, hword]
  constructor
  · rcases measurePlain_cases halone b with
      ⟨h, -⟩ | ⟨-, ⟨h, -⟩ | ⟨-, ⟨op, h, -⟩ | ⟨-, heq⟩⟩⟩
    · exact absurd h hangle
    · simp [hno] at h
    · obtain ⟨hmem, behind, hsplit⟩ := Word.operator?_eq_some h
      obtain ⟨d, ds, hds⟩ := List.exists_cons_of_ne_nil (Word.operators_ne_nil op hmem)
      rw [hds, List.cons_append] at hsplit
      exact absurd (by rw [hds, (List.cons.inj hsplit).1]; rfl) (hnone op hmem)
    · exact heq
  · have hsub : ∀ op ∈ extendable, op ∈ Word.operators := by decide
    rintro (⟨hname, -⟩ | ⟨hmem, -⟩ | ⟨htext, -⟩)
    · simp [Word.isName, hno, hangle] at hname
    · exact hnone _ (hsub _ hmem) (by simp)
    · simp at htext

/-- A unit is read as such in front of another text, except for what `Misread` says; and then it is
read with another length. -/
theorem measurePlain_reread
    {c : Char} {cs rest b : Text} {role : Role}
    (h : measurePlain c (cs ++ rest) = (role, cs.length))
    (hstops : role = .word → isSticky (c :: cs) = false → Stops b)
    (hb : Word.isName (c :: cs) = true → Word.length b = 0 ∨ b = ['-'])
    (hminus : c :: cs = ['-'] → b.head? ≠ some '>') :
    (¬Misread (c :: cs) b → measurePlain c (cs ++ b) = (role, cs.length)) ∧
      (Misread (c :: cs) b → ∃ other n, measurePlain c (cs ++ b) = (other, n) ∧
        n ≠ cs.length ∧ (other = .word ∨ other = .arrow)) := by
  rcases text_of_measurePlain h with
    ⟨halone, rfl⟩ | hname | ⟨op, hop, htext, hrole⟩ | ⟨rfl, hrole, halone, hbegins, hop⟩
  · have hnot := not_misread_of_standsAlone halone b
    refine ⟨fun _ => ?_, fun hmisread => absurd hmisread hnot⟩
    rw [measurePlain_of_standsAlone halone] at h ⊢
    exact h
  · have hsticky := isSticky_of_isName hname
    have hword : role = .word := (measurePlain_name hname h (b := []) (by simp [Stops]) (.inl rfl)).1
    obtain ⟨-, n, hread, hn⟩ := measurePlain_name hname h (hstops hword hsticky) (hb hname)
    rw [misread_name_iff hname]
    refine ⟨fun hno => ?_, fun hyes => ⟨.word, n, hread, fun heq => hn.mp heq hyes, .inl rfl⟩⟩
    rw [hread, hn.mpr hno, hword]
  · have hstop : Word.arrows.contains op = false → op ≠ "+" → op ≠ "-" → Stops b := by
      have hclass : ∀ op ∈ Word.operators, op ≠ "+" → op ≠ "-" →
          Spacing.stickyTexts.contains op = false := by
        decide
      intro harrow hplus hhyphen
      refine hstops (by rw [hrole, operatorRole, harrow]; rfl) ?_
      rw [← htext, isSticky, String.ofList_toList]
      exact hclass op hop hplus hhyphen
    have hminus' : op = "-" → b.head? ≠ some '>' := by
      rintro rfl
      exact hminus (by rw [← htext]; rfl)
    obtain ⟨hkept, hextended⟩ := measurePlain_operator_reread hop htext hstop hminus'
    rw [← htext, misread_operator_iff hop]
    refine ⟨fun hno => by rw [hkept hno, hrole], fun hyes => ?_⟩
    obtain ⟨other, hread, hother⟩ := hextended hyes
    exact ⟨other, _, hread, by omega, hother⟩
  · obtain ⟨hread, hnot⟩ := measurePlain_other halone hbegins hop b
    exact ⟨fun _ => by rw [List.nil_append, hread, hrole]; rfl, fun hyes => absurd hyes hnot⟩

end Lexeme
end AbapLayout
