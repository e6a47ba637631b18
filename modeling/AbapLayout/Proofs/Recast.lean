import AbapLayout.Layout.Alignment
import AbapLayout.Proofs.Recasing
import AbapLayout.Proofs.TokenMaps

/-!
# Tokens in another case and in other columns

A `Recast` changes the case of letters in the texts of tokens and moves the tokens of a source line
to the right together.  It keeps all that the layout asks a token, or two tokens about each other:
their roles, the words they spell, their kinds and classes, the order in which they stand and the
blanks between them.
-/

namespace AbapLayout

/-! ## Columns -/

namespace Span

/-- A span in other columns: everything on a line moves to the right by the same number. -/
def moved (shift : Nat → Nat) (s : Span) : Span where
  startLine := s.startLine
  startColumn := s.startColumn + shift s.startLine
  endLine := s.endLine
  endColumn := s.endColumn + shift s.endLine

variable (shift : Nat → Nat) (a b : Span)

@[simp] theorem startLine_moved : (a.moved shift).startLine = a.startLine :=
  rfl

@[simp] theorem endLine_moved : (a.moved shift).endLine = a.endLine :=
  rfl

/-- What is compared on one line only may be known to agree there. -/
theorem sameLine_and
    {line line' : Nat} {p q : Bool} (h : line = line' → p = q) :
    (line == line' && p) = (line == line' && q) := by
  by_cases hline : line = line'
  · rw [h hline]
  · simp [beq_false_of_ne hline]

@[simp] theorem startsBefore_moved :
    (a.moved shift).startsBefore (b.moved shift) = a.startsBefore b :=
  congrArg (decide (a.startLine < b.startLine) || ·)
    (sameLine_and fun (hline : a.startLine = b.startLine) => by simp [moved, hline])

@[simp] theorem endsBefore_moved :
    (a.moved shift).endsBefore (b.moved shift) = a.endsBefore b :=
  congrArg (decide (a.endLine < b.endLine) || ·)
    (sameLine_and fun (hline : a.endLine = b.endLine) => by simp [moved, hline])

theorem union_moved : (a.moved shift).union (b.moved shift) = (a.union b).moved shift := by
  simp only [union, startsBefore_moved, endsBefore_moved]
  split <;> split <;> rfl

theorem cover_moved (spans : List Span) :
    cover (spans.map (moved shift)) = (cover spans).map (moved shift) := by
  cases spans with
  | nil => rfl
  | cons span rest =>
      have hfold : ∀ start : Span, (rest.map (moved shift)).foldl union (start.moved shift) =
          (rest.foldl union start).moved shift := by
        induction rest with
        | nil => exact fun _ => rfl
        | cons next rest ih =>
            intro start
            rw [List.map_cons, List.foldl_cons, List.foldl_cons, union_moved, ih]
      exact congrArg some (hfold span)

@[simp] theorem touches_moved : (a.moved shift).touches (b.moved shift) = a.touches b :=
  sameLine_and fun (hline : a.endLine = b.startLine) => by
    rw [Bool.eq_iff_iff]
    simp [moved, hline]

@[simp] theorem gap_moved : (a.moved shift).gap (b.moved shift) = a.gap b := by
  by_cases hline : a.endLine = b.startLine <;> simp [gap, moved, hline, Nat.add_sub_add_right]

/-- Spans that start at one place do so after they are moved, and no others do. -/
theorem sameStart_moved :
    ((a.moved shift).startLine == (b.moved shift).startLine &&
        (a.moved shift).startColumn == (b.moved shift).startColumn) =
      (a.startLine == b.startLine && a.startColumn == b.startColumn) :=
  sameLine_and fun (hline : a.startLine = b.startLine) => by
    rw [Bool.eq_iff_iff]
    simp [moved, hline]

end Span

/-! ## Letters -/

namespace Text

theorem upperChar_toLower (c : Char) : upperChar c.toLower = upperChar c := by
  by_cases hc : c.toNat < 128
  · exact forall_ascii (P := fun c => upperChar c.toLower = upperChar c) (by decide) c hc
  · rw [toLower_of_not_ascii (by omega)]

theorem upper_map_toLower (t : Text) : upper (t.map Char.toLower) = upper t := by
  induction t with
  | nil => rfl
  | cons c cs ih => rw [List.map_cons, upper_cons, upper_cons, upperChar_toLower, ih]

end Text

namespace TokenClass

variable {f : Char → Char}

open Text

theorem isDecimalDigit_map (hf : IsCaseMap f) (c : Char) :
    Text.isDecimalDigit (f c) = Text.isDecimalDigit c :=
  hf.class_eq (class_of_isAlpha (b := false) (by decide)) c

theorem dropLineFeed_map (hf : IsCaseMap f) (t : Text) :
    dropLineFeed (t.map f) = (dropLineFeed t).map f := by
  fun_induction dropLineFeed t with
  | case1 => rfl
  | case2 => rw [List.map_singleton, (hf.apply_eq_iff (by decide) _).mpr rfl]; rfl
  | case3 c hc =>
      have : f c ≠ '\n' := fun h => hc ((hf.apply_eq_iff (by decide) c).mp h)
      simp [dropLineFeed, this]
  | case4 c d cs ih => simpa [dropLineFeed] using ih

theorem dropSign_map (hf : IsCaseMap f) (t : Text) : dropSign (t.map f) = (dropSign t).map f := by
  cases t with
  | nil => rfl
  | cons c cs =>
      have hplus := hf.apply_eq_iff (d := '+') (by decide) c
      have hminus := hf.apply_eq_iff (d := '-') (by decide) c
      by_cases hc : c = '+'
      · rw [List.map_cons, hplus.mpr hc, hc]
        rfl
      by_cases hc' : c = '-'
      · rw [List.map_cons, hminus.mpr hc', hc']
        rfl
      have hfc : f c ≠ '+' := fun h => hc (hplus.mp h)
      have hfc' : f c ≠ '-' := fun h => hc' (hminus.mp h)
      simp [dropSign, hc, hc', hfc, hfc']

theorem isFraction_map (hf : IsCaseMap f) (t : Text) : isFraction (t.map f) = isFraction t := by
  cases t with
  | nil => rfl
  | cons c cs =>
      have hdot := hf.apply_eq_iff (d := '.') (by decide) c
      by_cases hc : c = '.'
      · rw [List.map_cons, hdot.mpr hc, hc]
        simp [isFraction, List.all_map, Function.comp_def, isDecimalDigit_map hf]
      · have hfc : f c ≠ '.' := fun h => hc (hdot.mp h)
        simp [isFraction, hc, hfc]

theorem isPlainNumber_map (hf : IsCaseMap f) (t : Text) :
    isPlainNumber (t.map f) = isPlainNumber t := by
  unfold isPlainNumber
  rw [Word.takeWhile_map_of_class (isDecimalDigit_map hf)]
  simp only [List.length_map, List.isEmpty_map, ← List.map_drop, isFraction_map hf]

theorem isQuotedNumber_map (hf : IsCaseMap f) (t : Text) :
    isQuotedNumber (t.map f) = isQuotedNumber t := by
  have hquote : ∀ c, f c = '\x27' ↔ c = '\x27' := hf.apply_eq_iff (by decide)
  cases t with
  | nil => rfl
  | cons c cs =>
      by_cases hc : c = '\x27'
      · have hinner := Word.takeWhile_map_of_class (f := f)
          (p := fun c => Text.isDecimalDigit c || c == '.')
          (fun c => by rw [isDecimalDigit_map hf, Word.beq_map hf (d := '.') (by decide)]) cs
        rw [List.map_cons, (hquote c).mpr hc, hc]
        simp only [isQuotedNumber, hinner, List.length_map, List.isEmpty_map, ← List.map_drop]
        cases cs.drop (cs.takeWhile fun c => Text.isDecimalDigit c || c == '.').length with
        | nil => rfl
        | cons d ds =>
            by_cases hd : d = '\x27'
            · rw [List.map_cons, (hquote d).mpr hd, hd]
              simp only [isFraction_map hf]
            · have hfd : f d ≠ '\x27' := fun h => hd ((hquote d).mp h)
              simp [hd, hfd]
      · have hfc : f c ≠ '\x27' := fun h => hc ((hquote c).mp h)
        simp [isQuotedNumber, hc, hfc]

theorem isNumeric_map (hf : IsCaseMap f) (t : Text) : isNumeric (t.map f) = isNumeric t := by
  unfold isNumeric
  simp only [dropLineFeed_map hf, dropSign_map hf, isPlainNumber_map hf, isQuotedNumber_map hf]

theorem lastIndex?_map {p : Char → Bool} (hp : ∀ c, p (f c) = p c) (t : Text) :
    lastIndex? p (t.map f) = lastIndex? p t := by
  induction t with
  | nil => rfl
  | cons c cs ih => simp only [List.map_cons, lastIndex?, ih, hp]

theorem alignIndex_map (hf : IsCaseMap f) (t : Text) : alignIndex (t.map f) = alignIndex t := by
  have hdot := Word.takeWhile_map_of_class (f := f) (p := fun c => c != '.')
    (fun c => by simp only [bne, Word.beq_map hf (d := '.') (by decide)]) t
  have hlast := lastIndex?_map (f := f) (p := fun c => !(c == '-' || c == '\x27'))
    (fun c => by
      rw [Word.beq_map hf (d := '-') (by decide), Word.beq_map hf (d := '\x27') (by decide)]) t
  unfold alignIndex
  simp only [hdot, hlast, List.length_map]

end TokenClass

/-! ## Tokens -/

/-- A map of tokens that changes nothing but the case of letters and the columns of lines.
Comments keep their text. -/
structure Recast where
  toFun : Token → Token
  /-- By how many columns a line moves to the right. -/
  shift : Nat → Nat
  role_eq : ∀ t, (toFun t).role = t.role
  letters_eq : ∀ t, (toFun t).text.map Char.toLower = t.text.map Char.toLower
  comment_eq : ∀ t, t.isComment = true → (toFun t).text = t.text
  span_eq : ∀ t, (toFun t).span = t.span.moved shift

instance : CoeFun Recast fun _ => Token → Token :=
  ⟨Recast.toFun⟩

namespace Recast

variable (φ : Recast) (t : Token)

open Text

@[simp] theorem role : (φ t).role = t.role :=
  φ.role_eq t

@[simp] theorem span : (φ t).span = t.span.moved φ.shift :=
  φ.span_eq t

@[simp] theorem isComment : (φ t).isComment = t.isComment := by
  simp [Token.isComment]

@[simp] theorem isPragma : (φ t).isPragma = t.isPragma := by
  simp [Token.isPragma]

/-- What does not depend on the case of letters is the same of both texts. -/
theorem text_congr
    {α : Type} {p : Text → α} (hp : ∀ s, p (s.map Char.toLower) = p s) :
    p (φ t).text = p t.text := by
  rw [← hp, φ.letters_eq, hp]

@[simp] theorem length_text : (φ t).text.length = t.text.length :=
  φ.text_congr t (p := List.length) fun _ => List.length_map _

theorem isCaseMap_toLower : IsCaseMap Char.toLower :=
  .inr (.inr rfl)

/-- A text without letters is the text of a token before and after. -/
theorem text_eq_iff {s : Text} (hs : s.all (fun d => !d.isAlpha) = true) :
    (φ t).text = s ↔ t.text = s :=
  iff_of_eq (φ.text_congr t (p := (· = s)) fun u =>
    propext (isCaseMap_toLower.map_eq_iff (by simpa using hs) u))

@[simp] theorem upper : (φ t).upper = t.upper :=
  φ.text_congr t upper_map_toLower

theorem keepsWords : Token.KeepsWords φ :=
  ⟨φ.role, φ.upper, fun t _ => φ.text_eq_iff t⟩

theorem isOneOf (texts : List String) (h : Token.KeepsWords.letterless texts = true) :
    (φ t).isOneOf texts = t.isOneOf texts :=
  φ.keepsWords.isOneOf t texts h

@[simp] theorem isTerminator : (φ t).isTerminator = t.isTerminator := by
  rw [Token.isTerminator, φ.role, φ.isOneOf t _ (by decide), Token.isTerminator]

@[simp] theorem isPeriod : (φ t).isPeriod = t.isPeriod := by
  rw [Bool.eq_iff_iff, Token.isPeriod, Token.isPeriod]
  simp [φ.text_eq_iff t (s := ['.']) (by decide)]

@[simp] theorem isClosingBracket : (φ t).isClosingBracket = t.isClosingBracket := by
  rw [Token.isClosingBracket, φ.role, φ.isOneOf t _ (by decide), Token.isClosingBracket]

theorem head?_comment (c : Char) :
    (t.isComment && (φ t).text.head? == some c) = (t.isComment && t.text.head? == some c) := by
  cases h : t.isComment with
  | false => rfl
  | true => rw [φ.comment_eq t h]

@[simp] theorem isSignComment : (φ t).isSignComment = t.isSignComment := by
  rw [Token.isSignComment, φ.isComment, φ.head?_comment, Token.isSignComment]

@[simp] theorem isStarComment : (φ t).isStarComment = t.isStarComment := by
  rw [Token.isStarComment, φ.isComment, φ.head?_comment, Token.isStarComment]

/-! ## Keywords and classes -/

@[simp] theorem spells (words : List String) :
    Keyword.spells (φ t) words = Keyword.spells t words := by
  simp [Keyword.spells]

theorem beginsLikeName : Keyword.beginsLikeName (φ t).text = Keyword.beginsLikeName t.text := by
  refine φ.text_congr t (p := Keyword.beginsLikeName) fun s => ?_
  cases s with
  | nil => rfl
  | cons c cs =>
      have hsigns := isCaseMap_toLower.class_eq (p := fun c => "_<@/%$".toList.contains c)
        (class_of_isAlpha (b := false) (by decide)) c
      simp only [List.map_cons, Keyword.beginsLikeName, Word.isAlphanumeric_map isCaseMap_toLower,
        hsigns]

theorem isOperand : Keyword.isOperand (φ t) = Keyword.isOperand t := by
  simp only [Keyword.isOperand, role, spells, φ.isOneOf t [")", "]"] (by decide),
    beginsLikeName]

/-- A word is a keyword behind two tokens before and after. -/
theorem isKeyword (previous before : Option Token) :
    Keyword.isKeyword (φ t) (previous.map φ) (before.map φ) =
      Keyword.isKeyword t previous before := by
  cases previous with
  | none => simp [Keyword.isKeyword]
  | some p =>
      cases before <;>
        simp [Keyword.isKeyword, Keyword.declaresInline, isOperand,
          φ.isOneOf p ["(", "["] (by decide)]

@[simp] theorem isNumeric : TokenClass.isNumeric (φ t).text = TokenClass.isNumeric t.text :=
  φ.text_congr t (TokenClass.isNumeric_map isCaseMap_toLower)

@[simp] theorem alignIndex : TokenClass.alignIndex (φ t).text = TokenClass.alignIndex t.text :=
  φ.text_congr t (TokenClass.alignIndex_map isCaseMap_toLower)

@[simp] theorem tokenClass : TokenClass.ofToken (φ t) = TokenClass.ofToken t := by
  simp only [TokenClass.ofToken, role, φ.text_eq_iff t (s := [',']) (by decide),
    φ.isOneOf t TokenClass.assignments (by decide),
    φ.isOneOf t TokenClass.comparisons (by decide), isNumeric]

@[simp] theorem isBridge : Alignment.isBridge (φ t) = Alignment.isBridge t := by
  simp [Alignment.isBridge]

/-! ## Blanks between tokens -/

theorem minimum (o : Options) (previous : Option Token) :
    Spacing.minimum o (φ t) (previous.map φ) = Spacing.minimum o t previous := by
  cases previous with
  | none => rfl
  | some p =>
      simp only [Option.map_some, Spacing.minimum, role, span, Span.touches_moved,
        φ.isOneOf t Spacing.stickyTexts (by decide),
        φ.isOneOf p Spacing.stickyTexts (by decide)]

/-- The blanks between two tokens do not change. -/
theorem spacing (o : Options) (wanted : Option Nat) (previous : Option Token) :
    Spacing.printed o wanted (φ t) (previous.map φ) = Spacing.printed o wanted t previous := by
  simp only [Spacing.printed, minimum]
  cases previous <;> simp

end Recast
end AbapLayout
