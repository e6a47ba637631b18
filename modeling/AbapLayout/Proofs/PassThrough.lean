import AbapLayout.Proofs.TrailingBlanks
import AbapLayout.Validation

/-!
# Sources that are passed through

A source that cannot be cut into statements only loses the blank characters at the ends of its lines
and the empty lines at its end.  The text that is left is refused for the same reason, has nothing
more to lose, and is accepted by the validation (`format_of_refused`).

The three steps see different lines.  Trimming cuts at line breaks and keeps byte order marks,
reading drops these marks first (`Source.lines_trimLines`), and the validation also cuts at
characters that trimming takes for blanks (`Validation.essentialLines_trimLines`).
-/

namespace AbapLayout
namespace Text

/-! ## Lines of a trimmed text -/

theorem eq_dropEmptyEnd_append (ls : List Text) :
    ∃ k, ls = dropEmptyEnd ls ++ List.replicate k [] := by
  induction ls with
  | nil => exact ⟨0, rfl⟩
  | cons l rest ih =>
      obtain ⟨k, hk⟩ := ih
      rw [dropEmptyEnd]
      cases hrest : dropEmptyEnd rest with
      | nil =>
          rw [hrest, List.nil_append] at hk
          dsimp only
          split
          next hl => exact ⟨k + 1, by rw [List.isEmpty_iff.mp hl, hk]; rfl⟩
          next => exact ⟨k, by rw [hk]; rfl⟩
      | cons next more => exact ⟨k, by rw [hk, hrest]; rfl⟩

theorem dropEmptyEnd_subset (ls : List Text) : dropEmptyEnd ls ⊆ ls := by
  obtain ⟨k, hk⟩ := eq_dropEmptyEnd_append ls
  conv_rhs => rw [hk]
  exact List.subset_append_left ..

theorem oneLine_of_mem_trimmed
    {t l : Text} (h : l ∈ dropEmptyEnd ((lines (unifyBreaks t)).map trimRight)) :
    OneLine l := by
  obtain ⟨line, hline, rfl⟩ := List.mem_map.mp (dropEmptyEnd_subset _ h)
  exact (oneLine_of_mem_lines hline).trimRight

theorem not_mem_trimLines (t : Text) : '\r' ∉ trimLines t := by
  intro h
  rcases mem_document h with hfeed | ⟨l, hl, hc⟩
  · exact absurd hfeed (by decide)
  · exact absurd (oneLine_of_mem_trimmed hl _ hc) (by decide)

theorem lines_trimLines (t : Text) :
    lines (trimLines t) = dropEmptyEnd ((lines (unifyBreaks t)).map trimRight) ++ [[]] := by
  rw [trimLines]
  exact lines_document fun l hl => oneLine_of_mem_trimmed hl

theorem dropEmptyEnd_append_empty (ls : List Text) :
    dropEmptyEnd (ls ++ [[]]) = dropEmptyEnd ls := by
  induction ls with
  | nil => rfl
  | cons l rest ih => rw [List.cons_append, dropEmptyEnd, dropEmptyEnd, ih]

theorem dropEmptyEnd_dropEmptyEnd (ls : List Text) :
    dropEmptyEnd (dropEmptyEnd ls) = dropEmptyEnd ls := by
  induction ls with
  | nil => rfl
  | cons l rest ih =>
      rw [dropEmptyEnd]
      cases hrest : dropEmptyEnd rest with
      | nil =>
          dsimp only
          split
          · rfl
          next hl => simp [dropEmptyEnd, hl]
      | cons next more =>
          rw [hrest] at ih
          dsimp only
          rw [dropEmptyEnd, ih]

/-- A trimmed text has nothing more to lose. -/
theorem trimLines_trimLines (t : Text) : trimLines (trimLines t) = trimLines t := by
  have htrimmed : ∀ l ∈ dropEmptyEnd ((lines (unifyBreaks t)).map trimRight), trimRight l = l := by
    intro l hl
    obtain ⟨k, hk⟩ := eq_dropEmptyEnd_append ((lines (unifyBreaks t)).map trimRight)
    have hmem : l ∈ (lines (unifyBreaks t)).map trimRight := by
      rw [hk]
      exact List.mem_append_left _ hl
    obtain ⟨line, -, rfl⟩ := List.mem_map.mp hmem
    exact trimRight_trimRight line
  have hagain : (dropEmptyEnd ((lines (unifyBreaks t)).map trimRight)).map trimRight =
      dropEmptyEnd ((lines (unifyBreaks t)).map trimRight) := by
    conv_rhs => rw [← List.map_id (dropEmptyEnd _)]
    exact List.map_congr_left htrimmed
  conv_lhs => rw [trimLines, unifyBreaks_of_not_mem (not_mem_trimLines t), lines_trimLines]
  rw [List.map_append, hagain, List.map_singleton, trimRight, dropEmptyEnd_append_empty,
    dropEmptyEnd_dropEmptyEnd, trimLines]

/-! ## Leading characters that are dropped -/

theorem dropWhile_unifyBreaks
    {p : Char → Bool} (hfeed : p '\n' = false) (hreturn : p '\r' = false) (t : Text) :
    unifyBreaks (t.dropWhile p) = (unifyBreaks t).dropWhile p := by
  fun_induction unifyBreaks t with
  | case1 => rfl
  | case2 rest ih => simp [unifyBreaks, hfeed, hreturn]
  | case3 rest hrest ih =>
      rw [List.dropWhile_cons_of_neg (by simp [hreturn]),
        List.dropWhile_cons_of_neg (by simp [hfeed]), unifyBreaks.eq_def]
      simp only [if_true]
  | case4 c cs hc ih =>
      rw [List.dropWhile_cons, List.dropWhile_cons]
      split
      · exact ih
      · rw [unifyBreaks.eq_def]
        simp only [hc, if_false]

theorem lines_dropWhile
    {p : Char → Bool} (hfeed : p '\n' = false) (t : Text) :
    lines (t.dropWhile p) = (lines t).modifyHead (List.dropWhile p) := by
  induction t with
  | nil => rfl
  | cons c cs ih =>
      have hne := lines_ne_nil cs
      cases hl : lines cs with
      | nil => exact absurd hl hne
      | cons l ls =>
          rw [hl] at ih
          by_cases hc : c = '\n'
          · subst hc
            rw [List.dropWhile_cons_of_neg (by simp [hfeed])]
            simp [lines]
          · rw [List.dropWhile_cons]
            split
            next hp => rw [ih, lines, if_neg hc, hl]; simp [consToFirst, hp]
            next hp => rw [lines, if_neg hc, hl]; simp [consToFirst, hp]

theorem trimRight_dropWhile
    {p : Char → Bool} (hp : ∀ c, p c = true → isBlank c = false) (t : Text) :
    trimRight (t.dropWhile p) = (trimRight t).dropWhile p := by
  induction t with
  | nil => rfl
  | cons c cs ih =>
      rw [List.dropWhile_cons]
      split
      next hc =>
        have hcons : trimRight (c :: cs) = c :: trimRight cs := by
          rw [trimRight]
          cases trimRight cs with
          | nil => simp [hp c hc]
          | cons d ds => rfl
        rw [ih, hcons, List.dropWhile_cons_of_pos hc]
      next hc =>
        cases htrimmed : trimRight (c :: cs) with
        | nil => rfl
        | cons d ds =>
            obtain ⟨s, hs, -⟩ := eq_trimRight_append (c :: cs)
            rw [htrimmed] at hs
            rw [← (List.cons.inj hs).1, List.dropWhile_cons_of_neg hc]

end Text

namespace Source

open Text

theorem lines_clean (t : Text) :
    Text.lines (clean t) =
      (Text.lines (unifyBreaks t)).modifyHead (List.dropWhile (· == byteOrderMark)) := by
  rw [clean, dropWhile_unifyBreaks (by decide) (by decide), lines_dropWhile (by decide)]

theorem modifyHead_append
    {α : Type} (f : α → α) {xs : List α} (hne : xs ≠ []) (ys : List α) :
    (xs ++ ys).modifyHead f = xs.modifyHead f ++ ys := by
  cases xs with
  | nil => exact absurd rfl hne
  | cons x xs => rfl

/-- A trimmed source is read in the trimmed lines of the source, but for empty lines at its end. -/
theorem lines_trimLines (source : Text) :
    ∃ k, Text.lines (clean (trimLines source)) ++ List.replicate k [] =
      (Text.lines (clean source)).map trimRight ++ [[]] := by
  obtain ⟨k, hk⟩ := eq_dropEmptyEnd_append ((Text.lines (unifyBreaks source)).map trimRight)
  have hmark : ∀ l : Text, trimRight (l.dropWhile (· == byteOrderMark)) =
      (trimRight l).dropWhile (· == byteOrderMark) :=
    trimRight_dropWhile fun c hc => by
      rw [beq_iff_eq.mp hc]
      decide
  have htrimmed : ((Text.lines (unifyBreaks source)).modifyHead
        (List.dropWhile (· == byteOrderMark))).map trimRight =
      ((Text.lines (unifyBreaks source)).map trimRight).modifyHead
        (List.dropWhile (· == byteOrderMark)) := by
    cases Text.lines (unifyBreaks source) with
    | nil => rfl
    | cons l ls => simp [hmark]
  have hne : (Text.lines (unifyBreaks source)).map trimRight ≠ [] := by
    simpa using lines_ne_nil _
  refine ⟨k, ?_⟩
  rw [lines_clean, unifyBreaks_of_not_mem (not_mem_trimLines source), Text.lines_trimLines,
    lines_clean, htrimmed, ← modifyHead_append _ (by simp), ← modifyHead_append _ hne]
  conv_rhs => rw [hk, List.append_assoc, ← List.replicate_succ']
  rw [List.append_assoc, List.singleton_append, ← List.replicate_succ]

/-! ## Refusal -/

theorem isBlankText_iff (t : Text) :
    isBlankText t = true ↔ ∀ l ∈ Text.lines t, trimRight l = [] := by
  simp only [isBlankText, List.all_eq_true, trimRight_eq_nil_iff]
  constructor
  · intro h l hl c hc
    exact h c (mem_of_mem_lines hl hc)
  · intro h c hc
    rw [← unlines_lines t] at hc
    rcases mem_unlines hc with rfl | ⟨l, hl, hc⟩
    · decide
    · exact h l hl c hc

theorem isBlankText_trimLines (source : Text) :
    isBlankText (clean (trimLines source)) = isBlankText (clean source) := by
  obtain ⟨k, hk⟩ := lines_trimLines source
  have hblank : ∀ ls : List Text, ∀ j, (∀ l ∈ ls ++ List.replicate j [], trimRight l = []) ↔
      ∀ l ∈ ls, trimRight l = [] := by
    intro ls j
    simp only [List.mem_append, List.mem_replicate]
    exact ⟨fun h l hl => h l (.inl hl), fun h l hl => hl.elim (h l) fun hl => by rw [hl.2]; rfl⟩
  rw [Bool.eq_iff_iff, isBlankText_iff, isBlankText_iff, ← hblank _ k, hk,
    ← List.replicate_one, hblank]
  simp [trimRight_trimRight]

/-- A trimmed source leaves the same outline as the source, or is refused for the same fault. -/
theorem tokens_trimLines (source : Text) :
    (tokens (trimLines source)).map Outline.after = (tokens source).map Outline.after := by
  obtain ⟨k, hk⟩ := lines_trimLines source
  calc
    (tokens (trimLines source)).map Outline.after =
        (tokenizeLines 1 ((Text.lines (clean source)).map trimRight ++
          List.replicate 1 [])).map Outline.after := by
      rw [tokens, ← tokenizeLines_append_empty 1 _ k, hk, List.replicate_one]
    _ = (tokens source).map Outline.after := by
      rw [tokenizeLines_append_empty, tokenizeLines_trimRight, tokens]

/-- A trimmed source is refused exactly if the source is, and for the same reason. -/
theorem splitText_trimLines_eq_error_iff
    {source : Text} {rejection : Rejection} :
    splitText (trimLines source) = .error rejection ↔ splitText source = .error rejection := by
  have htokens := tokens_trimLines source
  rw [splitText, splitText, isBlankText_trimLines]
  split
  · rfl
  · cases htrimmed : tokens (trimLines source) with
    | error e =>
        cases hwhole : tokens source with
        | error e' =>
            rw [htrimmed, hwhole] at htokens
            injection htokens with he
            rw [he]
        | ok ts => simp [htrimmed, hwhole, Except.map] at htokens
    | ok ts =>
        cases hwhole : tokens source with
        | error e' => simp [htrimmed, hwhole, Except.map] at htokens
        | ok us =>
            rw [htrimmed, hwhole] at htokens
            injection htokens with hafter
            dsimp only
            rw [Unfinished.statements_eq_error_iff, Unfinished.statements_eq_error_iff, hafter]

end Source

/-! ## Validation -/

namespace Validation

open Text

/-- A line as the validation sees it: without trailing blanks, and not at all if it is blank. -/
def essentialLine (l : Text) : List Text :=
  if isBlankText l then [] else [trimRight l]

/-- The essential lines of a text behind the beginning of its first line. -/
def essentialFrom (start : Text) : Text → List Text
  | [] => essentialLine start
  | c :: cs =>
    if endsDisplayLine c then essentialLine start ++ essentialFrom [] cs
    else essentialFrom (start ++ [c]) cs

@[simp] theorem essentialLine_nil : essentialLine [] = [] :=
  rfl

theorem essentialLine_append_blank
    {s : Text} (hs : ∀ c ∈ s, isBlank c = true) (l : Text) :
    essentialLine (l ++ s) = essentialLine l := by
  have hblank : isBlankText (l ++ s) = isBlankText l := by
    rw [isBlankText, List.all_append, List.all_eq_true.mpr hs, Bool.and_true, isBlankText]
  rw [essentialLine, hblank, trimRight_append_blank l s hs, essentialLine]

theorem essentialFrom_append_break
    {c : Char} (hc : endsDisplayLine c = true) (start s t : Text) :
    essentialFrom start (s ++ c :: t) = essentialFrom start s ++ essentialFrom [] t := by
  induction s generalizing start with
  | nil => simp [essentialFrom, hc]
  | cons d ds ih =>
      rw [List.cons_append, essentialFrom, essentialFrom]
      split
      · rw [ih, List.append_assoc]
      · exact ih (start ++ [d])

theorem essentialFrom_of_blank
    {s : Text} (hs : ∀ c ∈ s, isBlank c = true) (start : Text) :
    essentialFrom start s = essentialLine start := by
  induction s generalizing start with
  | nil => rfl
  | cons c cs ih =>
      have ih := ih fun d hd => hs d (by simp [hd])
      rw [essentialFrom]
      split
      · rw [ih, essentialLine_nil, List.append_nil]
      · rw [ih, essentialLine_append_blank (by simpa using hs c (by simp))]

theorem essentialFrom_append_blank
    {s : Text} (hs : ∀ c ∈ s, isBlank c = true) (start t : Text) :
    essentialFrom start (t ++ s) = essentialFrom start t := by
  induction t generalizing start with
  | nil => rw [List.nil_append, essentialFrom_of_blank hs, essentialFrom]
  | cons c cs ih =>
      rw [List.cons_append, essentialFrom, essentialFrom]
      split
      · rw [ih]
      · exact ih (start ++ [c])

/-- Lines with a beginning put in front of the first of them. -/
def prependToFirst (start : Text) : List Text → List Text
  | [] => [start]
  | l :: ls => (start ++ l) :: ls

theorem essentialFrom_eq
    {t : Text} (h : '\r' ∉ t) (start : Text) :
    essentialFrom start t = (prependToFirst start (displayLines t)).flatMap essentialLine := by
  induction t generalizing start with
  | nil => simp [essentialFrom, displayLines, prependToFirst]
  | cons c cs ih =>
      rw [List.mem_cons, not_or] at h
      rw [essentialFrom, displayLines.eq_def]
      simp only [if_neg (Ne.symm h.1)]
      split
      · rw [ih h.2]
        cases displayLines cs <;> simp [prependToFirst]
      · rw [ih h.2]
        cases displayLines cs <;> simp [prependToFirst, consToFirst]

theorem essentialLines_eq_flatMap (t : Text) :
    essentialLines t = (displayLines t).flatMap essentialLine := by
  rw [essentialLines]
  induction displayLines t with
  | nil => rfl
  | cons l ls ih =>
      rw [List.flatMap_cons, ← ih, essentialLine, List.filter_cons]
      cases isBlankText l <;> simp

theorem displayLines_feed (t : Text) : displayLines ('\n' :: t) = [] :: displayLines t := by
  rw [displayLines.eq_def]
  rfl

theorem displayLines_unifyBreaks (t : Text) : displayLines (unifyBreaks t) = displayLines t := by
  fun_induction unifyBreaks t with
  | case1 => rfl
  | case2 rest ih =>
      rw [displayLines_feed, ih, displayLines]
      rfl
  | case3 rest hrest ih =>
      rw [displayLines_feed, ih, displayLines.eq_def ('\r' :: rest)]
      dsimp only
      rw [if_pos rfl]
      split
      next rest => exact (hrest rest rfl).elim
      next => rfl
  | case4 c cs hc ih =>
      rw [displayLines.eq_def, displayLines.eq_def (c :: cs)]
      simp [hc, ih]

/-- Without carriage returns the essential lines are read from front to back. -/
theorem essentialLines_eq (t : Text) :
    essentialLines t = essentialFrom [] (unifyBreaks t) := by
  rw [essentialFrom_eq (not_mem_unifyBreaks t), displayLines_unifyBreaks, essentialLines_eq_flatMap]
  cases displayLines t <;> simp [prependToFirst]

theorem essentialFrom_unlines (ls : List Text) :
    essentialFrom [] (unlines ls) = ls.flatMap (essentialFrom []) := by
  induction ls with
  | nil => rfl
  | cons l rest ih =>
      cases rest with
      | nil => simp [unlines, join]
      | cons k more =>
          rw [unlines_cons_cons, essentialFrom_append_break (by decide), ih]
          rfl

theorem essentialFrom_document (ls : List Text) :
    essentialFrom [] (document ls) = ls.flatMap (essentialFrom []) := by
  rw [document]
  split
  next h => rw [List.isEmpty_iff.mp h]; rfl
  next =>
    rw [essentialFrom_append_blank (by simp; decide), essentialFrom_unlines]

theorem essentialFrom_trimRight (l : Text) :
    essentialFrom [] (trimRight l) = essentialFrom [] l := by
  obtain ⟨s, hs, hblank⟩ := eq_trimRight_append l
  conv_rhs => rw [hs, essentialFrom_append_blank hblank]

/-- Trimming loses nothing that the validation sees. -/
theorem essentialLines_trimLines (t : Text) : essentialLines (trimLines t) = essentialLines t := by
  obtain ⟨k, hk⟩ := eq_dropEmptyEnd_append ((lines (unifyBreaks t)).map trimRight)
  have hempty : (List.replicate k ([] : Text)).flatMap (essentialFrom []) = [] := by
    simp [essentialFrom]
  calc
    essentialLines (trimLines t) = essentialFrom [] (trimLines t) := by
      rw [essentialLines_eq, unifyBreaks_of_not_mem (not_mem_trimLines t)]
    _ = (dropEmptyEnd ((lines (unifyBreaks t)).map trimRight)).flatMap (essentialFrom []) := by
      rw [trimLines, essentialFrom_document]
    _ = ((lines (unifyBreaks t)).map trimRight).flatMap (essentialFrom []) := by
      conv_rhs => rw [hk, List.flatMap_append, hempty, List.append_nil]
    _ = (lines (unifyBreaks t)).flatMap (essentialFrom []) := by
      simp only [List.flatMap_map, essentialFrom_trimRight]
    _ = essentialLines t := by
      rw [essentialLines_eq, ← essentialFrom_unlines, unlines_lines]

end Validation

/-! ## Formatting -/

/-- A source that cannot be cut into statements keeps its layout but for trailing blanks, whatever
the name of its file.  The result is accepted by the validation, and formatting it again gives the
same text for the same reason. -/
theorem format_of_refused
    {source : Text} {rejection : Rejection} (h : Source.splitText source = .error rejection)
    (o : Options) (filename : Option String) :
    ∃ reason,
      ((∀ name ∈ filename, Source.holdsNoProgram name = false) → reason = rejection) ∧
      Layout.format o source filename = .ok ⟨Text.trimLines source, some reason⟩ ∧
      validate source (Text.trimLines source) = .passedThrough ∧
      Layout.format o (Text.trimLines source) filename =
        .ok ⟨Text.trimLines source, some reason⟩ := by
  have hagain := Source.splitText_trimLines_eq_error_iff.mpr h
  have hvalid : validate source (Text.trimLines source) = .passedThrough := by
    simp [validate, Source.split, h, Validation.essentialLines_trimLines]
  have hformat : ∀ reason, Source.split source filename = .error reason →
      Source.split (Text.trimLines source) filename = .error reason →
      Layout.format o source filename = .ok ⟨Text.trimLines source, some reason⟩ ∧
        validate source (Text.trimLines source) = .passedThrough ∧
        Layout.format o (Text.trimLines source) filename =
          .ok ⟨Text.trimLines source, some reason⟩ := by
    intro reason hsource htrimmed
    refine ⟨?_, hvalid, ?_⟩
    · rw [Layout.format, hsource]
    · rw [Layout.format, htrimmed, Text.trimLines_trimLines]
  cases filename with
  | none => exact ⟨rejection, fun _ => rfl, hformat rejection h hagain⟩
  | some name =>
      cases hname : Source.holdsNoProgram name with
      | true =>
          refine ⟨.noObject name, fun hnone => ?_, hformat _ ?_ ?_⟩
          · simp [hname] at hnone
          · simp [Source.split, hname]
          · simp [Source.split, hname]
      | false =>
          refine ⟨rejection, fun _ => rfl, hformat _ ?_ ?_⟩
          · simpa [Source.split, hname] using h
          · simpa [Source.split, hname] using hagain

/-- The case of a word that ends in a hyphen in front of a blank, behind a byte order mark.  Trimmed
it is one token instead of two. -/
theorem format_of_refused_hyphen :
    Source.splitText "\uFEFFls- \r\n\x0bb\x0c\r\n\r\n".toList = .error (.unterminated 1) ∧
      ∃ reason, reason = .unterminated 1 ∧
        Layout.format .default "\uFEFFls- \r\n\x0bb\x0c\r\n\r\n".toList none =
          .ok ⟨"\uFEFFls-\n\x0bb\n".toList, some reason⟩ ∧
        validate "\uFEFFls- \r\n\x0bb\x0c\r\n\r\n".toList "\uFEFFls-\n\x0bb\n".toList =
          .passedThrough ∧
        Layout.format .default "\uFEFFls-\n\x0bb\n".toList none =
          .ok ⟨"\uFEFFls-\n\x0bb\n".toList, some reason⟩ := by
  have hrefused : Source.splitText "\uFEFFls- \r\n\x0bb\x0c\r\n\r\n".toList =
      .error (.unterminated 1) := by
    decide +kernel
  have htrimmed : Text.trimLines "\uFEFFls- \r\n\x0bb\x0c\r\n\r\n".toList =
      "\uFEFFls-\n\x0bb\n".toList := by
    decide +kernel
  obtain ⟨reason, hreason, h⟩ := format_of_refused hrefused .default none
  rw [htrimmed] at h
  exact ⟨hrefused, reason, hreason (by simp), h⟩

end AbapLayout
