import AbapLayout.Text.Basic

/-!
# Blank characters and trimming

White space in the wide sense: besides the blank and the tabulator it holds the line and page
separators, the information separators U+001C to U+001F and the spaces of other scripts.  The
zero-width space U+200B and the byte order mark U+FEFF are not blank.

Trimming removes blank characters from the ends of a text.  `trimRight` is written by recursion on
the text, and `trimRight_append_blank` and `eq_trimRight_append` say what it does: a blank end is
dropped, and nothing else is.
-/

namespace AbapLayout
namespace Text

def blankRanges : List (Nat × Nat) :=
  [(0x09, 0x0D), (0x1C, 0x20), (0x85, 0x85), (0xA0, 0xA0), (0x1680, 0x1680), (0x2000, 0x200A),
   (0x2028, 0x2029), (0x202F, 0x202F), (0x205F, 0x205F), (0x3000, 0x3000)]

def isBlank (c : Char) : Bool :=
  inRanges blankRanges c

def trimLeft (t : Text) : Text :=
  t.dropWhile isBlank

def trimRight : Text → Text
  | [] => []
  | c :: cs =>
    match trimRight cs with
    | [] => if isBlank c then [] else [c]
    | d :: ds => c :: d :: ds

def trim (t : Text) : Text :=
  trimRight (trimLeft t)

def isBlankText (t : Text) : Bool :=
  t.all isBlank

/-- A text of blank characters only is trimmed away. -/
theorem trimRight_eq_nil_iff (t : Text) :
    trimRight t = [] ↔ ∀ c ∈ t, isBlank c = true := by
  induction t with
  | nil => simp [trimRight]
  | cons c cs ih =>
    simp only [trimRight, List.forall_mem_cons, ← ih]
    cases h : trimRight cs with
    | nil => by_cases hc : isBlank c = true <;> simp [hc]
    | cons d ds => simp

/-- Blank characters at the end do not matter to `trimRight`. -/
theorem trimRight_append_blank (t s : Text) (hs : ∀ c ∈ s, isBlank c = true) :
    trimRight (t ++ s) = trimRight t := by
  induction t with
  | nil => simpa [trimRight] using (trimRight_eq_nil_iff s).2 hs
  | cons c cs ih => simp [trimRight, ih]

/-- A text is its trimmed form followed by blank characters. -/
theorem eq_trimRight_append (t : Text) :
    ∃ s, t = trimRight t ++ s ∧ ∀ c ∈ s, isBlank c = true := by
  induction t with
  | nil => exact ⟨[], by simp [trimRight]⟩
  | cons c cs ih =>
    obtain ⟨s, hs, hblank⟩ := ih
    cases h : trimRight cs with
    | nil =>
      have hcs : ∀ d ∈ cs, isBlank d = true := (trimRight_eq_nil_iff cs).1 h
      by_cases hc : isBlank c = true
      · exact ⟨c :: cs, by simp [trimRight, h, hc], by simpa [hc] using hcs⟩
      · exact ⟨cs, by simp [trimRight, h, hc], hcs⟩
    | cons d ds =>
      have htrim : trimRight (c :: cs) = c :: d :: ds := by simp [trimRight, h]
      rw [h] at hs
      exact ⟨s, by rw [htrim]; exact congrArg (c :: ·) hs, hblank⟩

end Text
end AbapLayout
