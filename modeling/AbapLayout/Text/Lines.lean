import AbapLayout.Text.Blank

/-!
# Lines

Three ways to see a text as lines.

* `unifyBreaks` turns every carriage return, alone or before a line feed, into one line feed.
* `lines` cuts at line feeds and `unlines` joins again; every text has at least one line.
* `displayLines` cuts where a display would start a new line: at line feeds, carriage returns, page
  breaks and the separators of other scripts.  A break at the very end opens no further line.
-/

namespace AbapLayout
namespace Text

/-- Every carriage return, together with a line feed after it, becomes one line feed. -/
def unifyBreaks : Text → Text
  | [] => []
  | c :: cs =>
    if c = '\r' then
      match cs with
      | '\n' :: rest => '\n' :: unifyBreaks rest
      | rest => '\n' :: unifyBreaks rest
    else c :: unifyBreaks cs

/-- Puts a character in front of the first of some lines. -/
def consToFirst (c : Char) : List Text → List Text
  | [] => [[c]]
  | line :: rest => (c :: line) :: rest

/-- The lines of a text, cut at line feeds. -/
def lines : Text → List Text
  | [] => [[]]
  | c :: cs => if c = '\n' then [] :: lines cs else consToFirst c (lines cs)

def unlines (ls : List Text) : Text :=
  join ['\n'] ls

/-- A document of some lines: each ends in a line feed, and no lines give the empty text. -/
def document (ls : List Text) : Text :=
  if ls.isEmpty then [] else unlines ls ++ ['\n']

/-- Whether a display starts a new line after this character. -/
def endsDisplayLine (c : Char) : Bool :=
  inRanges [(0x0A, 0x0D), (0x1C, 0x1E), (0x85, 0x85), (0x2028, 0x2029)] c

/-- The lines of a text as a display shows them. -/
def displayLines : Text → List Text
  | [] => []
  | c :: cs =>
    if c = '\r' then
      match cs with
      | '\n' :: rest => [] :: displayLines rest
      | rest => [] :: displayLines rest
    else if endsDisplayLine c then [] :: displayLines cs
    else consToFirst c (displayLines cs)

/-- The lines of a list up to the last one that is not empty. -/
def dropEmptyEnd : List Text → List Text
  | [] => []
  | line :: rest =>
    match dropEmptyEnd rest with
    | [] => if line.isEmpty then [] else [line]
    | next :: more => line :: next :: more

/-- A text without trailing blanks on its lines and without blank lines at its end. -/
def trimLines (t : Text) : Text :=
  document (dropEmptyEnd ((lines (unifyBreaks t)).map trimRight))

/-- Every text has a line. -/
theorem lines_ne_nil (t : Text) : lines t ≠ [] := by
  cases t with
  | nil => simp [lines]
  | cons c cs =>
    simp only [lines]
    split
    · simp
    · cases lines cs <;> simp [consToFirst]

/-- Cutting a text into lines and joining them gives the text back. -/
theorem unlines_lines (t : Text) : unlines (lines t) = t := by
  induction t with
  | nil => rfl
  | cons c cs ih =>
    have hne := lines_ne_nil cs
    cases hl : lines cs with
    | nil => exact absurd hl hne
    | cons l ls =>
      rw [hl] at ih
      by_cases hc : c = '\n'
      · subst hc
        simp only [lines, hl, if_pos, unlines, join] at ih ⊢
        simp [List.intercalate_cons_cons, ih]
      · cases ls <;>
          simp_all [lines, unlines, join, consToFirst, List.intercalate_cons_cons,
            List.intercalate_singleton]

/-- No line holds a line feed. -/
theorem not_mem_of_mem_lines (t l : Text) (h : l ∈ lines t) : '\n' ∉ l := by
  induction t generalizing l with
  | nil =>
    simp [lines] at h
    simp [h]
  | cons c cs ih =>
    by_cases hc : c = '\n'
    · simp only [lines, hc, if_pos, List.mem_cons] at h
      rcases h with rfl | h
      · simp
      · exact ih l h
    · simp only [lines, hc, if_false] at h
      cases hl : lines cs with
      | nil => exact absurd hl (lines_ne_nil cs)
      | cons first rest =>
        rw [hl] at h ih
        simp only [consToFirst, List.mem_cons] at h
        rcases h with rfl | h
        · have := ih first (by simp)
          simp [this, Ne.symm hc]
        · exact ih l (by simp [h])

end Text
end AbapLayout
