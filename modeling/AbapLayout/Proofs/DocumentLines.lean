import AbapLayout.Statement.Splitting

/-!
# The lines of a document

A text without line feeds and carriage returns stands on one line.  The lines of a source do, and a
document made of such texts is cut into the same lines again, with an empty one behind the last line
feed (`Source.lines_document`).
-/

namespace AbapLayout
namespace Text

/-- Whether a character ends a line of a source. -/
def isBreak (c : Char) : Bool :=
  c == '\n' || c == '\r'

def OneLine (t : Text) : Prop :=
  ∀ c ∈ t, isBreak c = false

theorem isBlank_of_isBreak
    {c : Char} (h : isBreak c = true) :
    isBlank c = true := by
  simp only [isBreak, Bool.or_eq_true, beq_iff_eq] at h
  rcases h with rfl | rfl
  · decide
  · decide

theorem OneLine.nil : OneLine [] := by
  simp [OneLine]

theorem oneLine_cons {c : Char} {cs : Text} :
    OneLine (c :: cs) ↔ isBreak c = false ∧ OneLine cs := by
  simp [OneLine]

@[simp] theorem oneLine_append {s t : Text} : OneLine (s ++ t) ↔ OneLine s ∧ OneLine t := by
  simp only [OneLine, List.mem_append]
  exact ⟨fun h => ⟨fun c hc => h c (.inl hc), fun c hc => h c (.inr hc)⟩,
    fun h c hc => hc.elim (h.1 c) (h.2 c)⟩

theorem OneLine.subset
    {s t : Text} (h : OneLine t) (hsub : ∀ c ∈ s, c ∈ t) :
    OneLine s :=
  fun c hc => h c (hsub c hc)

theorem oneLine_blanks (n : Nat) : OneLine (blanks n) := by
  intro c hc
  rw [blanks, List.mem_replicate] at hc
  rw [hc.2]
  decide

/-! ## Cutting and joining -/

theorem unifyBreaks_of_not_mem
    {t : Text} (h : '\r' ∉ t) :
    unifyBreaks t = t := by
  induction t with
  | nil => rfl
  | cons c cs ih =>
      rw [List.mem_cons, not_or] at h
      rw [unifyBreaks.eq_def]
      simp only [if_neg (Ne.symm h.1), ih h.2]

theorem not_mem_unifyBreaks (t : Text) : '\r' ∉ unifyBreaks t := by
  fun_induction unifyBreaks t with
  | case1 => simp
  | case2 rest ih => simpa using ih
  | case3 rest _ ih => simpa using ih
  | case4 c cs hc ih => simpa [Ne.symm hc] using ih

theorem unlines_cons_cons (l k : Text) (ls : List Text) :
    unlines (l :: k :: ls) = l ++ '\n' :: unlines (k :: ls) := by
  simp [unlines, join, List.intercalate_cons_cons]

/-- Joined lines hold their characters, and line feeds. -/
theorem mem_unlines
    {ls : List Text} {c : Char} (h : c ∈ unlines ls) :
    c = '\n' ∨ ∃ l ∈ ls, c ∈ l := by
  induction ls with
  | nil => simp [unlines, join] at h
  | cons l rest ih =>
      cases rest with
      | nil => exact .inr ⟨l, by simp, by simpa [unlines, join, List.intercalate_singleton] using h⟩
      | cons k more =>
          rw [unlines_cons_cons, List.mem_append, List.mem_cons] at h
          rcases h with h | h | h
          · exact .inr ⟨l, by simp, h⟩
          · exact .inl h
          · rcases ih h with hbreak | ⟨m, hm, hc⟩
            · exact .inl hbreak
            · exact .inr ⟨m, List.mem_cons_of_mem l hm, hc⟩

theorem mem_unlines_of_mem
    {ls : List Text} {l : Text} {c : Char} (h : l ∈ ls) (hc : c ∈ l) :
    c ∈ unlines ls := by
  induction ls with
  | nil => simp at h
  | cons first rest ih =>
      cases rest with
      | nil =>
          rw [List.mem_singleton] at h
          simpa [unlines, join, List.intercalate_singleton, ← h] using hc
      | cons k more =>
          rw [unlines_cons_cons, List.mem_append, List.mem_cons]
          rw [List.mem_cons] at h
          rcases h with rfl | h
          · exact .inl hc
          · exact .inr (.inr (ih h))

theorem mem_of_mem_lines
    {t l : Text} {c : Char} (h : l ∈ lines t) (hc : c ∈ l) :
    c ∈ t := by
  rw [← unlines_lines t]
  exact mem_unlines_of_mem h hc

/-- A text in front of a line feed is the first line. -/
theorem lines_append_break
    {l : Text} (h : OneLine l) (t : Text) :
    lines (l ++ '\n' :: t) = l :: lines t := by
  induction l with
  | nil => simp [lines]
  | cons c cs ih =>
      obtain ⟨hc, hcs⟩ := oneLine_cons.mp h
      have hne : c ≠ '\n' := by
        rintro rfl
        simp [isBreak] at hc
      rw [List.cons_append, lines, if_neg hne, ih hcs, consToFirst]

/-- The lines of a document are those it was made of, and an empty one behind the last break. -/
theorem lines_document
    {ls : List Text} (h : ∀ l ∈ ls, OneLine l) :
    lines (document ls) = ls ++ [[]] := by
  by_cases hne : ls = []
  · rw [hne]
    rfl
  have hdocument : document ls = unlines ls ++ ['\n'] := by simp [document, hne]
  rw [hdocument]
  clear hdocument
  induction ls with
  | nil => exact absurd rfl hne
  | cons l rest ih =>
      have hl := h l (by simp)
      cases rest with
      | nil =>
          rw [unlines, join, List.intercalate_singleton]
          exact lines_append_break hl []
      | cons k more =>
          rw [unlines_cons_cons, List.append_assoc, List.cons_append, lines_append_break hl,
            ih (fun m hm => h m (List.mem_cons_of_mem l hm)) (by simp)]
          rfl

theorem mem_document
    {ls : List Text} {c : Char} (h : c ∈ document ls) :
    c = '\n' ∨ ∃ l ∈ ls, c ∈ l := by
  unfold document at h
  split at h
  · simp at h
  · rw [List.mem_append, List.mem_singleton] at h
    rcases h with h | h
    · exact mem_unlines h
    · exact .inl h

theorem oneLine_of_mem_lines
    {t l : Text} (h : l ∈ lines (unifyBreaks t)) :
    OneLine l := by
  intro c hc
  have hfeed : c ≠ '\n' := fun heq => not_mem_of_mem_lines _ l h (heq ▸ hc)
  have hreturn : c ≠ '\r' := fun heq => not_mem_unifyBreaks _ (mem_of_mem_lines h (heq ▸ hc))
  simp [isBreak, hfeed, hreturn]

end Text

namespace Source

open Text

/-- A source with line feeds only that does not begin with a byte order mark is read as it is. -/
theorem clean_of_lineFeeds
    {source : Text} (hreturn : '\r' ∉ source) (hmark : source.head? ≠ some byteOrderMark) :
    clean source = source := by
  have hkept : source.dropWhile (· == byteOrderMark) = source := by
    cases source with
    | nil => rfl
    | cons c cs =>
        rw [List.dropWhile_cons_of_neg]
        simpa using hmark
  rw [clean, hkept, unifyBreaks_of_not_mem hreturn]

/-- A document of lines is read line by line, unless it begins with a byte order mark. -/
theorem lines_document
    {ls : List Text} (h : ∀ l ∈ ls, OneLine l)
    (hmark : (document ls).head? ≠ some byteOrderMark) :
    Text.lines (clean (document ls)) = ls ++ [[]] := by
  have hreturn : '\r' ∉ document ls := by
    intro hmem
    rcases mem_document hmem with hfeed | ⟨l, hl, hc⟩
    · exact absurd hfeed (by decide)
    · exact absurd (h l hl _ hc) (by decide)
  rw [clean_of_lineFeeds hreturn hmark, Text.lines_document h]

end Source
end AbapLayout
