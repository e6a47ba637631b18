import AbapLayout.Text.Blank
import AbapLayout.Text.LetterCase

/-!
# What case mappings leave alone

Case mappings act on letters.  The ASCII characters that are no letters (the *signs*: digits,
brackets, punctuation, operators) are mapped to themselves and are the image of nothing else, so a
text in another case has the same signs in the same places.  A blank character is the image of
nothing else either, so a text in another case has no new blanks.
-/

namespace AbapLayout
namespace Text

def isLetterCode (n : Nat) : Bool :=
  (65 ≤ n && n ≤ 90) || (97 ≤ n && n ≤ 122)

/-- Whether a character is an ASCII character and no letter. -/
def isSign (c : Char) : Bool :=
  c.toNat < 128 && !isLetterCode c.toNat

/-- Whether a character is a sign or blank. -/
def isCaseless (c : Char) : Bool :=
  isSign c || isBlank c

/-! ## The tables -/

/-- Whether a code point is a character and neither a sign nor blank. -/
def isLetterlike (n : Nat) : Bool :=
  (isLetterCode n || (128 ≤ n && n < 0xD800) || (0xE000 ≤ n && n < 0x110000)) &&
    blankRanges.all fun range => n < range.1 || range.2 < n

/-- Whether a run moves its code points to characters that are neither signs nor blank. -/
def CaseRun.movesToLetters (run : CaseRun) : Bool :=
  let low := run.first + run.shift
  let high := run.last + run.shift
  ((65 ≤ low && high ≤ 90) || (97 ≤ low && high ≤ 122) || (128 ≤ low && high < 0xD800) ||
      (0xE000 ≤ low && high < 0x110000)) &&
    blankRanges.all fun range => high < range.1 || range.2 < low

theorem toNat_ofNat_of_isLetterlike
    {n : Nat} (h : isLetterlike n = true) :
    (Char.ofNat n).toNat = n := by
  have hvalid : n.isValidChar := by
    simp only [isLetterlike, isLetterCode, Bool.or_eq_true, Bool.and_eq_true,
      decide_eq_true_eq] at h
    simp only [Nat.isValidChar]
    omega
  rw [Char.ofNat, dif_pos hvalid]
  rfl

theorem isCaseless_ofNat_of_isLetterlike
    {n : Nat} (h : isLetterlike n = true) :
    isCaseless (Char.ofNat n) = false := by
  have hn := toNat_ofNat_of_isLetterlike h
  simp only [isLetterlike, Bool.and_eq_true, List.all_eq_true, Bool.or_eq_true,
    decide_eq_true_eq] at h
  obtain ⟨hcode, hblank⟩ := h
  have hnotBlank : isBlank (Char.ofNat n) = false := by
    rw [isBlank, inRanges, List.any_eq_false]
    intro range hrange
    have := hblank range hrange
    simp only [hn, Bool.and_eq_true, decide_eq_true_eq]
    omega
  have hnotSign : isSign (Char.ofNat n) = false := by
    simp only [isSign, hn]
    cases hl : isLetterCode n with
    | true => simp
    | false =>
        simp only [hl, Bool.false_eq_true, false_or] at hcode
        simp
        omega
  simp [isCaseless, hnotBlank, hnotSign]

theorem isLetterlike_of_movesToLetters
    {run : CaseRun} {n : Nat}
    (hrun : run.movesToLetters = true) (hcover : run.covers n = true) :
    isLetterlike (n + run.shift).toNat = true := by
  simp only [CaseRun.covers, Bool.and_eq_true, decide_eq_true_eq] at hcover
  obtain ⟨⟨hlow, hhigh⟩, -⟩ := hcover
  simp only [CaseRun.movesToLetters, Bool.and_eq_true, List.all_eq_true, Bool.or_eq_true,
    decide_eq_true_eq] at hrun
  obtain ⟨hcode, hblank⟩ := hrun
  simp only [isLetterlike, isLetterCode, Bool.or_eq_true, Bool.and_eq_true, List.all_eq_true,
    decide_eq_true_eq]
  refine ⟨by omega, ?_⟩
  intro range hrange
  have := hblank range hrange
  omega

theorem upperRuns_movesToLetters : ∀ run ∈ upperRuns, run.movesToLetters = true := by
  decide +kernel

theorem lowerRuns_movesToLetters : ∀ run ∈ lowerRuns, run.movesToLetters = true := by
  decide +kernel

theorem upperExpansions_isLetterlike :
    ∀ entry ∈ upperExpansions, entry.2 ≠ [] ∧ ∀ n ∈ entry.2, isLetterlike n = true := by
  decide

theorem lowerExpansions_isLetterlike :
    ∀ entry ∈ lowerExpansions, entry.2 ≠ [] ∧ ∀ n ∈ entry.2, isLetterlike n = true := by
  decide

/-- What holds of the first 128 characters holds of every ASCII character. -/
theorem forall_ascii
    {P : Char → Prop} (h : ∀ n < 128, P (Char.ofNat n)) (c : Char) (hc : c.toNat < 128) :
    P c := by
  have := h c.toNat hc
  rwa [Char.ofNat_toNat] at this

/-- What a run through the characters of a text confirms holds of all of them. -/
theorem forall_mem_of_all
    {P : Char → Prop} [DecidablePred P] {t : Text} (h : t.all (fun c => decide (P c)) = true) :
    ∀ c ∈ t, P c :=
  fun c hc => of_decide_eq_true (List.all_eq_true.mp h c hc)

/-! ## One character -/

theorem eq_of_mem_mapCase
    {expansions : List (Nat × List Nat)} {runs : List CaseRun}
    (hexpansions : ∀ entry ∈ expansions,
      entry.2 ≠ [] ∧ ∀ n ∈ entry.2, isLetterlike n = true)
    (hruns : ∀ run ∈ runs, run.movesToLetters = true)
    {c d : Char} (hd : d ∈ mapCase expansions runs c) (hcaseless : isCaseless d = true) :
    c = d := by
  unfold mapCase at hd
  split at hd
  next entry hfind =>
    obtain ⟨n, hn, rfl⟩ := List.mem_map.mp hd
    have := isCaseless_ofNat_of_isLetterlike
      ((hexpansions entry (List.mem_of_find?_eq_some hfind)).2 n hn)
    simp [this] at hcaseless
  next =>
    rw [List.mem_singleton] at hd
    subst hd
    unfold moveByRuns at hcaseless ⊢
    split at hcaseless
    next run hfind =>
      have hcover := List.find?_some hfind
      have := isCaseless_ofNat_of_isLetterlike
        (isLetterlike_of_movesToLetters (hruns run (List.mem_of_find?_eq_some hfind)) hcover)
      simp [this] at hcaseless
    next => rfl

theorem mapCase_ne_nil
    {expansions : List (Nat × List Nat)} {runs : List CaseRun}
    (hexpansions : ∀ entry ∈ expansions,
      entry.2 ≠ [] ∧ ∀ n ∈ entry.2, isLetterlike n = true)
    (c : Char) :
    mapCase expansions runs c ≠ [] := by
  unfold mapCase
  split
  next entry hfind =>
    have := (hexpansions entry (List.mem_of_find?_eq_some hfind)).1
    simpa using this
  next => simp

theorem upperChar_ne_nil (c : Char) : upperChar c ≠ [] := by
  unfold upperChar
  split
  · simp
  · exact mapCase_ne_nil upperExpansions_isLetterlike c

theorem lowerChar_ne_nil (c : Char) : lowerChar c ≠ [] := by
  unfold lowerChar
  split
  · simp
  · exact mapCase_ne_nil lowerExpansions_isLetterlike c

theorem toUpper_eq_of_isCaseless
    {c : Char} (hc : c.toNat < 128) (h : isCaseless c.toUpper = true) :
    c.toUpper = c := by
  revert h
  exact forall_ascii (P := fun c => isCaseless c.toUpper = true → c.toUpper = c)
    (by decide) c hc

theorem toLower_eq_of_isCaseless
    {c : Char} (hc : c.toNat < 128) (h : isCaseless c.toLower = true) :
    c.toLower = c := by
  revert h
  exact forall_ascii (P := fun c => isCaseless c.toLower = true → c.toLower = c)
    (by decide) c hc

/-- A sign or blank in the capital form of a character is that character. -/
theorem eq_of_mem_upperChar
    {c d : Char} (hd : d ∈ upperChar c) (hcaseless : isCaseless d = true) :
    c = d := by
  unfold upperChar at hd
  split at hd
  next hc =>
    rw [List.mem_singleton] at hd
    subst hd
    exact (toUpper_eq_of_isCaseless hc hcaseless).symm
  next => exact eq_of_mem_mapCase upperExpansions_isLetterlike upperRuns_movesToLetters hd hcaseless

/-- A sign or blank in the small form of a character is that character. -/
theorem eq_of_mem_lowerChar
    {c d : Char} (hd : d ∈ lowerChar c) (hcaseless : isCaseless d = true) :
    c = d := by
  unfold lowerChar at hd
  split at hd
  next hc =>
    rw [List.mem_singleton] at hd
    subst hd
    exact (toLower_eq_of_isCaseless hc hcaseless).symm
  next => exact eq_of_mem_mapCase lowerExpansions_isLetterlike lowerRuns_movesToLetters hd hcaseless

theorem upperChar_of_isSign
    {c : Char} (h : isSign c = true) :
    upperChar c = [c] := by
  have hc : c.toNat < 128 := by
    simp only [isSign, Bool.and_eq_true, decide_eq_true_eq] at h
    exact h.1
  have hupper : c.toUpper = c := by
    revert h
    exact forall_ascii (P := fun c => isSign c = true → c.toUpper = c)
      (by decide) c hc
  simp [upperChar, hc, hupper]

/-! ## Texts -/

theorem upper_cons (c : Char) (cs : Text) : upper (c :: cs) = upperChar c ++ upper cs := by
  simp [upper]

@[simp] theorem upper_eq_nil_iff (t : Text) : upper t = [] ↔ t = [] := by
  cases t with
  | nil => simp [upper]
  | cons c cs => simp [upper_cons, upperChar_ne_nil]

/-- A text whose capital form is a single sign is that sign. -/
theorem upper_eq_singleton_iff
    {c : Char} (h : isSign c = true) (t : Text) :
    upper t = [c] ↔ t = [c] := by
  constructor
  · intro ht
    cases t with
    | nil => simp [upper] at ht
    | cons d ds =>
        rw [upper_cons, List.append_eq_singleton_iff] at ht
        rcases ht with ⟨hnil, -⟩ | ⟨hd, hds⟩
        · exact absurd hnil (upperChar_ne_nil d)
        · have hdc : d = c := eq_of_mem_upperChar (by simp [hd]) (by simp [isCaseless, h])
          rw [upper_eq_nil_iff] at hds
          rw [hdc, hds]
  · rintro rfl
    simp [upper, upperChar_of_isSign h]

end Text
end AbapLayout
