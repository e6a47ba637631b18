import AbapLayout.Text.LetterCase.Table

/-!
# Capital and small letters

The full case mappings: a letter may become several (`ß` is written `SS` in capitals), and a capital
sigma at the end of a word becomes a final small sigma.  On ASCII letters both mappings are the
usual ones.
-/

namespace AbapLayout
namespace Text

/-- A code point moved by the first run of a table that covers it. -/
def moveByRuns (runs : List CaseRun) (c : Char) : Char :=
  match runs.find? (·.covers c.toNat) with
  | some run => Char.ofNat (c.toNat + run.shift).toNat
  | none => c

/-- A character by a table of expansions first and by runs otherwise. -/
def mapCase (expansions : List (Nat × List Nat)) (runs : List CaseRun) (c : Char) : Text :=
  match expansions.find? (·.1 == c.toNat) with
  | some entry => entry.2.map Char.ofNat
  | none => [moveByRuns runs c]

def upperChar (c : Char) : Text :=
  if c.toNat < 128 then [c.toUpper] else mapCase upperExpansions upperRuns c

/-- The small form of a character, whatever stands around it. -/
def lowerChar (c : Char) : Text :=
  if c.toNat < 128 then [c.toLower] else mapCase lowerExpansions lowerRuns c

def upper (t : Text) : Text :=
  t.flatMap upperChar

def isCased (c : Char) : Bool :=
  inRanges casedRanges c

/-- Whether a character is passed over when the case of a neighbour is sought. -/
def isCaseIgnorable (c : Char) : Bool :=
  inRanges caseIgnorableRanges c

/-- Whether a text begins with a letter that has case, ignorable characters passed over. -/
def beginsCased (t : Text) : Bool :=
  match t.dropWhile isCaseIgnorable with
  | [] => false
  | c :: _ => isCased c

/-- A text in small letters, where `afterCased` says whether the letter before it has case. -/
def lowerAfter (afterCased : Bool) : Text → Text
  | [] => []
  | c :: cs =>
    let small :=
      if c = 'Σ' then [if afterCased && !beginsCased cs then 'ς' else 'σ'] else lowerChar c
    small ++ lowerAfter (if isCaseIgnorable c then afterCased else isCased c) cs

def lower (t : Text) : Text :=
  lowerAfter false t

/-- Capital letters are set character by character. -/
@[simp] theorem upper_append (s t : Text) : upper (s ++ t) = upper s ++ upper t := by
  simp [upper]

end Text
end AbapLayout
