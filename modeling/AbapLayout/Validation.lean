import AbapLayout.Layout.Document

/-!
# Checking a formatted text

Formatting may move white space, change the case of keywords and rearrange comments.  A formatted
text is accepted if it has the same code tokens in the same order, up to case, and the same pragmas
in any order.  A text that was passed through is accepted if its lines differ in trailing white
space and blank lines only.
-/

namespace AbapLayout

/-- What a comparison of a source with its formatted text finds. -/
inductive Verdict where
  | preserved
  | passedThrough
  | passThroughDiffers
  /-- The formatted text cannot be cut into statements any more. -/
  | unreadable (rejection : Rejection)
  | pragmasChanged
  /-- The first code token that differs, counted from zero, before and after. -/
  | tokenChanged (index : Nat) (expected found : Text)
deriving DecidableEq, Repr

namespace Verdict

def accepts : Verdict → Bool
  | .preserved | .passedThrough => true
  | _ => false

def message : Verdict → String
  | .preserved => "Code tokens and pragmas preserved."
  | .passedThrough => "Source passed through without layout."
  | .passThroughDiffers => "Validation Failed: pass-through output differs from its source."
  | .unreadable rejection =>
    "Validation Failed: formatted text no longer parses (" ++ rejection.message ++ ")."
  | .pragmasChanged => "Validation Failed: pragmas were lost or duplicated."
  | .tokenChanged index expected found =>
    "Validation Failed: code token " ++ toString (index + 1) ++ " changed from '" ++
      String.ofList expected ++ "' to '" ++ String.ofList found ++ "'."

end Verdict

namespace Validation

/-- The code tokens of raw statements in capital letters; the shared words of a chain count once for
every member. -/
def codeWords (raws : List RawStatement) : List Text :=
  raws.flatMap fun r => (r.tokens.filter fun t => !t.isComment).map Token.upper

/-- The pragmas of raw statements in capital letters. -/
def pragmaWords (raws : List RawStatement) : List Text :=
  raws.flatMap fun r => r.pragmas.map Token.upper

/-- The lines of a text that are not blank, without trailing white space. -/
def essentialLines (t : Text) : List Text :=
  ((Text.displayLines t).filter fun l => !Text.isBlankText l).map Text.trimRight

/-- What is shown in place of a token behind the last one. -/
def endMark : Text :=
  "<end>".toList

/-- The first place where two lists differ, counted from `index`. -/
def firstMismatch (index : Nat) : List Text → List Text → Option Verdict
  | [], [] => none
  | a :: _, [] => some (.tokenChanged index a endMark)
  | [], b :: _ => some (.tokenChanged index endMark b)
  | a :: as, b :: bs =>
    if a = b then firstMismatch (index + 1) as bs else some (.tokenChanged index a b)

/-- Compares the tokens of two texts that both can be cut into statements. -/
def compare (before after : List RawStatement) : Verdict :=
  if (pragmaWords before).isPerm (pragmaWords after) then
    (firstMismatch 0 (codeWords before) (codeWords after)).getD .preserved
  else .pragmasChanged

end Validation

/-- Compares a source with its formatted text. -/
def validate (source formatted : Text) : Verdict :=
  match Source.split source none with
  | .error _ =>
    if Validation.essentialLines source = Validation.essentialLines formatted then .passedThrough
    else .passThroughDiffers
  | .ok before =>
    match Source.split formatted none with
    | .error rejection => .unreadable rejection
    | .ok after => Validation.compare before after

/-- Whether formatting a text again leaves it as it is. -/
def isStable (o : Options) (formatted : Text) (filename : Option String) :
    Except AssemblyFault Bool :=
  (Layout.format o formatted filename).map fun again => again.text == formatted

/-- The wording for a text that formatting leaves as it is, or does not. -/
def stabilityNote (stable : Bool) : String :=
  if stable then "Output is stable." else "Stability Warning: a second pass changes the output."

end AbapLayout
