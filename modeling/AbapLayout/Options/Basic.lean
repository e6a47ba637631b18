/-!
# Formatter options

The switches of the layout rules, with the defaults that hold when nothing is set.
-/

namespace AbapLayout

/-- The case in which keywords and pragmas are printed. -/
inductive KeywordCase where
  | upper
  | lower
deriving DecidableEq, Repr

/-- What happens to chains.  Chains are preserved in either style. -/
inductive ChainStyle where
  | preserve
  | expand
deriving DecidableEq, Repr

/-- The switches of the layout rules. -/
structure Options where
  keywordCase : KeywordCase := .upper
  /-- A blank stands in front of a period or comma. -/
  spaceBeforePeriod : Bool := false
  /-- A blank stands between code and the sign of a comment. -/
  spaceBeforeCommentSign : Bool := true
  /-- A blank stands between the sign of a comment and its text. -/
  spaceAfterCommentSign : Bool := true
  chainStyle : ChainStyle := .preserve
  /-- The number of blanks for one level of indentation. -/
  indentWidth : Nat := 2
  indentWidth_pos : 0 < indentWidth := by decide
deriving DecidableEq, Repr

/-- The options that hold when nothing is set. -/
def Options.default : Options := {}

end AbapLayout
