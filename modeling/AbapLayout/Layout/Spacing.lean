import AbapLayout.Options.Basic
import AbapLayout.Token

/-!
# Blanks between tokens

The least number of blanks in front of a token that is not the first of its line, and the number
that is printed.  Brackets and the signs `+` and `-` keep touching what they touch in the source,
because `meth( x )` differs from `meth ( x )` and `-1` from `- 1`.
-/

namespace AbapLayout
namespace Spacing

/-- The texts that touch their neighbours if they do so in the source. -/
def stickyTexts : List String :=
  ["(", ")", "[", "]", "+", "-"]

/-- The least number of blanks between a token and the one before it. -/
def minimum (o : Options) (t : Token) : Option Token → Nat
  | none => 0
  | some p =>
    match t.role with
    | .punctuation => if o.spaceBeforePeriod then 1 else 0
    | .comment => if o.spaceBeforeCommentSign then 1 else 0
    | .arrow => 0
    | _ =>
      if p.role = .arrow ∨ t.role = .colon then 0
      else if t.isOneOf stickyTexts || p.isOneOf stickyTexts then
        if p.span.touches t.span then 0 else 1
      else 1

/-- The number of blanks printed between a token and the one before it: what the source has, but at
least the minimum, unless another number is asked for. -/
def printed (o : Options) (wanted : Option Nat) (t : Token) (previous : Option Token) : Nat :=
  let least := minimum o t previous
  match wanted with
  | some n => max n least
  | none =>
    match previous with
    | some p => if least = 0 then 0 else max (p.span.gap t.span) least
    | none => 0

end Spacing
end AbapLayout
