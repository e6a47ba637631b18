import AbapLayout.Span
import AbapLayout.Text.Blank

/-!
# Comments

A comment that has been taken out of the token stream.  Pseudo comments (`"#EC NEEDED`) are read by
code inspectors, so they are told apart from the others.
-/

namespace AbapLayout

structure Comment where
  value : Text
  /-- Shares its line with code in front of it. -/
  inline : Bool
  span : Span
deriving DecidableEq, Repr

namespace Comment

/-- The sign that begins a comment behind code. -/
def sign : Char := '\x22'

/-- Whether a comment text is a pseudo comment: behind the sign stands a number sign. -/
def isPseudoText (value : Text) : Bool :=
  match Text.trimLeft value with
  | [] => false
  | c :: rest => c == sign && (Text.trimLeft rest).head? == some '#'

/-- Whether a comment text is a full-line comment. -/
def isStarText (value : Text) : Bool :=
  value.head? == some '*'

def isPseudo (c : Comment) : Bool :=
  isPseudoText c.value

/-- The text without its sign and without blanks around it. -/
def body (c : Comment) : Text :=
  match Text.trim c.value with
  | [] => []
  | first :: rest =>
    if first = sign ∨ first = '*' then Text.trim rest else Text.trim (first :: rest)

end Comment
end AbapLayout
