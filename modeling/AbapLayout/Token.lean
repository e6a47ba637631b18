import AbapLayout.Span
import AbapLayout.Text.LetterCase

/-!
# Tokens

The lexical units of a source line.  A token keeps its text exactly as written; `Token.upper` is the
form in which words are compared.
-/

namespace AbapLayout

inductive Role where
  | word
  | punctuation
  | comment
  | pragma
  | literal
  | colon
  | arrow
deriving DecidableEq, Repr

/-- A lexical unit: its role, its text as written and where it stands. -/
structure Token where
  role : Role
  text : Text
  span : Span
deriving DecidableEq, Repr

namespace Token

/-- A token on one line, as wide as its text. -/
def onLine (role : Role) (text : Text) (line column : Nat) : Token :=
  ⟨role, text, Span.onLine line column text.length⟩

def upper (t : Token) : Text :=
  Text.upper t.text

def isComment (t : Token) : Bool :=
  t.role == .comment

def isPragma (t : Token) : Bool :=
  t.role == .pragma

def isOneOf (t : Token) (texts : List String) : Bool :=
  texts.contains (String.ofList t.text)

/-- A period or comma that ends a statement or a member of a chain. -/
def isTerminator (t : Token) : Bool :=
  t.role == .punctuation && t.isOneOf [".", ","]

def isPeriod (t : Token) : Bool :=
  t.role == .punctuation && t.text == ['.']

/-- A closing parenthesis or square bracket. -/
def isClosingBracket (t : Token) : Bool :=
  t.role == .word && t.isOneOf [")", "]"]

/-- A comment that begins with the double-quote sign. -/
def isSignComment (t : Token) : Bool :=
  t.isComment && t.text.head? == some '\x22'

/-- A comment that begins with an asterisk. -/
def isStarComment (t : Token) : Bool :=
  t.isComment && t.text.head? == some '*'

end Token
end AbapLayout
