import AbapLayout.Text.Blank
import AbapLayout.Token
import AbapLayout.Token.Literal
import AbapLayout.Token.Word

/-!
# Cutting a line into tokens

`Lexeme.measure` looks at the first character of a lexical unit and at what follows, and gives the
role of the unit and the number of its further characters.  `tokenize` takes the units off the line
one by one and skips the blank characters between them, so the tokens cover the line but for blanks.

An asterisk in the first column makes the whole line a comment.
-/

namespace AbapLayout

namespace LexFault

def message : LexFault → String
  | .openLiteral => "Unterminated literal"
  | .openTemplate => "Unterminated string template"

end LexFault

namespace Lexeme

/-- The signs that are words of their own. -/
def isBracket (c : Char) : Bool :=
  "()[]\x7b\x7d".toList.contains c

/-- The role and further length of a unit that is neither a literal nor a comment. -/
def measurePlain (c : Char) (cs : Text) : Role × Nat :=
  if c = '.' ∨ c = ',' then (.punctuation, 0)
  else if c = ':' then (.colon, 0)
  else if isBracket c then (.word, 0)
  else
    match if c = '<' then Word.fieldSymbolLength? cs else none with
    | some n => (.word, n)
    | none =>
      if Word.begins c cs then (.word, Word.length cs)
      else
        match Word.operator? (c :: cs) with
        | some op => (if Word.arrows.contains op then .arrow else .word, op.length - 1)
        | none => (.word, 0)

/-- The role of the unit that begins with `c` in front of `cs`, and how many characters of `cs`
belong to it. -/
def measure (c : Char) (cs : Text) : Except LexFault (Role × Nat) :=
  if c = '\x22' then .ok (.comment, (Text.trimRight cs).length)
  else if Literal.isQuote c then (Literal.quotedLength c cs).map (.literal, ·)
  else if c = '|' then (Literal.templateLength 0 [] cs).map (.literal, ·)
  else
    match if c = '#' then Word.pragmaLength? cs else none with
    | some n => .ok (.pragma, n)
    | none => .ok (measurePlain c cs)

end Lexeme

/-- The tokens of the rest of a line that starts in the given column. -/
def tokenizeFrom (line column : Nat) : Text → Except LexFault (List Token)
  | [] => .ok []
  | c :: cs =>
    if Text.isBlank c then tokenizeFrom line (column + 1) cs
    else
      match Lexeme.measure c cs with
      | .error fault => .error fault
      | .ok (role, n) =>
        (tokenizeFrom line (column + (n + 1)) (cs.drop n)).map
          (Token.onLine role (c :: cs.take n) line column :: ·)
termination_by cs => cs.length

/-- The tokens of a source line with the given number. -/
def tokenize (line : Nat) (t : Text) : Except LexFault (List Token) :=
  match t with
  | '*' :: _ => .ok [Token.onLine .comment (Text.trimRight t) line 0]
  | _ => tokenizeFrom line 0 t

end AbapLayout
