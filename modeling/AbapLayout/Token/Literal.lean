import AbapLayout.Text.Basic

/-!
# Literals

Quoted literals and string templates.  Both measures take the text behind the opening sign and give
the number of characters up to and including the closing one.

* In a quoted literal a doubled quote stands for the quote itself.
* A string template runs from bar to bar.  A backslash takes the next character with it, and between
  braces stands an expression, which may hold braces, quoted literals and further templates.
-/

namespace AbapLayout

/-- Why a line cannot be cut into tokens. -/
inductive LexFault where
  | openLiteral
  | openTemplate
deriving DecidableEq, Repr

namespace Literal

/-- The straight and the reversed quote, which open and close quoted literals. -/
def isQuote (c : Char) : Bool :=
  c == '\x27' || c == '\x60'

/-- The length of a quoted literal behind its opening quote. -/
def quotedLength (quote : Char) : Text → Except LexFault Nat
  | [] => .error .openLiteral
  | c :: cs =>
    if c = quote then
      match cs with
      | [] => .ok 1
      | d :: ds => if d = quote then (quotedLength quote ds).map (· + 2) else .ok 1
    else (quotedLength quote cs).map (· + 1)

/-- The length of a string template behind its opening bar.  `depth` counts the braces that are open
in the innermost template, and `outer` those of the templates around it. -/
def templateLength (depth : Nat) (outer : List Nat) : Text → Except LexFault Nat
  | [] => .error .openTemplate
  | c :: cs =>
    if depth = 0 then
      if c = '\x5c' then
        match cs with
        | [] => .error .openTemplate
        | _ :: ds => (templateLength 0 outer ds).map (· + 2)
      else if c = '|' then
        match outer with
        | [] => .ok 1
        | resumed :: others => (templateLength resumed others cs).map (· + 1)
      else if c = '\x7b' then (templateLength 1 outer cs).map (· + 1)
      else (templateLength 0 outer cs).map (· + 1)
    else if c = '\x7b' then (templateLength (depth + 1) outer cs).map (· + 1)
    else if c = '\x7d' then (templateLength (depth - 1) outer cs).map (· + 1)
    else if c = '|' then (templateLength 0 (depth :: outer) cs).map (· + 1)
    else if isQuote c then
      match quotedLength c cs with
      | .error fault => .error fault
      | .ok n => (templateLength depth outer (cs.drop n)).map (· + (n + 1))
    else (templateLength depth outer cs).map (· + 1)
termination_by cs => cs.length

end Literal
end AbapLayout
