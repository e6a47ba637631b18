import AbapLayout.Statement.Raw
import AbapLayout.Text.Lines
import AbapLayout.Token.Lexer

/-!
# Cutting a source into raw statements

The tokens of all lines run through a small machine.  It holds the tokens since the last terminator,
the pragmas since then, the shared words of an open chain and the number of open brackets.  A period
ends a statement; a comma ends a member of a chain unless a bracket is open; a colon opens a chain
if none is open and no bracket is.  A comment between statements is a statement of its own.

A source that cannot be cut is refused with a `Rejection`.
-/

namespace AbapLayout

/-- Why a source cannot be cut into statements. -/
inductive Rejection where
  /-- Files of this name hold no program. -/
  | noObject (filename : String)
  | noStatements
  | lexical (fault : LexFault) (line : Nat)
  /-- Behind the last period stands a token, on the given line. -/
  | unterminated (line : Nat)
deriving DecidableEq, Repr

namespace Rejection

/-- The source line at fault. -/
def line? : Rejection → Option Nat
  | .noObject _ | .noStatements => none
  | .lexical _ line | .unterminated line => some line

def message : Rejection → String
  | .noObject filename => "No ABAP object can be derived from '" ++ filename ++ "'"
  | .noStatements => "Source contains no ABAP statements"
  | .lexical fault line => fault.message ++ " (line " ++ toString line ++ ")"
  | .unterminated line =>
    "Statement is not terminated by a period (line " ++ toString line ++ ")"

end Rejection

/-- What has been read since the last terminator. -/
structure Unfinished where
  pending : List Token := []
  pragmas : List Token := []
  /-- The shared words and the colon of an open chain. -/
  chain : Option (List Token × Token) := none
  /-- The number of open brackets. -/
  depth : Nat := 0
deriving DecidableEq, Repr

namespace Unfinished

def opening (u : Unfinished) : Opening :=
  match u.chain with
  | none => .none
  | some (words, colon) => .shared words colon

def depthAfter (u : Unfinished) (t : Token) : Nat :=
  if t.isOneOf ["(", "["] then u.depth + 1
  else if t.isOneOf [")", "]"] then u.depth - 1
  else u.depth

/-- Takes a token that is neither comment nor pragma and opens no chain. -/
def pushCode (u : Unfinished) (t : Token) : Option RawStatement × Unfinished :=
  let depth := u.depthAfter t
  let pending := u.pending ++ [t]
  if t.role = .punctuation ∧ (t.text = ['.'] ∨ (u.chain.isSome ∧ depth = 0)) then
    let statement := RawStatement.ofTokens u.opening pending u.pragmas
    if t.text = ['.'] then (some statement, {})
    else (some statement, { chain := u.chain, depth })
  else (none, { u with pending, depth })

/-- Takes one token, and gives the statement it completes, if any. -/
def push (u : Unfinished) (t : Token) : Option RawStatement × Unfinished :=
  match t.role with
  | .comment =>
    if u.pending.isEmpty then (some (RawStatement.ofComment t), u)
    else (none, { u with pending := u.pending ++ [t] })
  | .pragma => (none, { u with pragmas := u.pragmas ++ [t] })
  | .colon =>
    if u.chain.isNone ∧ u.depth = 0 then
      (none, { u with chain := some (u.pending, t), pending := [] })
    else u.pushCode t
  | _ => u.pushCode t

/-- The first token that is left over at the end of a source. -/
def leftover? (u : Unfinished) : Option Token :=
  match u.pending.head?, u.pragmas.head? with
  | some t, _ => some t
  | none, some t => some t
  | none, none => u.chain.map (·.2)

/-- The statements a list of tokens completes. -/
def statements (u : Unfinished) : List Token → Except Rejection (List RawStatement)
  | [] =>
    match u.leftover? with
    | some t => .error (.unterminated t.span.startLine)
    | none => .ok []
  | t :: ts =>
    match u.push t with
    | (none, v) => v.statements ts
    | (some s, v) => (v.statements ts).map (s :: ·)

end Unfinished

/-- The tokens of consecutive lines, the first of which has the given number. -/
def tokenizeLines (first : Nat) : List Text → Except Rejection (List Token)
  | [] => .ok []
  | line :: rest =>
    match tokenize first line with
    | .error fault => .error (.lexical fault first)
    | .ok tokens => (tokenizeLines (first + 1) rest).map (tokens ++ ·)

namespace Source

def byteOrderMark : Char := '\uFEFF'

/-- A source without byte order marks in front and with line feeds only. -/
def clean (t : Text) : Text :=
  Text.unifyBreaks (t.dropWhile (· == byteOrderMark))

/-- Whether files of this name hold data definitions instead of a program. -/
def holdsNoProgram (filename : String) : Bool :=
  ".ddlsrc".toList.isSuffixOf (Text.lower filename.toList)

def tokens (t : Text) : Except Rejection (List Token) :=
  tokenizeLines 1 (Text.lines (clean t))

/-- The raw statements of a source, whatever the name of its file. -/
def splitText (t : Text) : Except Rejection (List RawStatement) :=
  if Text.isBlankText (clean t) then .error .noStatements
  else
    match tokens t with
    | .error rejection => .error rejection
    | .ok ts => ({} : Unfinished).statements ts

/-- The raw statements of a source. -/
def split (t : Text) (filename : Option String) : Except Rejection (List RawStatement) :=
  match filename with
  | none => splitText t
  | some name => if holdsNoProgram name then .error (.noObject name) else splitText t

end Source
end AbapLayout
