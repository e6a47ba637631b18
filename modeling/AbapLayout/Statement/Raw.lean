import AbapLayout.Statement.Classification

/-!
# Raw statements

A raw statement is what a source is cut into: a statement up to its period, one member of a chain up
to its comma or period, or a comment that stands alone.  The members of a chain share the words in
front of the colon, so every member carries them in its `Opening`.
-/

namespace AbapLayout

/-- What stands in front of the own tokens of a raw statement. -/
inductive Opening where
  /-- Nothing: the statement is no member of a chain. -/
  | none
  /-- The words and the colon that the members of a chain share. -/
  | shared (words : List Token) (colon : Token)
  /-- A colon the statement refers to but does not hold. -/
  | stray (colon : Token)
deriving DecidableEq, Repr

def Opening.colon? : Opening → Option Token
  | .none => Option.none
  | .shared _ colon => some colon
  | .stray colon => some colon

def Opening.tokens : Opening → List Token
  | .none => []
  | .shared words colon => words ++ [colon]
  | .stray _ => []

/-- A statement, a member of a chain or a comment, as it is cut from a source. -/
structure RawStatement where
  opening : Opening := .none
  /-- The tokens behind the opening, inline comments included. -/
  body : List Token
  kind : Kind := .other
  /-- Pragmas stand apart from the other tokens. -/
  pragmas : List Token := []
  /-- A made-up statement without a place in the block structure. -/
  detached : Bool := false
deriving DecidableEq, Repr

namespace RawStatement

/-- All tokens but the pragmas, in source order. -/
def tokens (r : RawStatement) : List Token :=
  r.opening.tokens ++ r.body

def colon? (r : RawStatement) : Option Token :=
  r.opening.colon?

/-- The line of the first token, zero if there is none. -/
def startLine (r : RawStatement) : Nat :=
  match r.tokens.head? with
  | some t => t.span.startLine
  | none => 0

/-- The line where the last token ends, zero if there is none. -/
def endLine (r : RawStatement) : Nat :=
  match r.tokens.getLast? with
  | some t => t.span.endLine
  | none => 0

/-- The texts of the tokens, joined by blanks. -/
def wording (r : RawStatement) : Text :=
  Text.join [' '] (r.tokens.map (·.text))

def ofComment (t : Token) : RawStatement :=
  { body := [t], kind := .comment }

/-- The statement with the given opening and tokens; its words tell its kind. -/
def ofTokens (opening : Opening) (body pragmas : List Token) : RawStatement :=
  { opening, body, kind := Kind.classify (opening.tokens ++ body), pragmas }

end RawStatement
end AbapLayout
