import AbapLayout.Config.Yaml.Token

/-!
# From text to tokens

A token may turn out to be a key only when the colon behind it is met.  Where a key may stand, its
place is therefore remembered; when the colon comes, the token for the key is inserted at that
place.  Tokens are only ever added at the end, and what is to be inserted is kept beside them until
all tokens are known.

A directive may ask for version 1.1 of the format, in which the indicators `:` and `?` need no gap
behind them inside of brackets.
-/

namespace AbapLayout
namespace Yaml

/-- A place where a key may begin. -/
structure KeyPlace where
  /-- The number of tokens in front of it. -/
  position : Nat
  /-- A key must begin here, since it stands in the column of a block collection. -/
  required : Bool
  index : Nat
  line : Nat
  column : Nat
deriving DecidableEq, Repr

/-- The bracket of an open flow collection. -/
inductive Bracket where
  | square
  | curly
deriving DecidableEq, Repr

/-- What is known in the middle of a document. -/
structure Lexer where
  cursor : Cursor
  /-- The columns of the open block collections, the innermost one first. -/
  columns : List Int := []
  /-- The open flow collections, the innermost one first, each with the place of the key in which
  it may stand. -/
  brackets : List (Bracket × Option KeyPlace) := []
  /-- The place of the key in the innermost collection. -/
  keyPlace : Option KeyPlace := none
  /-- A key may begin at the next token. -/
  keyAllowed : Bool := true
  /-- Version 1.1 of the format is asked for. -/
  old : Bool := false
  /-- The tokens so far, the last one first. -/
  tokens : List Token := []
  /-- Tokens that are inserted in front of the one at a position, the last one first. -/
  inserted : List (Nat × List Token) := []

namespace Lexer

/-- Whether the next token stands in a flow collection. -/
def inFlow (l : Lexer) : Bool :=
  !l.brackets.isEmpty

/-- The column of the innermost block collection. -/
def indent (l : Lexer) : Int :=
  l.columns.headD (-1)

def push (l : Lexer) (t : Token) : Lexer :=
  { l with tokens := t :: l.tokens }

/-- Adds a token of one character. -/
def pushHere (l : Lexer) (t : Token) : Lexer :=
  { l.push t with cursor := l.cursor.next }

/-! ## Places of keys -/

/-- A place of a key that is still possible: in the same line and not too far back.  It is an error
if a key must begin there and none does. -/
def fresh (c : Cursor) : Option KeyPlace → Except Fault (Option KeyPlace)
  | none => .ok none
  | some k =>
    if k.line = c.line ∧ c.index - k.index ≤ 1024 then .ok (some k)
    else if k.required then .error .malformed
    else .ok none

/-- Forgets the places of keys that are no longer possible. -/
def forgetStale (l : Lexer) : Except Fault Lexer := do
  let keyPlace ← fresh l.cursor l.keyPlace
  let brackets ← l.brackets.mapM fun b => do return (b.1, ← fresh l.cursor b.2)
  return { l with keyPlace, brackets }

/-- Whether the place of a key is remembered in some collection. -/
def awaitsColon (l : Lexer) : Bool :=
  l.keyPlace.isSome || l.brackets.any (·.2.isSome)

def forgetKey (l : Lexer) : Except Fault Lexer :=
  match l.keyPlace with
  | some k => if k.required then .error .malformed else .ok { l with keyPlace := none }
  | none => .ok l

/-- Remembers that a key may begin at the next token, if one is allowed there. -/
def rememberKey (l : Lexer) : Except Fault Lexer := do
  if l.keyAllowed then
    let l ← l.forgetKey
    let c := l.cursor
    let required := !l.inFlow && l.indent == c.column
    return { l with keyPlace := some ⟨l.tokens.length, required, c.index, c.line, c.column⟩ }
  else return l

/-! ## Indentation -/

/-- Ends the block collections that stand in columns behind the given one. -/
def unwind (l : Lexer) (column : Int) : Lexer :=
  if l.inFlow then l
  else
    let ended := l.columns.takeWhile (column < ·)
    { l with
      columns := l.columns.drop ended.length
      tokens := List.replicate ended.length .blockEnd ++ l.tokens }

/-- Begins a block collection in the given column, unless one stands there already. -/
def deepen? (l : Lexer) (column : Int) : Option Lexer :=
  if l.indent < column then some { l with columns := column :: l.columns } else none

/-- Begins a block collection at the cursor, unless one stands there already. -/
def openHere (l : Lexer) (start : Token) : Lexer :=
  match l.deepen? l.cursor.column with
  | some deepened => deepened.push start
  | none => l

/-! ## The kinds of tokens -/

/-- Steps over blanks, comments and line breaks.  Outside of brackets a key may begin behind a line
break, and tabulators are not skipped. -/
def skip : Nat → Lexer → Lexer
  | 0, l => l
  | fuel + 1, l =>
    let blank := l.cursor.dropWhile fun ch => ch == ' ' || (ch == '\t' && l.inFlow)
    let behind := if blank.here == '#' then blank.dropWhile (!isEnd ·) else blank
    match behind.lineBreak? with
    | some (_, d) => skip fuel { l with cursor := d, keyAllowed := l.keyAllowed || !l.inFlow }
    | none => { l with cursor := behind }

/-- Ends all block collections, as the marks of documents and directives do. -/
def closeBlocks (l : Lexer) : Except Fault Lexer := do
  let l ← (l.unwind (-1)).forgetKey
  return { l with keyAllowed := false }

def documentMark (l : Lexer) (t : Token) : Except Fault Lexer := do
  let l ← l.closeBlocks
  return { l.push t with cursor := l.cursor.advance 3 }

def openFlow (l : Lexer) (bracket : Bracket) (t : Token) : Except Fault Lexer := do
  let l ← l.rememberKey
  return { l.pushHere t with
    brackets := (bracket, l.keyPlace) :: l.brackets, keyPlace := none, keyAllowed := true }

def closeFlow (l : Lexer) (t : Token) : Except Fault Lexer := do
  let l ← l.forgetKey
  let l := { l.pushHere t with keyAllowed := false }
  match l.brackets with
  | [] => return l
  | (_, place) :: outer => return { l with brackets := outer, keyPlace := place }

def comma (l : Lexer) : Except Fault Lexer := do
  let l ← l.forgetKey
  return { l.pushHere .comma with keyAllowed := true }

/-- Reads an indicator that may begin a block collection of its own: the hyphen of an item, or the
question mark of a key. -/
def indicator (l : Lexer) (start t : Token) (keyAllowed : Bool) : Except Fault Lexer := do
  if !l.inFlow && !l.keyAllowed then throw .malformed
  let l ← (if l.inFlow then l else l.openHere start).forgetKey
  return { l.pushHere t with keyAllowed }

/-- Reads the colon behind a key.  If its place was remembered, the token for the key is inserted
there, and also that for the start of a block mapping if none stands in this column. -/
def colon (l : Lexer) : Except Fault Lexer := do
  match l.keyPlace with
  | some k =>
    let l := { l with keyPlace := none, keyAllowed := false }
    match if l.inFlow then none else l.deepen? k.column with
    | some deepened =>
      return { deepened with
        inserted := (k.position, [.blockMappingStart, .key]) :: l.inserted }.pushHere .value
    | none => return { l with inserted := (k.position, [.key]) :: l.inserted }.pushHere .value
  | none => l.indicator .blockMappingStart .value (!l.inFlow)

/-- Reads a token that may be a key as a whole. -/
def atom (l : Lexer) (read : Cursor → Except Fault Reading) : Except Fault Lexer := do
  let l ← l.rememberKey
  let r ← read l.cursor
  return { l.push r.token with cursor := r.cursor, keyAllowed := false }

def directiveLine (l : Lexer) : Except Fault Lexer := do
  let l ← l.closeBlocks
  let r ← directive l.cursor
  return { l.push r.token with
    cursor := r.cursor, old := l.old || r.token == .directive (.version 1 1) }

/-- Reads a plain scalar.  Behind a line break a key may begin. -/
def plainScalar (l : Lexer) : Except Fault Lexer := do
  let l ← l.rememberKey
  let p := plain l.inFlow l.old (l.indent + 1) l.cursor
  return { l.push (.scalar p.text true) with cursor := p.cursor, keyAllowed := p.broken }

def blockText (l : Lexer) : Except Fault Lexer := do
  let l ← l.forgetKey
  let s ← blockScalar l.indent l.cursor
  return { l.push (.scalar s.text false) with cursor := s.cursor, keyAllowed := true }

/-! ## Which token lies ahead -/

/-- Whether the colon ahead stands behind a key.  `pending` says that a token of its line is not
settled yet. -/
def atColon (l : Lexer) (pending : Bool) : Bool :=
  let gap := isGap (l.cursor.peek 1)
  match l.brackets with
  | [] => gap
  | (.square, _) :: _ => gap || l.old
  | (.curly, _) :: _ => gap || l.old || !(pending && l.tokens.head? == some .value)

def atPlain (l : Lexer) : Bool :=
  let c := l.cursor.here
  let next := l.cursor.peek 1
  if c == '-' then !isGap next
  else if c == ':' && l.inFlow then !l.old && !isSpace next
  else if c == '?' || c == ':' then !l.inFlow && !isGap next
  else !(isGap c || isBreak c || ",[]\x7b\x7d#&*!|>'\x22%@\x60".toList.contains c)

/-- Goes to the next token.  The first component says whether in its line a token in front of it is
not settled yet. -/
def approach (l : Lexer) : Except Fault (Bool × Lexer) := do
  let pending := (← l.forgetStale).awaitsColon
  let l ← (l.skip (l.cursor.rest.length + 1)).forgetStale
  return (pending, l.unwind l.cursor.column)

def token (l : Lexer) (pending : Bool) : Except Fault Lexer := do
  let c := l.cursor
  let gap := isGap (c.peek 1)
  if c.here == '%' && c.column == 0 then l.directiveLine
  else if c.column == 0 && c.atMark ['-', '-', '-'] then l.documentMark .documentStart
  else if c.column == 0 && c.atMark ['.', '.', '.'] then l.documentMark .documentEnd
  else if c.here == '[' then l.openFlow .square .flowListStart
  else if c.here == '\x7b' then l.openFlow .curly .flowMappingStart
  else if c.here == ']' then l.closeFlow .flowListEnd
  else if c.here == '\x7d' then l.closeFlow .flowMappingEnd
  else if c.here == ',' then l.comma
  else if c.here == '-' && gap then l.indicator .blockListStart .item true
  else if c.here == '?' && (l.inFlow || gap) then
    l.indicator .blockMappingStart .key (!l.inFlow)
  else if c.here == ':' && l.atColon pending then l.colon
  else if c.here == '*' then
    l.atom fun d => (nodeName d).map fun n => ⟨.reference n.text, n.cursor⟩
  else if c.here == '&' then
    l.atom fun d => (nodeName d).map fun n => ⟨.anchor n.text, n.cursor⟩
  else if c.here == '!' then l.atom tag
  else if (c.here == '|' || c.here == '>') && !l.inFlow then l.blockText
  else if c.here == '\x27' || c.here == '\x22' then
    l.atom fun d => (quoted d).map fun s => ⟨.scalar s.text false, s.cursor⟩
  else if l.atPlain then l.plainScalar
  else throw .malformed

/-- Reads tokens until the end of the document; `fuel` bounds their number. -/
def run : Nat → Lexer → Except Fault Lexer
  | 0, _ => .error .malformed
  | fuel + 1, l => do
    let (pending, l) ← l.approach
    if l.cursor.rest.isEmpty then l.closeBlocks
    else run fuel (← l.token pending)

/-- The tokens in their order, what is inserted in its places. -/
def arrange (inserted : List (Nat × List Token)) (tokens : List Token) : List Token :=
  tokens.zipIdx.flatMap fun (t, i) =>
    (inserted.filter (·.1 == i)).flatMap (·.2) ++ [t]

end Lexer

/-- The tokens of a document.  A byte order mark at its front is left out. -/
def tokens (t : Text) : Except Fault (List Token) := do
  let start : Cursor := { rest := t }
  let l ← Lexer.run (t.length + 1)
    { cursor := if start.here == '\uFEFF' then start.next else start }
  return Lexer.arrange l.inserted l.tokens.reverse

end Yaml
end AbapLayout
