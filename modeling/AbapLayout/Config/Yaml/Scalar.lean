import AbapLayout.Config.Yaml.Cursor
import AbapLayout.Config.Yaml.Fault

/-!
# Scalars

How plain, quoted and block scalars are read.  Inside plain and quoted scalars a line break counts
as a blank, and of several line breaks in a row all but the first are kept; this is called folding.
Blanks around line breaks are dropped.
-/

namespace AbapLayout
namespace Yaml

/-- A scalar that was read, and the place behind it. -/
structure Lexeme where
  text : Text
  cursor : Cursor
deriving DecidableEq, Repr

/-- What a line break and the further line breaks behind it leave of themselves. -/
def folded (first : Char) (more : Text) : Text :=
  (if first != '\n' then [first] else if more.isEmpty then [' '] else []) ++ more

/-! ## Plain scalars -/

/-- The number of characters up to a gap, or to what ends a plain scalar.  A question mark does so
in version 1.1 inside of brackets. -/
def plainLength (flow old : Bool) : Text → Nat
  | [] => 0
  | c :: cs =>
    if isGap c || (c == ':' && isGap (cs.headD endMark))
      || (flow && [',', '[', ']', '\x7b', '\x7d'].contains c) || (flow && old && c == '?') then 0
    else plainLength flow old cs + 1

/-- The line breaks ahead, blanks between them left out, and the place behind them; there are none
if the mark of a document stands at the start of one of the lines. -/
def plainBreaks : Nat → Text → Cursor → Option Text × Cursor
  | 0, acc, c => (some acc, c)
  | fuel + 1, acc, c =>
    if c.here == ' ' then plainBreaks fuel acc c.next
    else
      match c.lineBreak? with
      | none => (some acc, c)
      | some (b, d) => if d.atDocumentMark then (none, d) else plainBreaks fuel (acc ++ [b]) d

/-- The blanks and line breaks behind a part of a plain scalar. -/
structure Interval where
  /-- What they leave of themselves; nothing if the scalar ends here. -/
  text : Text
  cursor : Cursor
  /-- One of them is a line break. -/
  broken : Bool

/-- The blanks and line breaks that lie ahead. -/
def plainInterval (c : Cursor) : Interval :=
  let blanks := c.takeWhile (· == ' ')
  let behind := c.advance blanks.length
  match behind.lineBreak? with
  | none => ⟨blanks, behind, false⟩
  | some (b, d) =>
    if d.atDocumentMark then ⟨[], d, true⟩
    else
      match plainBreaks (d.rest.length + 1) [] d with
      | (none, e) => ⟨[], e, true⟩
      | (some more, e) => ⟨folded b more, e, true⟩

/-- A plain scalar, and whether a line break stands behind it. -/
structure Plain extends Lexeme where
  broken : Bool

/-- Reads a plain scalar behind what was read of it so far.  Outside of brackets its lines stand at
least in column `margin`. -/
def plainFrom (flow old : Bool) (margin : Int) : Nat → Text → Interval → Plain
  | 0, acc, i => ⟨⟨acc, i.cursor⟩, i.broken⟩
  | fuel + 1, acc, i =>
    let length := if i.cursor.here == '#' then 0 else plainLength flow old i.cursor.rest
    if length = 0 then ⟨⟨acc, i.cursor⟩, i.broken⟩
    else
      let text := acc ++ i.text ++ i.cursor.rest.take length
      let next := plainInterval (i.cursor.advance length)
      if next.text.isEmpty || next.cursor.here == '#'
        || (!flow && decide ((next.cursor.column : Int) < margin)) then
        ⟨⟨text, next.cursor⟩, next.broken⟩
      else plainFrom flow old margin fuel text next

def plain (flow old : Bool) (margin : Int) (c : Cursor) : Plain :=
  plainFrom flow old margin (c.rest.length + 1) [] ⟨[], c, false⟩

/-! ## Quoted scalars -/

/-- The characters that escapes of one letter stand for. -/
def escapes : List (Char × Nat) :=
  [('0', 0x00), ('a', 0x07), ('b', 0x08), ('t', 0x09), ('\t', 0x09), ('n', 0x0A), ('v', 0x0B),
   ('f', 0x0C), ('r', 0x0D), ('e', 0x1B), (' ', 0x20), ('\x22', 0x22), ('/', 0x2F),
   ('\x5c', 0x5C), ('N', 0x85), ('_', 0xA0), ('L', 0x2028), ('P', 0x2029)]

/-- The number of hexadecimal digits behind the escapes that take them. -/
def hexEscapes : List (Char × Nat) :=
  [('x', 2), ('u', 4), ('U', 8)]

def hexValue? (c : Char) : Option Nat :=
  if c.isDigit then some (c.toNat - '0'.toNat)
  else if 'a' ≤ c ∧ c ≤ 'f' then some (c.toNat - 'a'.toNat + 10)
  else if 'A' ≤ c ∧ c ≤ 'F' then some (c.toNat - 'A'.toNat + 10)
  else none

def hexNumber? (ds : Text) : Option Nat :=
  ds.foldl (fun acc c => acc.bind fun n => (hexValue? c).map (16 * n + ·)) (some 0)

def charOfCode (n : Nat) : Except Fault Char :=
  if n < 0x110000 then .ok (Char.ofNat n)
  else if n < 0x80000000 then .error .noSuchValue
  else .error .tooLarge

/-- The line breaks at the start of the line ahead, blanks between them left out.  The mark of a
document must not stand at the start of a line. -/
def quotedBreaks : Nat → Text → Cursor → Except Fault Lexeme
  | 0, acc, c => .ok ⟨acc, c⟩
  | fuel + 1, acc, c =>
    if c.atDocumentMark then .error .malformed
    else
      let d := c.dropWhile isSpace
      match d.lineBreak? with
      | none => .ok ⟨acc, d⟩
      | some (b, e) => quotedBreaks fuel (acc ++ [b]) e

/-- The number that so many hexadecimal digits ahead stand for. -/
def hexAhead? (c : Cursor) (width : Nat) : Option Nat :=
  let digits := c.rest.take width
  if digits.length = width then hexNumber? digits else none

/-- The second half of a character that is written as a pair of codes of sixteen bits. -/
def secondHalf? (c : Cursor) : Option Nat :=
  if c.here == '\x5c' && c.peek 1 == 'u' then
    (hexAhead? (c.advance 2) 4).filter fun n => 0xDC00 ≤ n && n < 0xE000
  else none

def hexEscape (c : Cursor) (width : Nat) : Except Fault Lexeme :=
  match hexAhead? c width with
  | none => .error .malformed
  | some n =>
    let behind := c.advance width
    match if 0xD800 ≤ n ∧ n < 0xDC00 then secondHalf? behind else none with
    | some m => .ok ⟨[Char.ofNat (0x10000 + (n - 0xD800) * 0x400 + (m - 0xDC00))], behind.advance 6⟩
    | none => (charOfCode n).map fun ch => ⟨[ch], behind⟩

def escape (c : Cursor) : Except Fault Lexeme :=
  match escapes.lookup c.here, hexEscapes.lookup c.here with
  | some n, _ => .ok ⟨[Char.ofNat n], c.next⟩
  | none, some width => hexEscape c.next width
  | none, none =>
    match c.lineBreak? with
    | some (_, d) => quotedBreaks (d.rest.length + 1) [] d
    | none => .error .malformed

/-- Reads the blanks and line breaks ahead in a quoted scalar. -/
def quotedInterval (c : Cursor) : Except Fault Lexeme :=
  let blanks := c.takeWhile isSpace
  let behind := c.advance blanks.length
  match behind.lineBreak? with
  | some (b, d) =>
    (quotedBreaks (d.rest.length + 1) [] d).map fun more => ⟨folded b more.text, more.cursor⟩
  | none => if behind.here == endMark then .error .malformed else .ok ⟨blanks, behind⟩

/-- Reads a quoted scalar behind what was read of it so far.  In straight quotes a quote is written
twice, in double ones a backslash begins an escape. -/
def quotedFrom (double : Bool) : Nat → Text → Cursor → Except Fault Lexeme
  | 0, _, _ => .error .malformed
  | fuel + 1, acc, c =>
    let go := fun (l : Lexeme) => quotedFrom double fuel (acc ++ l.text) l.cursor
    if c.here == endMark then .error .malformed
    else if isSpace c.here || isBreak c.here then (quotedInterval c).bind go
    else if double then
      if c.here == '\x22' then .ok ⟨acc, c.next⟩
      else if c.here == '\x5c' then (escape c.next).bind go
      else go ⟨[c.here], c.next⟩
    else if c.here == '\x27' then
      if c.peek 1 == '\x27' then go ⟨['\x27'], c.advance 2⟩ else .ok ⟨acc, c.next⟩
    else go ⟨[c.here], c.next⟩

def quoted (c : Cursor) : Except Fault Lexeme :=
  quotedFrom (c.here == '\x22') (c.rest.length + 1) [] c.next

/-! ## Block scalars -/

/-- What becomes of the line breaks at the end of a block scalar. -/
inductive Chomping where
  /-- One of them stays. -/
  | clip
  /-- None of them stays. -/
  | strip
  /-- All of them stay. -/
  | keep
deriving DecidableEq, Repr

/-- The chomping that an indicator asks for. -/
def Chomping.ofChar? : Char → Option Chomping
  | '+' => some .keep
  | '-' => some .strip
  | _ => none

structure BlockHeader where
  chomping : Chomping
  /-- The indentation of its lines, counted from that of the node it belongs to. -/
  indentation : Option Nat
  cursor : Cursor

/-- Reads the digit for the indentation, if there is one; it must not be zero. -/
def blockDigit (c : Cursor) : Except Fault (Option Nat × Cursor) :=
  if c.here.isDigit then
    if c.here == '0' then .error .malformed
    else .ok (some (c.here.toNat - '0'.toNat), c.next)
  else .ok (none, c)

/-- Reads the indicators of a block scalar, which come in either order. -/
def blockIndicators (c : Cursor) : Except Fault BlockHeader := do
  match Chomping.ofChar? c.here with
  | some chomping =>
    let (indentation, d) ← blockDigit c.next
    return ⟨chomping, indentation, d⟩
  | none =>
    let (indentation, d) ← blockDigit c
    match indentation, Chomping.ofChar? d.here with
    | some n, some chomping => return ⟨chomping, some n, d.next⟩
    | _, _ => return ⟨.clip, indentation, d⟩

/-- Steps over the rest of the line of a header, which holds blanks and a comment at most. -/
def headerLine (c : Cursor) : Except Fault Cursor :=
  if !isCloser c.here then .error .malformed
  else
    let blank := c.dropWhile (· == ' ')
    let behind := if blank.here == '#' then blank.dropWhile (!isEnd ·) else blank
    if !isEnd behind.here then .error .malformed
    else
      match behind.lineBreak? with
      | some (_, d) => .ok d
      | none => .ok behind

/-- The empty lines in front of a block scalar. -/
structure BlockMargin where
  breaks : Text
  /-- The column of the first line break, if there is one. -/
  first : Option Nat
  /-- The greatest column that blanks reach. -/
  greatest : Nat
  cursor : Cursor

/-- Reads the empty lines in front of a block scalar and the blanks in front of its first line. -/
def blockMargin : Nat → BlockMargin → BlockMargin
  | 0, m => m
  | fuel + 1, m =>
    if m.cursor.here == ' ' then
      let d := m.cursor.next
      blockMargin fuel { m with greatest := max m.greatest d.column, cursor := d }
    else
      match m.cursor.lineBreak? with
      | some (b, d) =>
        blockMargin fuel { m with
          breaks := m.breaks ++ [b], first := m.first.or (some m.cursor.column), cursor := d }
      | none => m

def blanksUpTo (column : Nat) (c : Cursor) : Cursor :=
  c.advance ((c.takeWhile (· == ' ')).take (column - c.column)).length

/-- Reads the line breaks in front of the next line of a block scalar. -/
def blockBreaks (column : Nat) : Nat → Text → Cursor → Lexeme
  | 0, acc, c => ⟨acc, c⟩
  | fuel + 1, acc, c =>
    let d := blanksUpTo column c
    match d.lineBreak? with
    | some (b, e) => blockBreaks column fuel (acc ++ [b]) e
    | none => ⟨acc, d⟩

/-- How the lines of a block scalar are put together. -/
structure BlockStyle where
  /-- Line breaks between lines that do not begin with a blank are folded. -/
  folds : Bool
  /-- The column of the lines. -/
  column : Nat
  /-- The mark of a document ends the scalar. -/
  guarded : Bool
  chomping : Chomping

/-- The end of a block scalar: its last line break, and the empty lines behind it. -/
def Chomping.ending (chomping : Chomping) (last : Text) (breaks : Text) : Text :=
  match chomping with
  | .strip => []
  | .clip => last
  | .keep => last ++ breaks

/-- Reads the lines of a block scalar behind what was read of it so far. -/
def blockLines (s : BlockStyle) : Nat → Text → Lexeme → Lexeme
  | 0, acc, l => ⟨acc, l.cursor⟩
  | fuel + 1, acc, l =>
    let c := l.cursor
    if c.column = s.column ∧ c.here ≠ endMark then
      let line := c.takeWhile (!isEnd ·)
      let behind := c.advance line.length
      let (last, start) : Text × Cursor := match behind.lineBreak? with
        | some (b, d) => ([b], d)
        | none => ([], behind)
      let next := blockBreaks s.column (start.rest.length + 1) [] start
      let text := acc ++ l.text ++ line
      if (s.guarded && next.cursor.column == 0 && next.cursor.atDocumentMark)
        || next.cursor.column != s.column || next.cursor.here == endMark then
        ⟨text ++ s.chomping.ending last next.text, next.cursor⟩
      else
        let joint := if s.folds && last == ['\n'] && !isSpace c.here && !isSpace next.cursor.here
          then (if next.text.isEmpty then [' '] else []) else last
        blockLines s fuel (text ++ joint) next
    else ⟨acc ++ s.chomping.ending [] l.text, c⟩

/-- Reads a block scalar in a node with the given indentation. -/
def blockScalar (indent : Int) (c : Cursor) : Except Fault Lexeme := do
  let header ← blockIndicators c.next
  let start ← headerLine header.cursor
  let least := (indent + 1).toNat
  let size := start.rest.length + 1
  let style := fun (column : Nat) =>
    ({ folds := c.here == '>', column, guarded := indent + 1 == 0 && header.indentation.isNone,
       chomping := header.chomping } : BlockStyle)
  match header.indentation with
  | some n =>
    let column := max least 1 + n - 1
    return blockLines (style column) size [] (blockBreaks column size [] start)
  | none =>
    let margin := blockMargin size ⟨[], none, 0, start⟩
    match margin.first with
    | some first => if 0 < first ∧ first < margin.greatest then throw .malformed
    | none => pure ()
    let column := max least margin.greatest
    return blockLines (style column) size [] ⟨margin.breaks, margin.cursor⟩

end Yaml
end AbapLayout
