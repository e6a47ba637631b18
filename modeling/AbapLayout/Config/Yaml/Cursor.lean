import AbapLayout.Text.Basic

/-!
# Places in a document

A cursor is a place in a document together with what lies ahead.  What stands behind the last
character counts as U+0000, which no document holds.  A line feed is the only character that begins
a new line for the count of lines and columns; U+0085, U+2028 and U+2029 break lines as well, but
leave the counts alone.
-/

namespace AbapLayout
namespace Yaml

structure Cursor where
  /-- What lies ahead. -/
  rest : Text
  /-- The number of characters in front of this place. -/
  index : Nat := 0
  line : Nat := 0
  column : Nat := 0
deriving DecidableEq, Repr

/-- What stands behind the last character of a document. -/
def endMark : Char := '\x00'

namespace Cursor

def peek (c : Cursor) (ahead : Nat) : Char :=
  c.rest.getD ahead endMark

def here (c : Cursor) : Char :=
  c.peek 0

/-- The next place.  The byte order mark has no width. -/
def next (c : Cursor) : Cursor :=
  match c.rest with
  | [] => c
  | '\n' :: rest => ⟨rest, c.index + 1, c.line + 1, 0⟩
  | '\uFEFF' :: rest => ⟨rest, c.index + 1, c.line, c.column⟩
  | _ :: rest => ⟨rest, c.index + 1, c.line, c.column + 1⟩

def advance (c : Cursor) : Nat → Cursor
  | 0 => c
  | n + 1 => c.next.advance n

def takeWhile (c : Cursor) (p : Char → Bool) : Text :=
  c.rest.takeWhile p

def dropWhile (c : Cursor) (p : Char → Bool) : Cursor :=
  c.advance (c.takeWhile p).length

end Cursor

/-! ## Characters -/

def isBreak (c : Char) : Bool :=
  c == '\n' || c == '\u0085' || c == '\u2028' || c == '\u2029'

/-- Whether a character ends the line for comments and scalars. -/
def isEnd (c : Char) : Bool :=
  c == endMark || c == '\n' || c == '\u0085'

/-- Whether a character separates an indicator from what follows it. -/
def isGap (c : Char) : Bool :=
  isEnd c || c == ' ' || c == '\t'

/-- Whether a character is a blank or a tabulator. -/
def isSpace (c : Char) : Bool :=
  c == ' ' || c == '\t'

/-- Whether a character may follow the header of a block scalar, a tag or a directive. -/
def isCloser (c : Char) : Bool :=
  c == endMark || c == ' ' || isBreak c

def isAllowed (c : Char) : Bool :=
  c == '\t' || c == '\n' || c == '\r' || (0x20 ≤ c.toNat && c.toNat ≤ 0x7E) || c == '\u0085'
    || (0xA0 ≤ c.toNat && c != '\uFFFE' && c != '\uFFFF')

namespace Cursor

/-- Steps over a line break; it counts as a line feed unless it is U+2028 or U+2029. -/
def lineBreak? (c : Cursor) : Option (Char × Cursor) :=
  if c.here == '\n' || c.here == '\u0085' then some ('\n', c.next)
  else if c.here == '\u2028' || c.here == '\u2029' then some (c.here, c.next)
  else none

/-- Whether a mark and a gap behind it lie ahead. -/
def atMark (c : Cursor) (mark : Text) : Bool :=
  mark.isPrefixOf c.rest && isGap (c.peek mark.length)

/-- Whether the mark of the start or the end of a document lies ahead. -/
def atDocumentMark (c : Cursor) : Bool :=
  c.atMark ['-', '-', '-'] || c.atMark ['.', '.', '.']

end Cursor
end Yaml
end AbapLayout
