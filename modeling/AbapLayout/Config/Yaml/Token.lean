import AbapLayout.Config.Yaml.Scalar

/-!
# Tokens of a document

The marks, indicators, names and scalars of a document.  Indentation is made explicit: block
collections have tokens for their start and their end.  This module also reads the tokens that have
a text of their own: names of nodes, tags and directives.
-/

namespace AbapLayout
namespace Yaml

inductive Directive where
  /-- The version of the format. -/
  | version (major minor : Nat)
  /-- An abbreviation for the beginnings of tags. -/
  | abbreviation (handle start : Text)
  | other
deriving DecidableEq, Repr

inductive Token where
  | directive (d : Directive)
  | documentStart
  | documentEnd
  | blockListStart
  | blockMappingStart
  | blockEnd
  | flowListStart
  | flowListEnd
  | flowMappingStart
  | flowMappingEnd
  /-- The hyphen in front of an item of a block list. -/
  | item
  /-- The comma between the entries of a flow collection. -/
  | comma
  /-- What follows is the key of a member. -/
  | key
  /-- What follows is the value of a member. -/
  | value
  /-- Gives a name to the node that follows. -/
  | anchor (name : Text)
  /-- Stands for the node of a name. -/
  | reference (name : Text)
  /-- The tag of the node that follows, with the handle that abbreviates its beginning. -/
  | tag (handle : Option Text) (suffix : Text)
  | scalar (text : Text) (isPlain : Bool)
deriving DecidableEq, Repr

/-- A token that was read, and the place behind it. -/
structure Reading where
  token : Token
  cursor : Cursor

/-! ## Names -/

/-- Whether a character may stand in the name of a node. -/
def isNameChar (c : Char) : Bool :=
  !([',', '[', ']', '\x7b', '\x7d'].contains c)
    && (('!' ≤ c && c ≤ '~') || (0xA0 ≤ c.toNat && c != '\uFEFF'))

/-- Whether a character may stand behind the name of a node. -/
def followsName (c : Char) : Bool :=
  isGap c || isBreak c || ['?', ':', ',', '[', ']', '\x7b', '\x7d', '%', '@', '\x60'].contains c

def nodeName (c : Cursor) : Except Fault Lexeme :=
  let name := c.next.takeWhile isNameChar
  let behind := c.next.advance name.length
  if name.isEmpty || !followsName behind.here then .error .malformed else .ok ⟨name, behind⟩

/-! ## Tags -/

def isTagChar (c : Char) : Bool :=
  c.isAlphanum || "-;/?:@&=+$,_.!~*'()[]#".toList.contains c

/-- Reads a part of a tag, which is not empty. -/
def tagPart (c : Cursor) : Except Fault Lexeme :=
  let part := c.takeWhile isTagChar
  if part.isEmpty then .error .malformed else .ok ⟨part, c.advance part.length⟩

/-- Reads a handle: an exclamation mark, or a word between two of them. -/
def tagHandle (c : Cursor) : Except Fault Lexeme :=
  if c.here != '!' then .error .malformed
  else if c.peek 1 == ' ' then .ok ⟨['!'], c.next⟩
  else
    let word := c.next.takeWhile fun ch => ch.isAlphanum || ch == '-' || ch == '_'
    if c.peek (word.length + 1) == '!' then
      .ok ⟨'!' :: word ++ ['!'], c.advance (word.length + 2)⟩
    else .error .malformed

def tag (c : Cursor) : Except Fault Reading := do
  let (token, behind) ← (
    if c.peek 1 == '<' then do
      let name ← tagPart (c.advance 2)
      if name.cursor.here == '>' then
        return (Token.tag none name.text, name.cursor.next)
      else throw .malformed
    else if isGap (c.peek 1) then return (.tag none ['!'], c.next)
    else do
      let handle ← if (c.next.takeWhile (!isCloser ·)).contains '!' then tagHandle c
        else pure ⟨['!'], c.next⟩
      let suffix ← tagPart handle.cursor
      return (.tag (some handle.text) suffix.text, suffix.cursor))
  if isCloser behind.here then return ⟨token, behind⟩ else throw .malformed

/-! ## Directives -/

def number (c : Cursor) : Except Fault (Nat × Cursor) :=
  let digits := c.takeWhile Char.isDigit
  if digits.isEmpty then .error .malformed
  else
    .ok (digits.foldl (fun n d => 10 * n + (d.toNat - '0'.toNat)) 0, c.advance digits.length)

def version (c : Cursor) : Except Fault Reading := do
  let (major, d) ← number (c.dropWhile (· == ' '))
  if d.here != '.' then throw .malformed
  let (minor, e) ← number d.next
  if isCloser e.here then return ⟨.directive (.version major minor), e⟩ else throw .malformed

/-- Reads an abbreviation for the beginnings of tags. -/
def abbreviation (c : Cursor) : Except Fault Reading := do
  let handle ← tagHandle (c.dropWhile (· == ' '))
  if handle.cursor.here != ' ' then throw .malformed
  let start ← tagPart (handle.cursor.dropWhile (· == ' '))
  if isCloser start.cursor.here then
    return ⟨.directive (.abbreviation handle.text start.text), start.cursor⟩
  else throw .malformed

def directive (c : Cursor) : Except Fault Reading := do
  let name := c.next.takeWhile fun ch => ch.isAlphanum || ['-', '_', ':', '.'].contains ch
  let behind := c.next.advance name.length
  if name.isEmpty || !isCloser behind.here then throw .malformed
  let r ← (
    if name == "YAML".toList then version behind
    else if name == "TAG".toList then abbreviation behind
    else return ⟨.directive .other, behind.dropWhile (!isEnd ·)⟩)
  return ⟨r.token, ← headerLine r.cursor⟩

end Yaml
end AbapLayout
