import AbapLayout.Config.Yaml.Lexer

/-!
# Nodes of a document

A document is a tree of scalars, lists and mappings.  A node may have a tag, and a name by which it
can be used again; such uses are replaced by the node itself.  Where a node is missing, an empty
plain scalar takes its place.
-/

namespace AbapLayout
namespace Yaml

inductive Node where
  | scalar (tag : Option Text) (isPlain : Bool) (text : Text)
  | list (tag : Option Text) (items : List Node)
  | mapping (tag : Option Text) (members : List (Node × Node))
deriving Inhabited

/-- The node that takes the place of a missing one. -/
def Node.empty : Node :=
  .scalar none true []

/-- The tokens that are still to be read, and what was declared so far. -/
structure Parser where
  tokens : List Token
  /-- The nodes with names, the last one first. -/
  anchors : List (Text × Node) := []
  /-- What the handles of tags stand for. -/
  handles : List (Text × Text) := []
  /-- Version 1.1 of the format is asked for, in which each member has a key. -/
  old : Bool := false

/-- The beginning of the tags of the format itself. -/
def formatTag : Text := "tag:yaml.org,2002:".toList

/-- What the handles of tags stand for unless something else is declared. -/
def defaultHandles : List (Text × Text) :=
  [(['!'], ['!']), (['!', '!'], formatTag)]

/-- What is said about a node in front of it. -/
structure Properties where
  name : Option Text := none
  tag : Option Text := none

def Properties.isEmpty (s : Properties) : Bool :=
  s.name.isNone && s.tag.isNone

namespace Parser

/-- A tag with its handle replaced by what it stands for. -/
def fullTag (p : Parser) (handle : Option Text) (suffix : Text) : Except Fault Text :=
  match handle with
  | none => .ok suffix
  | some h =>
    match p.handles.lookup h with
    | some start => .ok (start ++ suffix)
    | none => .error .malformed

/-- Reads what is said about a node in front of it: a name, a tag, or both in either order. -/
def properties (p : Parser) : Except Fault (Properties × Parser) := do
  match p.tokens with
  | .anchor name :: .tag handle suffix :: rest | .tag handle suffix :: .anchor name :: rest =>
    return (⟨some name, some (← p.fullTag handle suffix)⟩, { p with tokens := rest })
  | .anchor name :: rest => return (⟨some name, none⟩, { p with tokens := rest })
  | .tag handle suffix :: rest =>
    return (⟨none, some (← p.fullTag handle suffix)⟩, { p with tokens := rest })
  | _ => return (⟨none, none⟩, p)

/-- Gives a node its name. -/
def declare (p : Parser) (name : Option Text) (n : Node) : Parser :=
  match name with
  | some name => { p with anchors := (name, n) :: p.anchors }
  | none => p

/-- A scalar.  The tag `!` asks to look at its text, as for a plain scalar without a tag. -/
def scalarNode (tag : Option Text) (isPlain : Bool) (text : Text) : Node :=
  if tag == some ['!'] then .scalar none true text else .scalar tag isPlain text

/-- Whether the next token is one of those given. -/
def isAt (p : Parser) (ts : List Token) : Bool :=
  p.tokens.head?.any ts.contains

def beginsMember (p : Parser) : Bool :=
  p.isAt (if p.old then [.key] else [.key, .value])

mutual

/-- Reads a node; `fuel` bounds the nesting.  In a block, block collections may stand; `bare` says
that a list may stand here without an indentation of its own. -/
def node : Nat → Bool → Bool → Parser → Except Fault (Node × Parser)
  | 0, _, _, _ => .error .malformed
  | fuel + 1, block, bare, p => do
    match p.tokens with
    | .reference name :: rest =>
      match p.anchors.lookup name with
      | some n => return (n, { p with tokens := rest })
      | none => throw .malformed
    | _ =>
      let (said, q) ← p.properties
      let (n, r) ← content fuel block bare said q
      return (n, r.declare said.name n)

/-- Reads a node behind what is said about it. -/
def content : Nat → Bool → Bool → Properties → Parser → Except Fault (Node × Parser)
  | 0, _, _, _, _ => .error .malformed
  | fuel + 1, block, bare, said, p => do
    let tag := if said.tag == some ['!'] then none else said.tag
    match p.tokens with
    | .scalar text isPlain :: rest =>
      return (scalarNode said.tag isPlain text, { p with tokens := rest })
    | .flowListStart :: rest =>
      let (items, q) ← flowItems fuel true [] { p with tokens := rest }
      return (.list tag items, q)
    | .flowMappingStart :: rest =>
      let (members, q) ← flowMembers fuel true [] { p with tokens := rest }
      return (.mapping tag members, q)
    | t :: rest =>
      if t == .item && bare then
        let (items, q) ← bareItems fuel [] p
        return (.list tag items, q)
      else if t == .blockListStart && block then
        let (items, q) ← blockItems fuel [] { p with tokens := rest }
        return (.list tag items, q)
      else if t == .blockMappingStart && block then
        let (members, q) ← blockMembers fuel [] { p with tokens := rest }
        return (.mapping tag members, q)
      else if said.isEmpty then throw .malformed
      else return (scalarNode said.tag true [], p)
    | [] => if said.isEmpty then throw .malformed else return (scalarNode said.tag true [], p)

/-- Reads a node, unless one of the given tokens comes first. -/
def optional : Nat → List Token → Bool → Parser → Except Fault (Node × Parser)
  | 0, _, _, _ => .error .malformed
  | fuel + 1, stops, block, p =>
    if p.isAt stops then .ok (.empty, p) else node fuel block block p

/-- Reads the value of a member behind its colon, if there is one. -/
def memberValue : Nat → List Token → Bool → Parser → Except Fault (Node × Parser)
  | 0, _, _, _ => .error .malformed
  | fuel + 1, stops, block, p =>
    match p.tokens with
    | .value :: rest => optional fuel stops block { p with tokens := rest }
    | _ => .ok (.empty, p)

/-- Reads a member, which begins with a key or with a colon. -/
def member : Nat → List Token → Bool → Parser → Except Fault ((Node × Node) × Parser)
  | 0, _, _, _ => .error .malformed
  | fuel + 1, stops, block, p => do
    let (key, q) ← (match p.tokens with
      | .key :: rest => optional fuel (.value :: stops) block { p with tokens := rest }
      | _ => return (.empty, p))
    let valueStops := if block then .value :: stops else stops
    let (v, r) ← memberValue fuel valueStops block q
    return ((key, v), r)

/-- Reads the items of a block list behind those read so far. -/
def blockItems : Nat → List Node → Parser → Except Fault (List Node × Parser)
  | 0, _, _ => .error .malformed
  | fuel + 1, items, p => do
    match p.tokens with
    | .item :: rest =>
      let q := { p with tokens := rest }
      let (n, r) ← if q.isAt [.item, .blockEnd] then pure (.empty, q) else node fuel true false q
      blockItems fuel (items ++ [n]) r
    | .blockEnd :: rest => return (items, { p with tokens := rest })
    | _ => throw .malformed

/-- Reads the items of a list without an indentation of its own behind those read so far. -/
def bareItems : Nat → List Node → Parser → Except Fault (List Node × Parser)
  | 0, _, _ => .error .malformed
  | fuel + 1, items, p => do
    match p.tokens with
    | .item :: rest =>
      let q := { p with tokens := rest }
      let (n, r) ← if q.isAt [.item, .key, .value, .blockEnd] then pure (.empty, q)
        else node fuel true false q
      bareItems fuel (items ++ [n]) r
    | _ => return (items, p)

def blockMembers : Nat → List (Node × Node) → Parser → Except Fault (List (Node × Node) × Parser)
  | 0, _, _ => .error .malformed
  | fuel + 1, members, p => do
    match p.tokens with
    | .blockEnd :: rest => return (members, { p with tokens := rest })
    | _ =>
      if p.beginsMember then
        let (m, q) ← member fuel [.key, .blockEnd] true p
        blockMembers fuel (members ++ [m]) q
      else throw .malformed

/-- Reads the items of a flow list behind those read so far.  A comma stands in front of each but
the first; a member stands for a mapping of its own. -/
def flowItems : Nat → Bool → List Node → Parser → Except Fault (List Node × Parser)
  | 0, _, _, _ => .error .malformed
  | fuel + 1, first, items, p => do
    match p.tokens, first with
    | .flowListEnd :: rest, _ => return (items, { p with tokens := rest })
    | .comma :: .flowListEnd :: rest, false => return (items, { p with tokens := rest })
    | ts, _ =>
      let q ← (match ts, first with
        | _, true => pure p
        | .comma :: rest, false => pure { p with tokens := rest }
        | _, false => throw Fault.malformed)
      if q.isAt [.key] then
        let (m, r) ← member fuel [.comma, .flowListEnd] false q
        flowItems fuel false (items ++ [.mapping none [m]]) r
      else
        let (n, r) ← node fuel false false q
        flowItems fuel false (items ++ [n]) r

/-- Reads the members of a flow mapping behind those read so far.  A comma stands in front of each
but the first; a node alone is a key without a value. -/
def flowMembers : Nat → Bool → List (Node × Node) → Parser →
    Except Fault (List (Node × Node) × Parser)
  | 0, _, _, _ => .error .malformed
  | fuel + 1, first, members, p => do
    match p.tokens, first with
    | .flowMappingEnd :: rest, _ => return (members, { p with tokens := rest })
    | .comma :: .flowMappingEnd :: rest, false => return (members, { p with tokens := rest })
    | ts, _ =>
      let q ← (match ts, first with
        | _, true => pure p
        | .comma :: rest, false => pure { p with tokens := rest }
        | _, false => throw Fault.malformed)
      if q.beginsMember then
        let (m, r) ← member fuel [.comma, .flowMappingEnd] false q
        flowMembers fuel false (members ++ [m]) r
      else
        let (n, r) ← node fuel false false q
        flowMembers fuel false (members ++ [(n, .empty)]) r

end

/-! ## Documents -/

/-- What the directives in front of a document say. -/
structure Preamble where
  version : Option (Nat × Nat) := none
  handles : List (Text × Text) := []

/-- Reads the directives in front of a document.  None may stand there twice. -/
def directives (said : Preamble) : List Token → Except Fault (Preamble × List Token)
  | .directive .other :: rest => directives said rest
  | .directive (.version major minor) :: rest =>
    if said.version.isSome || major != 1 then .error .malformed
    else directives { said with version := some (major, minor) } rest
  | .directive (.abbreviation handle start) :: rest =>
    if said.handles.any (·.1 == handle) then .error .malformed
    else directives { said with handles := (handle, start) :: said.handles } rest
  | ts => .ok (said, ts)

/-- Whether a version of the format is known. -/
def isKnown (version : Option (Nat × Nat)) : Bool :=
  version.all [(1, 1), (1, 2)].contains

/-- Reads the content of a document behind its mark.  What its plain scalars stand for is known for
versions 1.1 and 1.2 only. -/
def explicitDocument (ts : List Token) : Except Fault (Node × Parser) := do
  match ← directives {} ts with
  | (said, .documentStart :: rest) =>
    let p : Parser := {
      tokens := rest
      handles := said.handles ++ defaultHandles
      old := said.version == some (1, 1) }
    if !isKnown said.version && rest.any (· matches .scalar _ true) then throw .noSuchVersion
    if rest.isEmpty || p.isAt [.documentStart, .documentEnd]
      || p.tokens.head?.any (fun t => t matches .directive _) then
      return (.empty, p)
    else node (8 * rest.length + 8) true false p
  | _ => throw .malformed

def firstDocument (ts : List Token) : Except Fault (Node × Parser) :=
  match ts with
  | .directive _ :: _ | .documentStart :: _ => explicitDocument ts
  | _ => node (8 * ts.length + 8) true false { tokens := ts, handles := defaultHandles }

end Parser

/-- The document of some tokens, of which there is one at most: its node, and whether it asks for
version 1.1 of the format. -/
def Node.ofTokens? (ts : List Token) : Except Fault (Option (Node × Bool)) := do
  if ts.isEmpty then return none
  let (n, p) ← Parser.firstDocument ts
  match p.tokens with
  | [] | [.documentEnd] => return some (n, p.old)
  | _ => throw .malformed

end Yaml
end AbapLayout
