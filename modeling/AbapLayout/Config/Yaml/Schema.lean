import AbapLayout.Config.Yaml.Node
import AbapLayout.Config.Yaml.Number

/-!
# From nodes to values

Plain scalars stand for null, switches, numbers and dates by their written form, and for texts
otherwise; quoted scalars stand for texts.  A tag in front of a node overrides this.  In a mapping
the key `<<` takes over the members of other mappings, and no key stands twice.  Where version 1.1
of the format differs, `old` says that it is asked for.
-/

namespace AbapLayout
namespace Yaml

/-! ## Scalars -/

/-- What a scalar stands for. -/
inductive Kind where
  | null
  | switch
  | integer
  | real
  | timestamp
  | text
  /-- The key that takes over members. -/
  | merge
  /-- A key that stands for the value of its mapping. -/
  | standIn
  | list
  | mapping
  | unknown
deriving DecidableEq, Repr

def nulls : List String := ["", "~", "null", "Null", "NULL"]

def switches : List String := ["true", "True", "TRUE", "false", "False", "FALSE"]

def oldSwitches : List String :=
  ["y", "Y", "yes", "Yes", "YES", "n", "N", "no", "No", "NO", "on", "On", "ON", "off", "Off", "OFF"]

def Kind.ofPlain (old : Bool) (t : Text) : Kind :=
  let written := String.ofList t
  if nulls.contains written then .null
  else if switches.contains written || (old && oldSwitches.contains written) then .switch
  else if isReal old t then .real
  else if isInteger old t then .integer
  else if t == ['<', '<'] then .merge
  else if t == ['='] then .standIn
  else if Timestamp.isWritten t then .timestamp
  else .text

def Kind.ofTag (tag : Text) : Kind :=
  if !formatTag.isPrefixOf tag then .unknown
  else
    match String.ofList (tag.drop formatTag.length) with
    | "null" => .null
    | "bool" => .switch
    | "int" => .integer
    | "float" => .real
    | "timestamp" => .timestamp
    | "str" => .text
    | "merge" => .merge
    | "value" => .standIn
    | "seq" => .list
    | "map" => .mapping
    | _ => .unknown

def Kind.ofScalar (old : Bool) (tag : Option Text) (isPlain : Bool) (t : Text) : Kind :=
  match tag with
  | some name => .ofTag name
  | none => if isPlain then .ofPlain old t else .text

/-- The value of a switch, in any case of its letters. -/
def switchValue (t : Text) : Except Fault Value :=
  match String.ofList (t.map Char.toLower) with
  | "true" | "yes" | "y" | "on" => .ok (.bool true)
  | "false" | "no" | "n" | "off" => .ok (.bool false)
  | _ => .error .noSuchSwitch

def scalarValue (old : Bool) (kind : Kind) (t : Text) : Except Fault Value :=
  match kind with
  | .null => .ok .null
  | .switch => switchValue t
  | .integer => integerValue old t
  | .real => realValue old t
  | .timestamp =>
    match Timestamp.ofText? t with
    | some s => s.value
    | none => .error .malformed
  | .text => .ok (.text (String.ofList t))
  | .merge | .standIn | .list | .mapping | .unknown => .error .malformed

/-! ## Keys -/

/-- A value with numbers brought to one form: switches count as 0 and 1, and a floating-point number
without a fraction counts as an integer. -/
def canonical (v : Value) : Value :=
  match v with
  | .bool b => .int (if b then 1 else 0)
  | .real x =>
    match Integer.integral? x with
    | some n => .int n
    | none => v
  | _ => v

def sameScalar (v w : Value) : Bool :=
  match canonical v, canonical w with
  | .null, .null => true
  | .int m, .int n => m == n
  | .real x, .real y => x == y || (x.isNaN && y.isNaN)
  | .text s, .text t => s == t
  | .date d, .date e => d == e
  | .moment m, .moment n => m.isSame n
  | _, _ => false

def sameKey (v w : Value) : Bool :=
  match v, w with
  | .tuple xs, .tuple ys => xs.length == ys.length && (xs.zip ys).all fun p => sameScalar p.1 p.2
  | _, _ => sameScalar v w

/-- A value as a key.  A list becomes a tuple, and a mapping is no key. -/
def keyOf : Value → Except Fault Value
  | .list items => .ok (.tuple items)
  | .mapping _ => .error .malformed
  | v => .ok v

/-- Whether a key can be compared with others: it holds no list and no mapping. -/
def isComparable : Value → Bool
  | .tuple items => items.all fun
    | .list _ | .mapping _ => false
    | _ => true
  | _ => true

/-! ## Mappings -/

/-- Members with one more at the end; the key must be new. -/
def addMember (members : List (Value × Value)) (key v : Value) :
    Except Fault (List (Value × Value)) :=
  if !isComparable key then .error .nestedKey
  else if members.any fun m => sameKey m.1 key then .error .malformed
  else .ok (members ++ [(key, v)])

/-- Members with one more; it takes the place of one with the same key. -/
def putMember (members : List (Value × Value)) (key v : Value) :
    Except Fault (List (Value × Value)) :=
  if !isComparable key then .error .nestedKey
  else if members.any fun m => sameKey m.1 key then
    .ok (members.map fun m => if sameKey m.1 key then (m.1, v) else m)
  else .ok (members ++ [(key, v)])

/-- The members of a mapping: those it takes over, and its own. -/
structure Members where
  taken : List (Value × Value)
  own : List (Value × Value)

/-- The members of a mapping as a value.  Its own members win over those it takes over; if it takes
over none, no key may stand twice. -/
def Members.value (m : Members) : Except Fault Value := do
  let add := if m.taken.isEmpty then addMember else putMember
  return .mapping (← (m.taken ++ m.own).foldlM (fun acc p => add acc p.1 p.2) [])

/-- Whether a node is the key that takes over members. -/
def Node.isMerge (old : Bool) : Node → Bool
  | .scalar tag isPlain text => Kind.ofScalar old tag isPlain text == .merge
  | _ => false

/-- The key that stands for its own text, and not for the value of its mapping. -/
def Node.standIn? (old : Bool) : Node → Option Value
  | .scalar tag isPlain text =>
    if Kind.ofScalar old tag isPlain text == .standIn then some (.text (String.ofList text))
    else none
  | _ => none

mutual

def Node.value (old : Bool) : Node → Except Fault Value
  | .scalar tag isPlain text => scalarValue old (.ofScalar old tag isPlain text) text
  | .list tag items => do
    if tag.all fun t => Kind.ofTag t == .list then return .list (← itemValues old items)
    else throw .malformed
  | .mapping tag members => do
    if tag.all fun t => Kind.ofTag t == .mapping then
      if members.any (·.1.isMerge old) then (← memberValues old false ⟨[], []⟩ members).value
      else return .mapping (← memberValues old true ⟨[], []⟩ members).own
    else throw .malformed

def itemValues (old : Bool) : List Node → Except Fault (List Value)
  | [] => .ok []
  | n :: rest => do
    let v ← n.value old
    return v :: (← itemValues old rest)

/-- The values of the members of a mapping behind those read so far.  If they are checked, no key
may stand twice. -/
def memberValues (old checked : Bool) (m : Members) :
    List (Node × Node) → Except Fault Members
  | [] => .ok m
  | (k, v) :: rest => do
    if k.isMerge old then
      if m.taken.isEmpty then memberValues old checked ⟨← takenMembers old v, m.own⟩ rest
      else throw .malformed
    else
      let key ← match k.standIn? old with
        | some key => pure key
        | none => do keyOf (← k.value old)
      let value ← v.value old
      let own ← if checked then addMember m.own key value else pure (m.own ++ [(key, value)])
      memberValues old checked ⟨m.taken, own⟩ rest

/-- The members that a mapping takes over from a node: a mapping, or a list of mappings of which
later ones come first. -/
def takenMembers (old : Bool) : Node → Except Fault (List (Value × Value))
  | .scalar _ _ _ => .error .malformed
  | .list _ items => do return (← takenLists old items).reverse.flatten
  | .mapping _ members => do
    let m ← memberValues old false ⟨[], []⟩ members
    return m.taken ++ m.own

/-- The members that a mapping takes over from the items of a list. -/
def takenLists (old : Bool) : List Node → Except Fault (List (List (Value × Value)))
  | [] => .ok []
  | .mapping _ members :: rest => do
    let m ← memberValues old false ⟨[], []⟩ members
    return (m.taken ++ m.own) :: (← takenLists old rest)
  | _ :: _ => .error .malformed

end

/-! ## Documents -/

/-- The value of a document. -/
def read (t : Text) : Except Fault Value := do
  if t.all isAllowed then
    match ← Node.ofTokens? (← tokens t) with
    | some (n, old) => n.value old
    | none => return .null
  else throw .malformed

end Yaml
end AbapLayout
