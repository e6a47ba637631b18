import AbapLayout.Config.Integer

/-!
# Command-line arguments

The two commands `fix` and `check` with their flags.  A long flag may be cut short as long as only
one flag begins like that; its value stands behind an equals sign or in the next argument.  Flags of
one letter may be joined, also with an equals sign behind the first of them.  Behind `--` no
argument is a flag, and a negative number never is one.
-/

namespace AbapLayout

inductive Mode where
  | check
  | fix
deriving DecidableEq, Repr

structure Request where
  mode : Mode
  /-- The file or directory, as it is written. -/
  path : String
  dryRun : Bool := false
  yes : Bool := false
  yesAll : Bool := false
  /-- Differences are shown. -/
  diff : Bool := false
  /-- The configuration file, as it is written. -/
  config : Option String := none
  /-- The names of files end in one of these. -/
  extensions : List String := []
  /-- Options that win over those of the configuration file. -/
  overrides : List (String × Value) := []

namespace Arguments

inductive Action where
  | help
  | version
  | dryRun
  | yes
  | yesAll
  | diff
  | config
  | extension
  | switch (option : String) (on : Bool)
  | choice (option : String) (values : List String)
  | width (option : String)
deriving DecidableEq, Repr

def Action.takesValue : Action → Bool
  | .config | .extension | .choice _ _ | .width _ => true
  | _ => false

abbrev Flags := List (String × Action)

def mainFlags : Flags :=
  [("-h", .help), ("--help", .help), ("-v", .version), ("--version", .version)]

def commonFlags : Flags :=
  [("-h", .help), ("--help", .help), ("--config", .config),
   ("--keyword-case", .choice "keyword_case" ["upper", "lower"]),
   ("--indent-width", .width "indent_width"),
   ("--chain-formatting", .choice "chain_formatting" ["preserve", "expand"]),
   ("--space-before-period", .switch "space_before_period" true),
   ("--no-space-before-comment-sign", .switch "space_before_comment_sign" false),
   ("--no-space-after-comment-sign", .switch "space_after_comment_sign" false),
   ("--ext", .extension), ("--diff", .diff)]

def flagsOf : Mode → Flags
  | .check => commonFlags
  | .fix =>
    commonFlags ++ [("--dry-run", .dryRun), ("-y", .yes), ("--yes", .yes), ("--yes-all", .yesAll)]

/-- An argument by its form. -/
inductive Item where
  /-- The mark behind which no argument is a flag. -/
  | mark
  | plain (s : String)
  /-- A flag, which may have a value attached. -/
  | flag (action : Action) (attached : Option String)
  /-- Joined flags of one letter. -/
  | joined (actions : List Action)
  /-- A known flag in a form it does not have. -/
  | malformed
  | unknown
deriving DecidableEq, Repr

/-- A text in front of the first equals sign and behind it. -/
def splitEquals? (s : String) : Option (String × String) :=
  let cs := s.toList
  let name := cs.takeWhile (· != '=')
  if name.length < cs.length then
    some (String.ofList name, String.ofList (cs.drop (name.length + 1)))
  else none

def isNegativeNumber (s : String) : Bool :=
  match s.toList with
  | '-' :: cs =>
    let whole := cs.takeWhile Text.isDecimalDigit
    match cs.drop whole.length with
    | [] => !whole.isEmpty
    | '.' :: rest => !rest.isEmpty && rest.all Text.isDecimalDigit
    | _ => false
  | _ => false

/-- Joined flags of one letter behind those read so far; each letter must be a flag. -/
def joinLetters (flags : Flags) (actions : List Action) : Text → Item
  | [] => .joined actions
  | c :: cs =>
    match flags.lookup (String.ofList ['-', c]) with
    | some action => joinLetters flags (actions ++ [action]) cs
    | none => .malformed

/-- A flag with what is attached to it: its value, or flags of one letter behind one of them. -/
def withAttached (flags : Flags) (name : String) (action : Action) (attached : String) : Item :=
  if action.takesValue then .flag action (some attached)
  else if name.startsWith "--" || attached.isEmpty then .malformed
  else joinLetters flags [action] attached.toList

/-- The flags that begin like an argument. -/
def candidates (flags : Flags) (s : String) : List (String × Action × Option String) :=
  if s.startsWith "--" then
    let (name, value) : String × Option String := match splitEquals? s with
      | some (name, value) => (name, some value)
      | none => (s, none)
    (flags.filter fun f => f.1.startsWith name).map fun f => (f.1, f.2, value)
  else
    let short := String.ofList (s.toList.take 2)
    flags.filterMap fun f =>
      if f.1 = short then some (f.1, f.2, some (String.ofList (s.toList.drop 2)))
      else if f.1.startsWith s then some (f.1, f.2, none)
      else none

/-- The form of an argument in front of the mark; `none` if more than one flag begins like it. -/
def itemOf (flags : Flags) (s : String) : Option Item :=
  if !s.startsWith "-" || s.length = 1 then some (.plain s)
  else
    match flags.lookup s with
    | some action => some (.flag action none)
    | none =>
      let exact := match splitEquals? s with
        | some (name, attached) =>
          (flags.lookup name).map fun action => withAttached flags name action attached
        | none => none
      match exact, candidates flags s with
      | some item, _ => some item
      | none, [(_, action, none)] => some (.flag action none)
      | none, [(name, action, some value)] => some (withAttached flags name action value)
      | none, _ :: _ :: _ => none
      | none, [] =>
        if isNegativeNumber s || s.contains ' ' then some (.plain s) else some .unknown

def itemsOf (flags : Flags) : List String → Option (List Item)
  | [] => some []
  | "--" :: rest => some (.mark :: rest.map .plain)
  | s :: rest =>
    match itemOf flags s, itemsOf flags rest with
    | some item, some items => some (item :: items)
    | _, _ => none

inductive Parsed where
  /-- The program ends with this status. -/
  | stop (status : Nat)
  | request (r : Request)

/-- What has been read of the arguments of a command. -/
structure Progress where
  request : Request
  path : Option String := none
  /-- There are arguments too many. -/
  surplus : Bool := false

/-- The effect of a flag without a value; `none` if the program ends with its help. -/
def apply (p : Progress) (action : Action) : Option Progress :=
  let r := p.request
  match action with
  | .help | .version => none
  | .dryRun => some { p with request := { r with dryRun := true } }
  | .yes => some { p with request := { r with yes := true } }
  | .yesAll => some { p with request := { r with yesAll := true } }
  | .diff => some { p with request := { r with diff := true } }
  | .switch option on =>
    some { p with request := { r with overrides := r.overrides ++ [(option, .bool on)] } }
  | _ => some p

def applyAll (p : Progress) : List Action → Option Progress
  | [] => some p
  | action :: rest =>
    match apply p action with
    | some next => applyAll next rest
    | none => none

/-- The effect of a flag with a value; `none` if the value is not allowed. -/
def applyValue (p : Progress) (action : Action) (value : String) : Option Progress :=
  let r := p.request
  match action with
  | .config => some { p with request := { r with config := some value } }
  | .extension => some { p with request := { r with extensions := r.extensions ++ [value] } }
  | .choice option values =>
    if values.contains value then
      some { p with request := { r with overrides := r.overrides ++ [(option, .text value)] } }
    else none
  | .width option =>
    match Integer.ofText? value.toList with
    | some n => some { p with request := { r with overrides := r.overrides ++ [(option, .int n)] } }
    | none => none
  | _ => none

def Progress.finish (p : Progress) : Parsed :=
  match p.path with
  | some path => if p.surplus then .stop 2 else .request { p.request with path }
  | none => .stop 2

/-- Reads the arguments of a command one after the other.  `markBelongs` says whether the mark may
stand here without being an argument too many. -/
def readItems (p : Progress) (markBelongs : Bool) : List Item → Parsed
  | [] => p.finish
  | .mark :: rest =>
    if markBelongs || p.path.isNone then readItems p markBelongs rest
    else readItems { p with surplus := true } false rest
  | .plain s :: rest =>
    if p.path.isNone then readItems { p with path := some s } true rest
    else readItems { p with surplus := true } false rest
  | .unknown :: rest => readItems { p with surplus := true } false rest
  | .malformed :: _ => .stop 2
  | .flag action none :: rest =>
    if action.takesValue then
      match rest with
      | .plain s :: more =>
        match applyValue p action s with
        | some next => readItems next false more
        | none => .stop 2
      | _ => .stop 2
    else
      match apply p action with
      | some next => readItems next false rest
      | none => .stop 0
  | .flag action (some value) :: rest =>
    match applyValue p action value with
    | some next => readItems next false rest
    | none => .stop 2
  | .joined actions :: rest =>
    match applyAll p actions with
    | some next => readItems next false rest
    | none => .stop 0

def modeOf? (s : String) : Option Mode :=
  match s with
  | "fix" => some .fix
  | "check" => some .check
  | _ => none

/-- Reads the arguments of a command; with `surplus` an unknown argument stands in front of it. -/
def readCommand (surplus : Bool) (name : String) (arguments : List String) : Parsed :=
  match modeOf? name with
  | none => .stop 2
  | some mode =>
    match itemsOf (flagsOf mode) arguments with
    | none => .stop 2
    | some items => readItems { request := { mode, path := "" }, surplus } false items

/-- Reads arguments up to the command, where `items` are their forms. -/
def readMain (surplus : Bool) : List Item → List String → Parsed
  | .plain s :: _, _ :: arguments => readCommand surplus s arguments
  | .unknown :: items, _ :: arguments => readMain true items arguments
  | .flag _ _ :: _, _ | .joined _ :: _, _ => .stop 0
  | _, _ => .stop 2

def parse (arguments : List String) : Parsed :=
  match itemsOf mainFlags arguments with
  | none => .stop 2
  | some items => readMain false items arguments

end Arguments
end AbapLayout
