import AbapLayout.Config.Value
import AbapLayout.Options.Basic

/-!
# Options from settings

Options are set by name.  A name may be written with hyphens instead of underscores; a later setting
of the same option wins.  The values are checked when all names are known to be options.
-/

namespace AbapLayout

inductive SettingsFault where
  | notAMapping
  /-- A name that is no option, as it is written. -/
  | unknownOption (name : String)
  | badKeywordCase (shown : String)
  | badChainStyle (shown : String)
  | badIndentWidth (shown : String)
  /-- The named option is a switch and its value is none. -/
  | notASwitch (name : String)
  /-- An override of something that is no option. -/
  | unknownOverride (name : String)
deriving DecidableEq, Repr

def SettingsFault.message : SettingsFault → String
  | .notAMapping => "Configuration root must be a mapping"
  | .unknownOption name => "Unknown option '" ++ name ++ "'"
  | .badKeywordCase shown =>
    "keyword_case must be one of ('upper', 'lower'), got '" ++ shown ++ "'"
  | .badChainStyle shown =>
    "chain_formatting must be one of ('preserve', 'expand'), got '" ++ shown ++ "'"
  | .badIndentWidth shown => "indent_width must be a positive integer, got '" ++ shown ++ "'"
  | .notASwitch name => name ++ " must be true or false"
  | .unknownOverride name => "Unknown override '" ++ name ++ "'"

/-- The values of all options before they are checked. -/
structure Settings where
  keywordCase : Value
  spaceBeforePeriod : Value
  spaceBeforeCommentSign : Value
  spaceAfterCommentSign : Value
  chainStyle : Value
  indentWidth : Value

namespace KeywordCase

/-- How a case is written in settings. -/
def name : KeywordCase → String
  | .upper => "upper"
  | .lower => "lower"

/-- The case that a setting asks for. -/
def ofValue? : Value → Option KeywordCase
  | .text "upper" => some .upper
  | .text "lower" => some .lower
  | _ => none

end KeywordCase

namespace ChainStyle

def name : ChainStyle → String
  | .preserve => "preserve"
  | .expand => "expand"

def ofValue? : Value → Option ChainStyle
  | .text "preserve" => some .preserve
  | .text "expand" => some .expand
  | _ => none

end ChainStyle

namespace Settings

def ofOptions (o : Options) : Settings :=
  { keywordCase := .text o.keywordCase.name
    spaceBeforePeriod := .bool o.spaceBeforePeriod
    spaceBeforeCommentSign := .bool o.spaceBeforeCommentSign
    spaceAfterCommentSign := .bool o.spaceAfterCommentSign
    chainStyle := .text o.chainStyle.name
    indentWidth := .int o.indentWidth }

/-- Sets the option of the given name, if there is one. -/
def set? (s : Settings) (name : String) (v : Value) : Option Settings :=
  match name with
  | "keyword_case" => some { s with keywordCase := v }
  | "space_before_period" => some { s with spaceBeforePeriod := v }
  | "space_before_comment_sign" => some { s with spaceBeforeCommentSign := v }
  | "space_after_comment_sign" => some { s with spaceAfterCommentSign := v }
  | "chain_formatting" => some { s with chainStyle := v }
  | "indent_width" => some { s with indentWidth := v }
  | _ => none

def switch (name : String) : Value → Except SettingsFault Bool
  | .bool b => .ok b
  | _ => .error (.notASwitch name)

/-- The options of some settings.  The named choices are checked first, then the width, then the
switches. -/
def check (s : Settings) : Except SettingsFault Options := do
  let some keywordCase := KeywordCase.ofValue? s.keywordCase
    | throw (.badKeywordCase s.keywordCase.shown)
  let some chainStyle := ChainStyle.ofValue? s.chainStyle
    | throw (.badChainStyle s.chainStyle.shown)
  match s.indentWidth with
  | .int n =>
    if h : 0 < n.toNat then
      let spaceBeforePeriod ← switch "space_before_period" s.spaceBeforePeriod
      let spaceBeforeCommentSign ← switch "space_before_comment_sign" s.spaceBeforeCommentSign
      let spaceAfterCommentSign ← switch "space_after_comment_sign" s.spaceAfterCommentSign
      return { keywordCase, chainStyle, spaceBeforePeriod, spaceBeforeCommentSign,
               spaceAfterCommentSign, indentWidth := n.toNat, indentWidth_pos := h }
    else throw (.badIndentWidth s.indentWidth.shown)
  | v => throw (.badIndentWidth v.shown)

/-- A name with underscores in place of hyphens. -/
def underscored (name : String) : String :=
  name.map fun c => if c = '-' then '_' else c

def setAll (s : Settings) : List (Value × Value) → Except SettingsFault Settings
  | [] => .ok s
  | (key, v) :: rest =>
    match s.set? (underscored key.shown) v with
    | none => .error (.unknownOption key.shown)
    | some next => next.setAll rest

/-- Overrides options one after the other; null overrides nothing. -/
def overrideAll (s : Settings) : List (String × Value) → Except SettingsFault Settings
  | [] => .ok s
  | (name, v) :: rest =>
    if v.isNull then s.overrideAll rest
    else
      match s.set? name v with
      | none => .error (.unknownOverride name)
      | some next => next.overrideAll rest

end Settings

namespace Options

/-- The options of a configuration; one that is void gives the defaults. -/
def ofValue (v : Value) : Except SettingsFault Options :=
  if v.isVoid then .ok Options.default
  else
    match v with
    | .mapping members =>
      match (Settings.ofOptions Options.default).setAll members with
      | .error fault => .error fault
      | .ok settings => settings.check
    | _ => .error .notAMapping

/-- Options with some of them overridden. -/
def merged (o : Options) (overrides : List (String × Value)) : Except SettingsFault Options :=
  match (Settings.ofOptions o).overrideAll overrides with
  | .error fault => .error fault
  | .ok settings => settings.check

end Options
end AbapLayout
