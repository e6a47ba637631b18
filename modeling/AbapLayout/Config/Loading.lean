import AbapLayout.Config.Yaml.Schema
import AbapLayout.FileTree.Basic
import AbapLayout.Log
import AbapLayout.Options.Settings
import AbapLayout.Text.Utf8

/-!
# Finding and loading options

Options stand in a file of a fixed name, in the directory of what is formatted or in one above it;
the nearest one counts.  Overrides win over what the file says.

How the text of a file is read is a parameter, `Config.Reader`, so that nothing said about loading
depends on it.  Programs read the files as YAML documents.
-/

namespace AbapLayout

inductive ConfigFault where
  /-- The file is not there or malformed. -/
  | unreadable (path : String)
  /-- The path of the file holds the character U+0000. -/
  | badPath
  /-- The file is not UTF-8. -/
  | undecodable
  /-- Something in the file stands for no value. -/
  | document (fault : Yaml.Fault)
  | settings (fault : SettingsFault)
deriving DecidableEq, Repr

def ConfigFault.message : ConfigFault → String
  | .unreadable path => "Unable to read configuration " ++ path
  | .badPath => "embedded null byte"
  | .undecodable => "'utf-8' codec can't decode"
  | .document _ => "Something in the configuration stands for no value"
  | .settings fault => fault.message

namespace Config

/-- What reads the text of a configuration file. -/
class Reader where
  read : Text → Except Yaml.Fault Value

/-- The names of configuration files, the preferred one first. -/
def fileNames : List String :=
  [".abaptidy.yaml", ".abaptidy.yml"]

/-- A configuration file: where it is, and how it is called. -/
structure Location where
  path : Path
  shown : String
deriving DecidableEq, Repr

/-- The location of a path in displayed form, seen from the home.  How it is called is said
separately. -/
def Location.ofText (t : FileTree) (s shown : String) : Location :=
  { path := (if s.startsWith "/" then [] else t.home) ++ Path.steps s, shown }

/-- The directory and all directories above it, the nearest one first. -/
def upwards (directory : Path) : List Path :=
  (List.range (directory.length + 1)).map fun n => directory.take (directory.length - n)

/-- The nearest configuration file at or above a path. -/
def find (t : FileTree) (start : Path) : Except FileFault (Option Path) :=
  match t.nameFault? start with
  | some fault => .error fault
  | none =>
    let directory := if t.isFile start then start.dropLast else start
    let candidates := (upwards directory).flatMap fun d => fileNames.map fun name => d ++ [name]
    .ok (candidates.find? t.isFile)

section

variable [Reader]

def readFile (t : FileTree) (l : Location) : Except ConfigFault Value :=
  if l.shown.contains '\x00' then .error .badPath
  else
    match t.read l.path with
    | .error _ => .error (.unreadable l.shown)
    | .ok bytes =>
      match Text.ofUtf8? bytes with
      | none => .error .undecodable
      | some text =>
        match Reader.read text with
        | .error .malformed => .error (.unreadable l.shown)
        | .error fault => .error (.document fault)
        | .ok v => .ok v

/-- The options of a configuration file, or the defaults, and what is reported about them. -/
def base (t : FileTree) : Option Location → Except ConfigFault (Options × List LogEntry)
  | none => .ok (Options.default, [])
  | some l =>
    match readFile t l with
    | .error fault => .error fault
    | .ok v =>
      match Options.ofValue v with
      | .error fault => .error (.settings fault)
      | .ok o => .ok (o, [⟨.config, .info, "Loaded formatter options from " ++ l.shown⟩])

/-- The options of a configuration file with overrides, and what is reported about them. -/
def load (t : FileTree) (location : Option Location) (overrides : List (String × Value)) :
    Except ConfigFault Options × List LogEntry :=
  match base t location with
  | .error fault => (.error fault, [])
  | .ok (o, log) =>
    match o.merged overrides with
    | .error fault => (.error (.settings fault), log)
    | .ok merged => (.ok merged, log)

end

instance : Reader where
  read := Yaml.read

end Config
end AbapLayout
