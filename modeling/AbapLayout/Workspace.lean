import AbapLayout.Config.Integer
import AbapLayout.FileTree.Glob
import AbapLayout.Report
import AbapLayout.Text.Utf8
import AbapLayout.Validation

/-!
# Formatting files

A workspace is a directory whose files are formatted.  A file is written only if its formatted text
differs and was accepted, and only after its old bytes have been copied to a path where nothing was
before.  Writing goes to a temporary file that then takes the place of the old one.
-/

namespace AbapLayout

/-- A directory with the options for its files. -/
structure Workspace where
  directory : Path
  options : Options

/-- The result of an operation on files: its value, the files afterwards, and what was reported. -/
structure Outcome (α : Type) where
  value : α
  tree : FileTree
  log : List LogEntry

/-- Why an operation on a workspace ends without a report. -/
inductive WorkspaceFault where
  /-- It cannot be told where a path leads. -/
  | path (fault : PathFault)
  | file (fault : FileFault)
  /-- A backup was made outside of the workspace. -/
  | outside
  /-- The greatest depth is infinite. -/
  | depthOverflow
  /-- The extensions are no list. -/
  | noExtensions
  /-- An extension is no text. -/
  | badExtension
  /-- Two asterisks stand beside something else in an extension. -/
  | badPattern
  /-- The age of backups is no number. -/
  | badHours
  /-- The age of backups is too large a number. -/
  | hoursOverflow
deriving DecidableEq, Repr

namespace Workspace

def backupSuffix : String := ".abaptidy.backup"

def temporarySuffix : String := ".abaptidy.tmp"

/-- The files that are formatted if nothing else is asked for. -/
def defaultExtensions : List String := [".abap", ".clas.macros"]

/-- Enters a directory as a workspace; it is made if it is not there. -/
def enter (t : FileTree) (directory : Path) (o : Options) :
    Outcome (Except WorkspaceFault Workspace) :=
  let notices := Layout.optionNotices o
  match t.nameFault? directory with
  | some fault => ⟨.error (.file fault), t, notices⟩
  | none =>
    if t.exists? directory then ⟨.ok ⟨directory, o⟩, t, notices⟩
    else
      let log := notices ++
        [⟨.workspace, .info, "Creating missing workspace: " ++ t.display directory⟩]
      match t.makeDirectories directory with
      | .ok made => ⟨.ok ⟨directory, o⟩, made, log⟩
      | .error fault => ⟨.error (.file fault), t, log⟩

/-- Enters the directory that a path leads to, seen from the home. -/
def enterAt (t : FileTree) (path : String) (o : Options) :
    Outcome (Except WorkspaceFault Workspace) :=
  match t.resolve t.home path with
  | .error fault => ⟨.error (.path fault), t, []⟩
  | .ok directory => enter t directory o

/-! ## Single files -/

def errorReport (path : String) (status : Status) (error : String) : Report :=
  { path := some path, status, error := some error }

def deriveStatus (modified dryRun valid : Bool) : Status :=
  if !modified then .unchanged
  else if !valid then .failed
  else if dryRun then .preview
  else .formatted

/-- A text, its formatted form, and whether that is accepted. -/
structure Draft where
  source : Text
  formatted : Formatted
  verdict : Verdict

def Draft.modified (d : Draft) : Bool :=
  d.source != d.formatted.text

/-- Reads and formats a file; the error is what is reported if this fails. -/
def draft (t : FileTree) (o : Options) (p : Path) : Except String Draft × List LogEntry :=
  let name := p.getLast?.getD ""
  match t.read p with
  | .error fault => (.error fault.message, [])
  | .ok bytes =>
    match Text.ofFile? bytes with
    | none => (.error "'utf-8' codec can't decode", [])
    | some source =>
      match Layout.format o source (some name) with
      | .error fault => (.error fault.message, [])
      | .ok formatted =>
        (.ok ⟨source, formatted, validate source formatted.text⟩, formatted.notices (some name))

/-- The report on a file before anything is written. -/
def draftReport (path : String) (dryRun : Bool) (d : Draft) : Report :=
  { path := some path
    status := deriveStatus d.modified dryRun d.verdict.accepts
    success := d.verdict.accepts
    changed := d.modified
    fallback := d.formatted.rejection.isSome
    fallbackReason := d.formatted.rejection.map Rejection.message
    formattedText := if d.modified then some (String.ofList d.formatted.text) else none
    sourceText := some (String.ofList d.source)
    validationError := some (if d.verdict.accepts then "" else d.verdict.message) }

def backupName (n : Nat) (name : String) : String :=
  if n = 0 then name ++ backupSuffix else name ++ "-" ++ toString n ++ backupSuffix

/-- The path of the first backup that is not there yet. -/
def freeBackup (t : FileTree) (p : Path) : Path :=
  let candidate := fun n => Path.sibling p (backupName n)
  let count := t.entries.length
  candidate (((List.range count).find? fun n => !t.exists? (candidate n)).getD count)

/-- Puts a text in the place of a file, by way of a temporary file.  The error is what is reported
if this fails; the temporary file is then removed as far as it is there. -/
def replaceFile (t : FileTree) (p : Path) (text : Text) : Except String Unit × FileTree :=
  let temporary := Path.sibling p (· ++ temporarySuffix)
  match t.write temporary (Text.toUtf8 text) .fresh with
  | .ok written => (.ok (), written.rename temporary p)
  | .error fault =>
    let message := "Atomic write failed: " ++ fault.message
    if t.exists? temporary then
      match t.remove temporary with
      | .ok removed => (.error message, removed)
      | .error second => (.error second.message, t)
    else (.error message, t)

/-- Copies a file to a new backup and notes this in its report. -/
def backUp (t : FileTree) (w : Workspace) (p : Path) (r : Report) :
    Except WorkspaceFault Report × FileTree :=
  let backup := freeBackup t p
  match t.nameFault? backup, t.copy p backup with
  | some fault, _ => (.error (.file fault), t)
  | none, .error fault =>
    (.ok { r with backupWarning := some ("Backup failed: " ++ fault.message) }, t)
  | none, .ok copied =>
    match Path.below? w.directory backup with
    | some relative => (.ok { r with backup := some (Path.text relative) }, copied)
    | none => (.error .outside, copied)

/-- Writes the formatted text of a file and notes this in its report. -/
def writeBack (t : FileTree) (p : Path) (text : Text) (r : Report) : Report × FileTree :=
  match replaceFile t p text with
  | (.ok _, written) => ({ r with written := true }, written)
  | (.error message, left) => ({ r with writeError := some message, success := false }, left)

/-- Saves a formatted text: a backup first, then the file. -/
def save (t : FileTree) (w : Workspace) (p : Path) (text : Text) (r : Report) :
    Except WorkspaceFault Report × FileTree :=
  match backUp t w p r with
  | (.error fault, left) => (.error fault, left)
  | (.ok noted, copied) =>
    let (final, written) := writeBack copied p text noted
    (.ok final, written)

/-- Formats a file that is there. -/
def formatAt (t : FileTree) (w : Workspace) (path : String) (p : Path) (dryRun : Bool) :
    Outcome (Except WorkspaceFault Report) :=
  match draft t w.options p with
  | (.error message, log) =>
    ⟨.ok (errorReport path .engineError message), t,
      log ++ [⟨.workspace, .error, "Error processing " ++ path ++ ": " ++ message⟩]⟩
  | (.ok d, log) =>
    let report := draftReport path dryRun d
    if !dryRun && d.modified && d.verdict.accepts then
      let (value, saved) := save t w p d.formatted.text report
      ⟨value, saved, log⟩
    else ⟨.ok report, t, log⟩

/-- Formats the file that a path in the workspace leads to.  In a dry run nothing is written. -/
def formatFile (t : FileTree) (w : Workspace) (path : String) (dryRun : Bool) :
    Outcome (Except WorkspaceFault Report) :=
  match t.resolve w.directory path with
  | .error fault => ⟨.error (.path fault), t, []⟩
  | .ok p =>
    match t.nameFault? p with
    | some fault => ⟨.error (.file fault), t, []⟩
    | none =>
      if t.exists? p then formatAt t w path p dryRun
      else ⟨.ok (errorReport path .fileNotFound ("Path missing: " ++ t.display p)), t, []⟩

/-! ## Many files -/

/-- The patterns of some extensions; each may stand behind any name. -/
def patterns (extensions : List String) : Except WorkspaceFault (List Glob.Pattern) :=
  match extensions.mapM fun e => Glob.Pattern.ofText? ("*" ++ e) with
  | some ps => .ok ps
  | none => .error .badPattern

/-- Extensions in small and in capital letters. -/
def bothCases (extensions : List String) : List String :=
  extensions.flatMap fun e =>
    [String.ofList (Text.lower e.toList), String.ofList (Text.upper e.toList)]

def readExtension : Value → Except WorkspaceFault String
  | .text s => .ok s
  | _ => .error .badExtension

/-- The extensions that a value asks for: a text, the items of a list, or the keys of a mapping. -/
def readExtensions : Value → Except WorkspaceFault (List String)
  | .text s => .ok [s]
  | .list items | .tuple items => items.mapM readExtension
  | .mapping members => members.mapM fun m => readExtension m.1
  | _ => .error .noExtensions

/-- Formats files one after the other, until one of them ends without a report. -/
def formatAll (t : FileTree) (w : Workspace) (dryRun : Bool) :
    List String → Outcome (Except WorkspaceFault (List Report))
  | [] => ⟨.ok [], t, []⟩
  | path :: rest =>
    let first := formatFile t w path dryRun
    match first.value with
    | .error fault => ⟨.error fault, first.tree, first.log⟩
    | .ok report =>
      let others := formatAll first.tree w dryRun rest
      ⟨others.value.map (report :: ·), others.tree, first.log ++ others.log⟩

/-- The greatest number of names on the way to a file, if nothing else is asked for. -/
def defaultDepth : Int := 10

/-- The greatest depth that a value asks for; a value that is no integer is reported. -/
def readDepth (v : Value) : Except WorkspaceFault Int × List LogEntry :=
  match Integer.ofValue v with
  | .integer n => (.ok n, [])
  | .overflow => (.error .depthOverflow, [])
  | .notAnInteger =>
    (.ok defaultDepth,
      [⟨.workspace, .warning,
        "Invalid max_depth '" ++ v.shown ++ "'. Falling back to default: 10"⟩])

/-- What a scan of a workspace gives: the number of files found, and the reports on those that were
not too deep. -/
structure Scan where
  found : Nat
  reports : List Report

/-- Formats all files of a workspace with one of some extensions, down to the given depth. -/
def scan (t : FileTree) (w : Workspace) (extensions : Value) (dryRun : Bool) (depth : Value) :
    Outcome (Except WorkspaceFault Scan) :=
  match readDepth depth with
  | (.error fault, log) => ⟨.error fault, t, log⟩
  | (.ok limit, log) =>
    match (readExtensions extensions).bind fun es => patterns (bothCases es) with
    | .error fault => ⟨.error fault, t, log⟩
    | .ok ps =>
      let files := (t.findFiles w.directory ps).map (·.drop w.directory.length)
      let near := files.filter fun p => (p.length : Int) ≤ limit
      let result := formatAll t w dryRun (near.map Path.text)
      ⟨result.value.map fun reports => ⟨files.length, reports⟩, result.tree, log ++ result.log⟩

/-! ## Old backups -/

/-- The least age at which a backup is removed. -/
inductive Limit where
  | hours (h : Rat)
  /-- All backups are removed. -/
  | always
  /-- No backup is removed. -/
  | never

/-- Whether a file of the given age is removed. -/
def Limit.isReached (limit : Limit) (age : Age) : Bool :=
  match limit with
  | .hours h => h ≤ age.hours
  | .always => true
  | .never => false

/-- The exact value of a finite floating-point number. -/
def exactly (x : Float) : Rat :=
  let b := Decimal.Binary.ofBits x.toBits
  let size : Rat := if b.exponent < 0 then mkRat b.mantissa (Nat.pow 2 (-b.exponent).toNat)
    else ((b.mantissa * Nat.pow 2 b.exponent.toNat : Nat) : Rat)
  if Decimal.isUnsigned x then size else -size

/-- The limit that a value asks for, in hours. -/
def readHours : Value → Except WorkspaceFault Limit
  | .bool b => .ok (.hours (if b then 1 else 0))
  | .int n =>
    if Nat.pow 2 1024 ≤ n.natAbs * 3600 then .error .hoursOverflow else .ok (.hours n)
  | .real x =>
    if x.isNaN then .ok .never
    else if x.isInf then .ok (if Decimal.isUnsigned x then .never else .always)
    else .ok (.hours (exactly x))
  | _ => .error .badHours

/-- Removes the backups at the given paths that reach an age, and counts them. -/
def removeOld (limit : Limit) (t : FileTree) : List Path → Nat × FileTree
  | [] => (0, t)
  | p :: rest =>
    match t.age? p with
    | none => removeOld limit t rest
    | some age =>
      if limit.isReached age then
        match t.remove p with
        | .ok removed =>
          let (count, left) := removeOld limit removed rest
          (count + 1, left)
        | .error _ => removeOld limit t rest
      else removeOld limit t rest

/-- The hours after which backups are removed, if nothing else is asked for. -/
def defaultBackupHours : Int := 168

def backupPattern : Glob.Pattern :=
  ⟨[.pattern ('*' :: backupSuffix.toList)], false⟩

/-- Removes backups of at least the given number of hours and counts them. -/
def cleanUp (t : FileTree) (w : Workspace) (hours : Value) :
    Except WorkspaceFault (Nat × FileTree) := do
  let limit ← readHours hours
  return removeOld limit t (t.find w.directory [backupPattern])

end Workspace
end AbapLayout
