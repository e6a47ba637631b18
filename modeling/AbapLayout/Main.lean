import AbapLayout.Command.Run

/-!
# The program

Reads the files below the working directory, runs a command on them, shows what the command shows,
and writes back what it changed.  All decisions are made by `Command.run`, with configuration files
read as YAML documents.
-/

namespace AbapLayout
namespace Main

/-! ## Showing -/

/-- A text without the names of its styles; `inside` says whether it starts inside of brackets. -/
def withoutStyles (inside : Bool) : Text → Text
  | [] => []
  | c :: cs =>
    if inside then withoutStyles (c != ']') cs
    else if c == '[' && cs.head?.any fun d => d.isLower || d == '/' then withoutStyles true cs
    else c :: withoutStyles false cs

/-- A text as it is shown where there are no styles. -/
def plain (s : String) : String :=
  String.ofList (withoutStyles false s.toList)

def linesOf : Shown → List String
  | .text s => [plain s]
  | .panel body title _ => title.toList.map plain ++ [plain body]
  | .table title headers rows =>
    [title, " | ".intercalate headers] ++ rows.map fun row => " | ".intercalate (row.map plain)

/-- Shows things one after the other, and reports warnings and errors beside them. -/
def display (items : List Shown) (log : List LogEntry) : IO Unit := do
  for entry in log do
    if entry.severity != .info then
      IO.eprintln entry.message
  for line in items.flatMap linesOf do
    IO.println line

/-- The answer in the next line of the standard input. -/
def readAnswer : IO Command.Answer := do
  let line ← (← IO.getStdin).getLine
  if line.isEmpty then return .endOfInput
  return .line (String.ofList (line.toList.filter (· != '\n')))

/-! ## Files -/

/-- What is found below a directory, which itself stands at `path` in the tree.  A link that leads
nowhere is taken to lead to itself.  No command looks at the age of a file, so all of them are
fresh. -/
partial def readEntries (path : Path) (directory : String) : IO (List (Path × Node)) := do
  let mut entries := []
  for entry in ← (← IO.FS.realPath directory).readDir do
    let here := path ++ [entry.fileName]
    let metadata ← entry.path.symlinkMetadata
    match metadata.type with
    | .dir =>
      let below ← readEntries here entry.path.toString
      entries := entries ++ (here, .directory) :: below
    | .file =>
      let bytes ← IO.FS.readBinFile entry.path
      entries := entries ++ [(here, .file bytes.toList .fresh)]
    | .symlink =>
      let target ← try IO.FS.realPath entry.path catch _ => pure entry.path
      entries := entries ++ [(here, .link target.toString)]
    | .other => pure ()
  return entries

def readTree : IO FileTree := do
  let root ← IO.currentDir
  let home := Path.steps root.toString
  return { root := root.toString, home, entries := ← readEntries home root.toString }

/-- Writes back what a run has changed: new files first, so that a backup is there before the file
it was made of is replaced. -/
def writeTree (before after : FileTree) : IO Unit := do
  let changed := after.entries.filter fun e => before.node? e.1 != some e.2
  let (fresh, replaced) := changed.partition fun e => (before.node? e.1).isNone
  for (path, node) in fresh ++ replaced do
    match node with
    | .file bytes _ =>
      let temporary := after.display (Path.sibling path (· ++ Workspace.temporarySuffix))
      IO.FS.writeBinFile temporary ⟨bytes.toArray⟩
      IO.FS.rename temporary (after.display path)
    | .directory => IO.FS.createDirAll (after.display path)
    | .link _ => pure ()
  for (path, _) in before.entries do
    if (after.node? path).isNone then
      IO.FS.removeFile (after.display path)

/-! ## Running -/

/-- Ends a run: its changes are written and what it shows is shown. -/
def conclude (before : FileTree) (e : Command.Ending) : IO UInt32 := do
  writeTree before e.tree
  display e.shown e.log
  match e.status with
  | .ok status => return status.toUInt32
  | .error _ => return 1

/-- Runs a command below the working directory and gives its status. -/
def runCommand (arguments : List String) : IO UInt32 := do
  let tree ← readTree
  match Command.run tree arguments with
  | .finished e => conclude tree e
  | .waiting shown log resume =>
    display shown log
    conclude tree (resume (← readAnswer))

end Main
end AbapLayout

def main (arguments : List String) : IO UInt32 :=
  AbapLayout.Main.runCommand arguments
