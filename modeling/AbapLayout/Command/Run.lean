import AbapLayout.Command.Arguments
import AbapLayout.Config.Loading
import AbapLayout.Display
import AbapLayout.Workspace

/-!
# Running a command

`check` reports which files would change, and `fix` writes them after asking for consent.  A run is
a conversation of at most one question: it is finished, or it waits for an answer.
-/

namespace AbapLayout
namespace Command

def version : String := "1.0.0"

inductive Answer where
  | line (s : String)
  /-- The user breaks off. -/
  | interrupt
  | endOfInput
deriving DecidableEq, Repr

/-- Why a run ends without a status. -/
inductive Fault where
  | endOfInput
  /-- The configuration cannot be loaded, for a reason that is not displayed. -/
  | config (fault : ConfigFault)
  | workspace (fault : WorkspaceFault)
deriving DecidableEq, Repr

/-- The end of a run: its status, and what was shown, changed and reported on the way. -/
structure Ending where
  status : Except Fault Nat
  shown : List Shown
  tree : FileTree
  log : List LogEntry

/-- A run that is finished, or that has shown something and waits for an answer. -/
inductive Conversation where
  | finished (e : Ending)
  | waiting (shown : List Shown) (log : List LogEntry) (resume : Answer → Ending)

/-- The end of a conversation, given the answer to its question. -/
def Conversation.finish (c : Conversation) (a : Answer) : Ending :=
  match c with
  | .finished e => e
  | .waiting shown log resume =>
    let e := resume a
    { e with shown := shown ++ e.shown, log := log ++ e.log }

/-- The panel at the top. -/
def header (subtitle : String) : Shown :=
  .panel (Display.styled "bold cyan" ("AbapTidy v" ++ version))
    (some (Display.styled "bold white" subtitle)) "cyan"

def subtitle : Mode → String
  | .check => "Layout Check"
  | .fix => "Layout Fix"

/-- Where the options of a run come from: the file that is asked for, or the nearest one. -/
def configLocation (t : FileTree) (r : Request) (input : Path) :
    Except FileFault (Option Config.Location) :=
  match r.config with
  | some s =>
    if s.isEmpty then nearest else .ok (some (Config.Location.ofText t s (Path.tidy s)))
  | none => nearest
where
  /-- The nearest configuration file. -/
  nearest : Except FileFault (Option Config.Location) :=
    (Config.find t input).map fun found => found.map fun p => { path := p, shown := t.display p }

def targets (t : FileTree) (r : Request) (input : Path) : Except WorkspaceFault (List Path) :=
  if t.isFile input then .ok [input]
  else
    let extensions := if r.extensions.isEmpty then Workspace.defaultExtensions else r.extensions
    (Workspace.patterns extensions).map (t.findFiles input)

def differenceOf (r : Request) (name : String) (report : Report) : List Shown :=
  match report.formattedText, report.sourceText with
  | some new, some old =>
    if r.diff && !new.isEmpty then [Display.difference old.toList new.toList name] else []
  | _, _ => []

/-- Formats files one after the other and shows their differences. -/
def formatAll (t : FileTree) (w : Workspace) (r : Request) (dryRun : Bool) :
    List String → Except Fault (List Report) × List Shown × FileTree × List LogEntry
  | [] => (.ok [], [], t, [])
  | name :: rest =>
    let first := Workspace.formatFile t w name dryRun
    match first.value with
    | .error fault => (.error (.workspace fault), [], first.tree, first.log)
    | .ok report =>
      let (reports, shown, tree, log) := formatAll first.tree w r dryRun rest
      (reports.map (report :: ·), differenceOf r name report ++ shown, tree, first.log ++ log)

/-- The status of a run: one if a check finds changes or a file could not be formatted. -/
def statusOf (mode : Mode) (reports : List Report) : Nat :=
  if mode = .check ∧ reports.any (·.changed) then 1
  else if reports.any fun r => r.status == .failed || r.status == .engineError then 1
  else 0

/-- Formats the files and shows the final report. -/
def proceed (t : FileTree) (w : Workspace) (r : Request) (files : List Path) : Ending :=
  let dryRun := r.mode == .check || r.dryRun
  let names := files.map fun p => Path.text (p.drop w.directory.length)
  let (reports, shown, tree, log) := formatAll t w r dryRun names
  match reports with
  | .error fault => ⟨.error fault, shown, tree, log⟩
  | .ok reports =>
    ⟨.ok (statusOf r.mode reports),
      shown ++ [Display.reportTable reports, Display.summaryPanel (Summary.ofReports reports)],
      tree, log⟩

def singleQuestion : Shown :=
  .text ("\n" ++ Display.styled "bold yellow" "Apply formatting to this file? (y/N): ")

def batchQuestion (path : String) (count : Nat) : List Shown :=
  [.panel
    (Display.styled "bold red" "⚠️  BATCH MODIFICATION DETECTED" ++ "\n\n" ++
      "Target Path: " ++ Display.styled "white" path ++ "\n" ++
      "File Count:  " ++ Display.styled "bold cyan" (toString count ++ " files") ++ "\n")
    none "red",
   .text (Display.styled "bold yellow" "Type 'CONFIRM' to execute: ")]

/-- The question that has to be answered before files are written, and whether an answer to it gives
consent. -/
def question? (r : Request) (count : Nat) : Option (List Shown × (String → Bool)) :=
  if r.mode = .check ∨ r.dryRun ∨ r.yesAll then none
  else if count = 1 then
    if r.yes then none else some ([singleQuestion], fun s => s == "y" || s == "Y")
  else some (batchQuestion r.path count, fun s => s == "CONFIRM")

def answered (t : FileTree) (consents : String → Bool) (go : Ending) : Answer → Ending
  | .line s =>
    if consents s then go
    else ⟨.ok 1, [.text (Display.styled "bold red" "Operation cancelled by user.")], t, []⟩
  | .interrupt => ⟨.ok 1, [.text ("\n" ++ Display.styled "bold red" "Terminated by user.")], t, []⟩
  | .endOfInput => ⟨.error .endOfInput, [], t, []⟩

def failed (t : FileTree) (fault : Fault) (log : List LogEntry) : Conversation :=
  .finished ⟨.error fault, [], t, log⟩

/-- Runs a command in a workspace whose options are known. -/
def runIn (t : FileTree) (w : Workspace) (r : Request) (input : Path) : Conversation :=
  match targets t r input with
  | .error fault => failed t (.workspace fault) []
  | .ok [] =>
    .finished
      ⟨.ok 0, [.text ("\n" ++ Display.styled "bold yellow" "⚠️  No ABAP files found.")], t, []⟩
  | .ok files =>
    match question? r files.length with
    | none => .finished (proceed t w r files)
    | some (shown, consents) =>
      .waiting shown [] fun a => answered t consents (proceed t w r files) a

/-- A conversation behind something that was shown and reported. -/
def Conversation.after (shown : List Shown) (log : List LogEntry) : Conversation → Conversation
  | .finished e => .finished { e with shown := shown ++ e.shown, log := log ++ e.log }
  | .waiting more reported resume => .waiting (shown ++ more) (log ++ reported) resume

/-- Runs a command on a path, with what came of loading its options. -/
def runLoaded (t : FileTree) (r : Request) (input : Path) :
    Except ConfigFault Options × List LogEntry → Conversation
  | (.error fault, log) =>
    match fault with
    | .undecodable | .badPath | .document _ => failed t (.config fault) log
    | _ =>
      .finished ⟨.ok 2,
        [.text (Display.styled "bold red" "Configuration error:" ++ " " ++ fault.message)], t, log⟩
  | (.ok o, log) =>
    let directory := if t.isDirectory input then input else input.dropLast
    let entered := Workspace.enter t directory o
    match entered.value with
    | .error fault => failed entered.tree (.workspace fault) (log ++ entered.log)
    | .ok w => (runIn entered.tree w r input).after [] (log ++ entered.log)

section

variable [Config.Reader]

/-- Runs a command on a path that leads somewhere. -/
def runAt (t : FileTree) (r : Request) (input : Path) : Conversation :=
  match configLocation t r input with
  | .error fault => failed t (.workspace (.file fault)) []
  | .ok location => runLoaded t r input (Config.load t location r.overrides)

def runRequest (t : FileTree) (r : Request) : Conversation :=
  let conversation := match t.resolve t.home r.path with
    | .error fault => failed t (.workspace (.path fault)) []
    | .ok input =>
      match t.nameFault? input with
      | some fault => failed t (.workspace (.file fault)) []
      | none =>
        if t.exists? input then runAt t r input
        else
          .finished ⟨.ok 2,
            [.text (Display.styled "bold red" "Error:" ++ " Path '" ++ r.path ++ "' not found.")],
            t, []⟩
  conversation.after [header (subtitle r.mode)] []

/-- Runs the program with the given arguments; the root of the tree is the working directory. -/
def run (t : FileTree) (arguments : List String) : Conversation :=
  if arguments.isEmpty then .finished ⟨.ok 0, [header "ABAP Source Formatter"], t, []⟩
  else
    match Arguments.parse arguments with
    | .stop status => .finished ⟨.ok status, [], t, []⟩
    | .request r => runRequest t r

end

end Command
end AbapLayout
