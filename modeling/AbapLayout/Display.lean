import AbapLayout.Diff.Unified
import AbapLayout.Report
import AbapLayout.Text.Lines

/-!
# What is displayed

The things the program shows: lines of text, panels and tables.  Square brackets in a text hold the
names of styles; how a style looks is up to the display.
-/

namespace AbapLayout

inductive Shown where
  | text (s : String)
  | panel (body : String) (title : Option String) (border : String)
  | table (title : String) (headers : List String) (rows : List (List String))
deriving DecidableEq, Repr

namespace Display

def styled (style s : String) : String :=
  "[" ++ style ++ "]" ++ s ++ "[/" ++ style ++ "]"

def reportRow (r : Report) : List String :=
  [r.path.getD "None", styled r.status.style r.status.name, r.notes, if r.success then "✅" else "❌"]

def reportTable (reports : List Report) : Shown :=
  .table "AbapTidy Execution Report" ["File Path", "Status", "Notes", "Result"]
    (reports.map reportRow)

def difference (source formatted : Text) (name : String) : Shown :=
  let lines := Diff.unified ("Original: " ++ name).toList "Formatted".toList
    (Text.displayLines source) (Text.displayLines formatted)
  if lines.isEmpty then
    .text (styled "dim" ("ℹ No layout changes needed for " ++ name ++ "."))
  else
    .panel (String.ofList (Text.unlines lines)) (some ("Proposed Layout: " ++ name)) "green"

/-- The figures over all files. -/
def summaryPanel (s : Summary) : Shown :=
  .panel
    (styled "bold white" "Summary Report" ++ "\n" ++
      "════════════════════════════════════════\n" ++
      "Total Files:     " ++ toString s.total ++ "\n" ++
      "Changed:         " ++ toString s.changed ++ "\n" ++
      "Written:         " ++ styled "green" (toString s.written) ++ "\n" ++
      "Pass-through:    " ++ styled "yellow" (toString s.fallbacks) ++ "\n" ++
      "System Errors:   " ++ styled "red" (toString s.engineErrors) ++ "\n" ++
      "Backups Created: " ++ toString s.backups)
    none "dim"

end Display
end AbapLayout
