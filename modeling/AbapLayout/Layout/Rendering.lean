import AbapLayout.Layout.CommentText
import AbapLayout.Layout.Keyword
import AbapLayout.Layout.Line
import AbapLayout.Layout.Spacing
import AbapLayout.Statement.Basic

/-!
# Printing statements

Line breaks come from the cells, blanks from the spacing rules, and indentation from the level of a
statement.  A chain has its members below one another: behind the colon, or one level further in for
the keywords that are usually written as a block.  Blank lines between statements are kept.

Where tokens shall have other blanks in front of them than the spacing rules give, a table of wanted
blanks says so.
-/

namespace AbapLayout

/-- How many blanks shall stand in front of a token that is not the first on its line. -/
abbrev WantedBlanks := Address → Option Nat

namespace Rendering

/-- The text of a token as it is printed behind two others. -/
def tokenText (o : Options) (t : Token) (previous before : Option Token) : Text :=
  if t.isStarComment then t.text
  else if t.isComment then CommentText.normalize o t.text
  else Keyword.printed o t previous before

/-- The column in which a statement starts. -/
def baseIndent (o : Options) (s : Statement) : Nat :=
  match s.level, s.span with
  | some level, _ => level * o.indentWidth
  | none, some span => span.startColumn
  | none, none => 0

/-- What stands between code and a period that is glued to it. -/
def joiner (o : Options) : Text :=
  if o.spaceBeforePeriod then [' '] else []

def attachComment (o : Options) (comment : Comment) (l : Line) : Line :=
  { l with text := CommentText.attach o l.text comment.value }

def attachToLast (o : Options) (comment : Option Comment) (lines : List Line) : List Line :=
  match comment with
  | none => lines
  | some c => lines.modify (lines.length - 1) (attachComment o c)

/-- Lines with a comment behind the one on which it stands in the source, or behind the last. -/
def attachTrailing (o : Options) (comment : Option Comment) (lines : List Line) : List Line :=
  match comment with
  | none => lines
  | some c =>
    let here := fun (l : Line) => l.startLine ≤ c.span.startLine && c.span.startLine ≤ l.endLine
    match lines.findIdx? here with
    | some i => lines.modify i (attachComment o c)
    | none => attachToLast o (some c) lines

/-- Tokens with their addresses, from the given slot on. -/
def addressed {α : Type} (ordinal slot : Nat) : List α → List (Address × α)
  | [] => []
  | a :: rest => (⟨ordinal, slot⟩, a) :: addressed ordinal (slot + 1) rest

/-! ## Plain statements -/

/-- The first token of a line of a plain statement.  A continuation line keeps its distance to the
column in which the statement starts. -/
def beginLine (o : Options) (indent startColumn : Nat) (a : Address) (t : Token)
    (previous before : Option Token) : Line :=
  let text := tokenText o t previous before
  if t.isStarComment then { ({} : Line).put a t text 0 with fixed := true }
  else
    let offset := if previous.isNone then 0 else t.span.startColumn - startColumn
    ({} : Line).put a t text (indent + offset)

/-- The lines of the cells of a plain statement, behind the line in progress. -/
def cellLines (o : Options) (wanted : WantedBlanks) (indent startColumn : Nat)
    (previous before : Option Token) (current : Option Line) :
    List (Address × Cell) → List Line
  | [] => current.toList
  | (a, cell) :: rest =>
    let t := cell.token
    let line := match current with
      | none => beginLine o indent startColumn a t previous before
      | some l =>
        l.put a t (tokenText o t previous before) (Spacing.printed o (wanted a) t previous)
    if cell.breakAfter then
      line :: cellLines o wanted indent startColumn (some t) previous none rest
    else cellLines o wanted indent startColumn (some t) previous (some line) rest

def plainLines (o : Options) (wanted : WantedBlanks) (ordinal : Nat) (s : Statement)
    (cells : List Cell) : List Line :=
  let indent := baseIndent o s
  let startColumn := match s.span with
    | some span => span.startColumn
    | none => 0
  let lines := cellLines o wanted indent startColumn none none none (addressed ordinal 0 cells)
  let trimmed := lines.map fun l => { l with text := Text.trimRight l.text }
  let glued := Line.glue (joiner o) s.post.isSome trimmed
  attachToLast o s.post (attachTrailing o s.note glued)

/-! ## Chains -/

/-- The lines of tokens that stand behind one another; only a comment ends a line. -/
def sequenceLines (o : Options) (wanted : WantedBlanks) (previous before : Option Token)
    (current : Option Line) : List (Address × Token) → List Line
  | [] => current.toList
  | (a, t) :: rest =>
    let text := tokenText o t previous before
    let fresh : Line := { ({} : Line).put a t text 0 with fixed := t.isStarComment }
    match current with
    | none => sequenceLines o wanted (some t) previous (some fresh) rest
    | some l =>
      if previous.any Token.isComment then
        l :: sequenceLines o wanted (some t) previous (some fresh) rest
      else
        let longer := l.put a t text (Spacing.printed o (wanted a) t previous)
        sequenceLines o wanted (some t) previous (some longer) rest

/-- The line with the shared words and the colon of a chain. -/
def keywordLine (o : Options) (wanted : WantedBlanks) (ordinal indent : Nat) (c : Chain) : Line :=
  let words := sequenceLines o wanted none none none (addressed ordinal 0 c.words)
  let joined : Line := match words with
    | [] => {}
    | first :: rest => rest.foldl (fun l extra => l.absorb extra [' ']) first
  (joined.indent indent).put ⟨ordinal, c.words.length⟩ c.colon [':'] 0

/-- The keywords whose chains have their members on lines below the colon. -/
def blockKeywords : List String :=
  ["CLEAR", "FREE", "SORT", "CATCH", "TRY"]

/-- Whether the first member of a chain stands on the line of the colon. -/
def startsInline (c : Chain) : Bool :=
  !blockKeywords.contains (String.ofList c.keyword.upper)

/-- The entries of a chain with the slot of their first cell. -/
def slotted (slot : Nat) : List Entry → List (Nat × Entry)
  | [] => []
  | e :: rest => (slot, e) :: slotted (slot + e.cells.length) rest

/-- The period of a chain that shall stand on a line of its own. -/
def closing? (s : Statement) (c : Chain) : Option (Nat × Token) :=
  match s.post, (c.entries.filter fun e => !e.isRemark).getLast? with
  | some _, some e =>
    match e.cells.getLast? with
    | some cell =>
      if cell.token.isPeriod then
        some (c.words.length + (c.entries.flatMap Entry.cells).length, cell.token)
      else none
    | none => none
  | _, _ => none

/-- The lines of a member, without the period that is printed apart. -/
def memberLines (o : Options) (wanted : WantedBlanks) (ordinal slot : Nat) (skip : Option Nat)
    (cells : List Cell) (trailing : Option Comment) : List Line :=
  let tokens := (addressed ordinal slot (cells.map (·.token))).filter fun p => some p.1.slot != skip
  let lines := match sequenceLines o wanted none none none tokens with
    | [] => [{}]
    | lines => lines
  match trailing with
  | none => lines
  | some c => lines.modify 0 fun l => { attachComment o c l with endsInComment := true }

/-- A line of a member, moved to the column of the members. -/
def placeMember (indent : Nat) (l : Line) : Line :=
  if l.fixed then l else l.indent indent

/-- The lines of an entry that does not stand on the line of the colon. -/
def entryLines (o : Options) (wanted : WantedBlanks) (ordinal indent : Nat) (skip : Option Nat) :
    Nat × Entry → List Line
  | (_, .remark comment) =>
    [{ text := CommentText.standing o indent comment.value, endsInComment := true }]
  | (slot, .member cells trailing) =>
    (memberLines o wanted ordinal slot skip cells trailing).map (placeMember indent)

/-- The lines of all entries, behind the line with the colon. -/
def entriesLines (o : Options) (wanted : WantedBlanks) (ordinal indent : Nat) (skip : Option Nat)
    (inlineFirst : Bool) (keyword : Line) (entries : List (Nat × Entry)) : List Line :=
  let below := fun (es : List (Nat × Entry)) => es.flatMap (entryLines o wanted ordinal indent skip)
  match inlineFirst, entries with
  | true, (slot, .member cells trailing) :: rest =>
    match memberLines o wanted ordinal slot skip cells trailing with
    | [] => keyword :: below rest
    | first :: more => keyword.absorb first [' '] :: more.map (placeMember indent) ++ below rest
  | _, _ => keyword :: below entries

def chainLines (o : Options) (wanted : WantedBlanks) (ordinal : Nat) (s : Statement) (c : Chain) :
    List Line :=
  let indent := baseIndent o s
  let keyword := keywordLine o wanted ordinal indent c
  let inlineFirst := startsInline c
  let memberIndent := if inlineFirst then keyword.text.length + 1 else indent + o.indentWidth
  let closing := closing? s c
  let entries := slotted (c.words.length + 1) c.entries
  let skip := closing.map (·.1)
  let lines := entriesLines o wanted ordinal memberIndent skip inlineFirst keyword entries
  let period := closing.toList.map fun p =>
    ({} : Line).put ⟨ordinal, p.1⟩ p.2 (tokenText o p.2 none none) memberIndent
  let glued := Line.glue (joiner o) closing.isSome (lines ++ period)
  let own := match c.entries.getLast? with
    | some (.member _ _) => none
    | _ => s.note
  attachToLast o s.post (attachToLast o own glued)

/-! ## Documents -/

/-- The lines of a statement; there are none if nothing is left to print. -/
def statementLines (o : Options) (wanted : WantedBlanks) (ordinal : Nat) (s : Statement) :
    List Line :=
  match s.body, s.note with
  | .chain c, _ => chainLines o wanted ordinal s c
  | .plain [], none => []
  | .plain [], some comment => [{ text := CommentText.standing o (baseIndent o s) comment.value }]
  | .plain cells, _ => plainLines o wanted ordinal s cells

def blankLinesBetween (previous : Option Statement) (s : Statement) : Nat :=
  match previous.bind (·.span), s.span with
  | some above, some below => below.startLine - above.endLine - 1
  | _, _ => 0

/-- The lines of statements from the given position on, where `previous` is the last statement that
has been printed. -/
def linesFrom (o : Options) (wanted : WantedBlanks) (ordinal : Nat) (previous : Option Statement) :
    List Statement → List Line
  | [] => []
  | s :: rest =>
    match statementLines o wanted ordinal s with
    | [] => linesFrom o wanted (ordinal + 1) previous rest
    | lines =>
      List.replicate (blankLinesBetween previous s) {} ++ lines ++
        linesFrom o wanted (ordinal + 1) (some s) rest

/-- The printed lines of some statements. -/
def render (o : Options) (wanted : WantedBlanks) (statements : List Statement) : List Line :=
  linesFrom o wanted 0 none statements

/-- Whether every statement that is printed stands somewhere, as far as this matters: a statement
without a level keeps its column, and two statements keep the blank lines between them. -/
def allPlaced (statements : List Statement) : Bool :=
  let shown := statements.filter fun s => !s.isEmpty
  (shown.all fun s => s.level.isSome || s.span.isSome) &&
    (shown.length ≤ 1 || shown.all fun s => s.span.isSome)

end Rendering
end AbapLayout
