import AbapLayout.Layout.Rendering
import AbapLayout.Layout.TokenClass

/-!
# Vertical alignment

Blanks that align nothing are removed; tokens that stand below one another on purpose stay so.

Positions are taken from the lines as they are printed without wanted blanks.  A token has one or
two *signatures*: its start column (even), and for operators and numbers the column of the right
edge or of the last digit in front of the point (odd).  Tokens with one signature on neighbouring
lines form a *run*.  A run of three or more tokens is moved to the left by the blanks that all of
them can spare.  In front of every other token one blank is left.
-/

namespace AbapLayout

/-- Where a token is printed, and what stands in front of it. -/
structure Position where
  address : Address
  token : Token
  /-- The number of its printed line, from zero. -/
  line : Nat
  /-- Its column. -/
  start : Nat
  /-- The blanks in front of it, or its column if it is the first of its line.  The number is
  negative if blanks at the end of the token in front of it have been dropped. -/
  spaces : Int
  leading : Bool
  /-- The first column behind the token in front of it on its line, or zero. -/
  previousEnd : Nat
  tokenClass : TokenClass
  /-- The class of the token in front of it in its statement. -/
  previousClass : Option TokenClass
  /-- The token in front of it on its line. -/
  previous : Option Token
deriving DecidableEq, Repr

namespace Position

/-- The position of a placement, where `last` is the position before it and `previous` the placement
before it on its line. -/
def ofPlacement (line : Nat) (last : Option Position) (previous : Option Placement)
    (p : Placement) : Position :=
  let previousEnd : Nat := match previous with
    | some q => q.endColumn
    | none => 0
  { address := p.address
    token := p.token
    line
    start := p.column
    spaces := (p.column : Int) - previousEnd
    leading := previous.isNone
    previousEnd
    tokenClass := TokenClass.ofToken p.token
    previousClass := match last with
      | some q => if q.address.statement = p.address.statement then some q.tokenClass else none
      | none => none
    previous := previous.map (·.token) }

def ofLine (line : Nat) (last : Option Position) (previous : Option Placement) :
    List Placement → List Position
  | [] => []
  | p :: rest =>
    let here := ofPlacement line last previous p
    here :: ofLine line (some here) (some p) rest

/-- The positions on consecutive lines, the first of which has the given number. -/
def ofLines (number : Nat) (last : Option Position) : List Line → List Position
  | [] => []
  | l :: rest =>
    let here := ofLine number last none l.placements
    here ++ ofLines (number + 1) (here.getLast?.or last) rest

/-- The column at which an operator or a number is aligned besides its start. -/
def edge? (p : Position) : Option Nat :=
  if p.tokenClass.isOperator then some (p.start + p.token.text.length - 1)
  else if TokenClass.isNumeric p.token.text then some (p.start + TokenClass.alignIndex p.token.text)
  else none

/-- The signatures of a token: twice its start column, and one more than twice the column of its
edge. -/
def signatures (p : Position) : List Nat :=
  2 * p.start :: p.edge?.toList.map (2 * · + 1)

end Position

namespace Alignment

/-- The words that begin lines inside an aligned block. -/
def bridgeWords : List String :=
  ["ELSE", "ELSEIF", "WHEN"]

def isBridge (t : Token) : Bool :=
  bridgeWords.contains (String.ofList t.upper)

def leader? (lines : List Line) (number : Nat) : Option Placement :=
  match lines[number]? with
  | some l => l.placements.head?
  | none => none

def isBlankLine (lines : List Line) (number : Nat) : Bool :=
  match lines[number]? with
  | some l => Text.isBlankText l.text
  | none => true

/-- Whether a line between two members of a run ends the run: it is blank, or begins to the left of
the aligned column. -/
def interrupts (lines : List Line) (column number : Nat) : Bool :=
  isBlankLine lines number ||
    match leader? lines number with
    | some p => p.column < column && !isBridge p.token
    | none => false

/-- Whether what stands between the last member of a run and a candidate ends the run. -/
def gapBreaks (lines : List Line) (column : Nat) (first last candidate : Position) : Bool :=
  if first.tokenClass = .comment ∨ last.address.statement = candidate.address.statement
      ∨ candidate.line ≤ last.line + 1 then false
  else
    (List.range' (last.line + 1) (candidate.line - (last.line + 1))).any (interrupts lines column)

/-- Whether a candidate can join a run.  The right-hand sides of assignments align whatever they
are. -/
def fits (first candidate : Position) : Bool :=
  (first.previousClass == some .assignment && candidate.previousClass == some .assignment) ||
    TokenClass.aligns first.tokenClass candidate.tokenClass

/-- Whether a position stands on a line that runs pass through. -/
def onBridge (lines : List Line) (p : Position) : Bool :=
  (leader? lines p.line).any fun l => isBridge l.token

/-- The further members of a run, and the candidates behind it. -/
def extend (lines : List Line) (column : Nat) (first last : Position) :
    List Position → List Position × List Position
  | [] => ([], [])
  | candidate :: rest =>
    if gapBreaks lines column first last candidate then ([], candidate :: rest)
    else if fits first candidate then
      let (members, behind) := extend lines column first candidate rest
      (candidate :: members, behind)
    else if onBridge lines candidate && !onBridge lines first then
      extend lines column first last rest
    else ([], candidate :: rest)

/-- No more candidates are left behind a run than there were. -/
theorem length_extend_snd (lines : List Line) (column : Nat) (first last : Position)
    (ps : List Position) : (extend lines column first last ps).2.length ≤ ps.length := by
  induction ps generalizing last with
  | nil => simp [extend]
  | cons p rest ih =>
    simp only [extend]
    split
    · simp
    · split
      · exact Nat.le_succ_of_le (ih p)
      · split
        · exact Nat.le_succ_of_le (ih last)
        · simp

/-- The runs among positions with one signature. -/
def runs (lines : List Line) (column : Nat) : List Position → List (List Position)
  | [] => []
  | first :: rest =>
    (first :: (extend lines column first first rest).1) ::
      runs lines column (extend lines column first first rest).2
termination_by ps => ps.length
decreasing_by
  have := length_extend_snd lines column first first rest
  simp
  omega

/-- What is known after some runs. -/
structure Progress where
  /-- The wanted blanks; an earlier entry wins. -/
  wanted : List (Address × Nat) := []
  /-- Members of runs, in front of which blanks are not condensed. -/
  grouped : List Address := []
  /-- Members of runs that are aligned at their edge and take part in no further run. -/
  settled : List Address := []
deriving DecidableEq, Repr

def least : List Nat → Nat
  | [] => 0
  | [n] => n
  | n :: rest => min n (least rest)

/-- Moves a run to the left by some blanks; separators and comments stay where they are. -/
def moveRun (run : List Position) (spare : Nat) (progress : Progress) : Progress :=
  if spare = 0 ∨ run.any (·.leading) then progress
  else
    let moved := run.filter fun p => !p.tokenClass.isSeparator && p.tokenClass != .comment
    { progress with
      wanted := (moved.map fun p => (p.address, (p.spaces - (spare : Int)).toNat))
        ++ progress.wanted }

/-- A run of tokens with one start column. -/
def alignStarts (run : List Position) (progress : Progress) : Progress :=
  moveRun run (least (run.map fun p => (p.spaces - 1).toNat))
    { progress with grouped := run.map (·.address) ++ progress.grouped }

/-- A run of tokens with one edge.  They can be moved up to the longest text in front of them. -/
def alignEdges (run : List Position) (progress : Progress) : Progress :=
  match run with
  | [] => progress
  | first :: rest =>
    if rest.all fun p => p.start == first.start then progress
    else
      let addresses := run.map (·.address)
      let grouped := { progress with grouped := addresses ++ progress.grouped }
      match (run.filter fun p => !p.leading).map (·.previousEnd) with
      | [] => grouped
      | nearest :: others =>
        let anchor := others.foldl max nearest
        moveRun run (least (run.map fun p => p.start - anchor - 1))
          { grouped with settled := addresses ++ grouped.settled }

def alignRun (signature : Nat) (progress : Progress) (run : List Position) : Progress :=
  if run.length < 3 ∨ run.any fun p => progress.settled.contains p.address then progress
  else if signature % 2 = 1 then alignEdges run progress
  else alignStarts run progress

def alignSignature (lines : List Line) (positions : List Position) (progress : Progress)
    (signature : Nat) : Progress :=
  (runs lines (signature / 2) (positions.filter fun p => p.signatures.contains signature)).foldl
    (alignRun signature) progress

/-- Adds a number to descending numbers, unless it is there. -/
def insertDescending (n : Nat) : List Nat → List Nat
  | [] => [n]
  | m :: rest =>
    if m < n then n :: m :: rest
    else if m = n then m :: rest
    else m :: insertDescending n rest

/-- The signatures of some positions, each once and the greatest first. -/
def signaturesDescending (positions : List Position) : List Nat :=
  (positions.flatMap Position.signatures).foldr insertDescending []

/-- All runs, those furthest to the right first. -/
def alignAll (lines : List Line) (positions : List Position) : Progress :=
  (signaturesDescending positions).foldl (alignSignature lines positions) {}

/-- One blank is left in front of a token that takes part in no run. -/
def condensed (progress : Progress) (positions : List Position) : List (Address × Nat) :=
  (positions.filter fun p =>
    !p.leading && !progress.grouped.contains p.address && (progress.wanted.lookup p.address).isNone
      && !p.tokenClass.isSeparator && p.tokenClass != .comment && p.tokenClass != .pragma
      && 1 < p.spaces).map fun p => (p.address, 1)

/-- Whether a token closes the bracket in front of it. -/
def closesEmptyPair (previous t : Token) : Bool :=
  (previous.text == ['('] && t.text == [')']) || (previous.text == ['['] && t.text == [']'])

/-- No blank is left inside empty brackets. -/
def emptyPairs (positions : List Position) : List (Address × Nat) :=
  (positions.filter fun p =>
    !p.leading && p.spaces != 0 && p.previous.any (closesEmptyPair · p.token)).map
      fun p => (p.address, 0)

/-- The wanted blanks of tokens at the given positions; an earlier entry wins. -/
def wantedAt (lines : List Line) (positions : List Position) : List (Address × Nat) :=
  let progress := alignAll lines positions
  emptyPairs positions ++ condensed progress positions ++ progress.wanted

/-- The lines of statements without any wanted blanks. -/
def looseLines (o : Options) (statements : List Statement) : List Line :=
  Rendering.render o (fun _ => none) statements

/-- The positions of all tokens on the lines without wanted blanks. -/
def positions (lines : List Line) : List Position :=
  Position.ofLines 0 none lines

/-- The blanks that shall stand in front of tokens; an earlier entry wins. -/
def wantedTable (o : Options) (statements : List Statement) : List (Address × Nat) :=
  let lines := looseLines o statements
  wantedAt lines (positions lines)

end Alignment
end AbapLayout
