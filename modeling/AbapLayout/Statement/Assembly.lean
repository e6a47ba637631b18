import AbapLayout.Statement.Basic

/-!
# From raw statements to statements

The raw statements that share a colon become one chain, with the comments between them as entries.
The first sign comment inside a statement becomes the comment behind it, and so does a sign comment
on the line where the statement ends, if that place is still free.  Pragmas move in front of the
period or comma.  The line ends after a token if the next one starts on a later source line.
-/

namespace AbapLayout

/-- Why raw statements do not fit together. -/
inductive AssemblyFault where
  /-- A member of a chain refers to a colon it does not hold. -/
  | strayColon (span : Span)
  /-- No word stands in front of the colon of a chain. -/
  | noKeyword (span : Span)
  /-- A comment statement has no token. -/
  | emptyComment
  /-- A comment follows a statement that stands nowhere. -/
  | unplaced
deriving DecidableEq, Repr

def AssemblyFault.message : AssemblyFault → String
  | .strayColon span => "Chain colon is not part of its statement" ++ position span
  | .noKeyword span => "Chain keyword statement has no tokens" ++ position span
  | .emptyComment => "Comment statement has no tokens"
  | .unplaced => "Statement has no position"
where
  /-- Where a fault stands. -/
  position (span : Span) : String :=
    " at line " ++ toString span.startLine ++ ", column " ++ toString span.startColumn

namespace Assembly

/-- The first sign comment of some tokens, and the tokens without it. -/
def takeSignComment : List Token → Option Token × List Token
  | [] => (none, [])
  | t :: ts =>
    if t.isSignComment then (some t, ts)
    else ((takeSignComment ts).1, t :: (takeSignComment ts).2)

def inlineComment (t : Token) : Comment :=
  { value := t.text, inline := true, span := t.span }

/-- The line ends after a token if the next one starts on a later line. -/
def link : List Token → List Cell
  | [] => []
  | [t] => [{ token := t }]
  | t :: u :: rest =>
    { token := t, breakAfter := t.span.endLine < u.span.startLine } :: link (u :: rest)

/-- Pragmas stand directly in front of the terminator, or at the end if there is none. -/
def placePragmas (pragmas : List Token) (cells : List Cell) : List Cell :=
  let extra := pragmas.map fun t => ({ token := t } : Cell)
  match cells.getLast? with
  | some last =>
    if last.token.isTerminator then cells.dropLast ++ extra ++ [last] else cells ++ extra
  | none => extra

/-- The cells of a statement or member, and the comment behind it. -/
def finish (tokens pragmas : List Token) : List Cell × Option Comment :=
  let (sign, code) := takeSignComment tokens
  (placePragmas pragmas (link code), sign.map inlineComment)

/-- The tokens that tell where a statement stands: its pragmas count only if it has nothing else. -/
def placing (cells : List Cell) : List Token :=
  let tokens := cells.map (·.token)
  let code := tokens.filter fun t => !t.isPragma
  if code.isEmpty then tokens else code

/-- The statement of a raw statement that is neither a member of a chain nor a comment. -/
def ofSingle (index : Nat) (r : RawStatement) : Statement :=
  let (cells, trailing) := finish r.body r.pragmas
  { body := .plain cells
    kind := r.kind
    span := Span.cover ((placing cells).map (·.span))
    note := trailing
    pragmas := r.pragmas
    wording := r.wording
    rawIndex := index
    detached := r.detached }

def ofComment (index : Nat) (r : RawStatement) (comment : Comment) : Statement :=
  { body := .plain []
    kind := .comment
    span := some comment.span
    note := some comment
    wording := comment.value
    rawIndex := index
    detached := r.detached }

def endsInPeriod (r : RawStatement) : Bool :=
  match r.tokens.getLast? with
  | some t => t.text == ['.']
  | none => false

/-- Whether a raw statement has a colon at the same place. -/
def sharesColon (colon : Token) (r : RawStatement) : Bool :=
  match r.colon? with
  | some other =>
    other.span.startLine == colon.span.startLine && other.span.startColumn == colon.span.startColumn
  | none => false

/-- The raw statements that may belong to a chain: its members and the comments between and behind
them, up to the member that ends in a period. -/
def candidates (colon : Token) (finished : Bool) : List RawStatement → List RawStatement
  | [] => []
  | r :: rest =>
    if finished then []
    else if sharesColon colon r then r :: candidates colon (endsInPeriod r) rest
    else if r.kind = .comment then r :: candidates colon false rest
    else []

/-- Raw statements up to the last one with a colon. -/
def dropComments (rs : List RawStatement) : List RawStatement :=
  (rs.reverse.dropWhile fun r => r.colon?.isNone).reverse

def hasSignComment (r : RawStatement) : Except AssemblyFault Bool :=
  match r.opening with
  | .stray colon => .error (.strayColon colon.span)
  | _ => .ok (r.body.any Token.isSignComment)

/-- Whether a raw statement is a comment right behind the last member of a chain. -/
def closesChain (last next : RawStatement) : Except AssemblyFault Bool :=
  if next.kind = .comment then
    match next.tokens with
    | [] => .error .emptyComment
    | t :: _ =>
      if t.isSignComment ∧ next.startLine = last.endLine then (hasSignComment last).map (!·)
      else .ok false
  else .ok false

/-- How many of the raw statements behind the first member belong to its chain. -/
def chainExtent (colon : Token) (first : RawStatement) (rest : List RawStatement) :
    Except AssemblyFault Nat :=
  let members := dropComments (candidates colon (endsInPeriod first) rest)
  let last := members.getLast?.getD first
  match rest.drop members.length with
  | [] => .ok members.length
  | next :: _ =>
    (closesChain last next).map fun b => if b then members.length + 1 else members.length

/-- A chain under construction: what stands before its latest member, that member, and the comments
behind it. -/
structure Draft where
  before : List Entry
  cells : List Cell
  trailing : Option Comment
  /-- The line where the latest member ends. -/
  endLine : Nat
  remarks : List Entry

/-- The entries of a draft, in the order in which they came. -/
def Draft.entries (d : Draft) : List Entry :=
  d.before ++ .member d.cells d.trailing :: d.remarks

def Draft.start (before : List Entry) (r : RawStatement) : Draft :=
  let (cells, trailing) := finish r.body r.pragmas
  { before, cells, trailing, endLine := r.endLine, remarks := [] }

def Draft.addComment (d : Draft) (t : Token) : Draft :=
  let sameLine := t.span.startLine == d.endLine
  let comment : Comment := { value := t.text, inline := sameLine, span := t.span }
  if sameLine ∧ t.isSignComment ∧ d.trailing.isNone then { d with trailing := some comment }
  else { d with remarks := d.remarks ++ [.remark comment] }

def Draft.add (d : Draft) (r : RawStatement) : Except AssemblyFault Draft :=
  match r.opening with
  | .stray colon => .error (.strayColon colon.span)
  | .shared _ _ => .ok (Draft.start d.entries r)
  | .none =>
    match r.body with
    | [] => .error .emptyComment
    | t :: _ => .ok (d.addComment t)

def Draft.addAll (d : Draft) : List RawStatement → Except AssemblyFault Draft
  | [] => .ok d
  | r :: rest =>
    match d.add r with
    | .error fault => .error fault
    | .ok next => next.addAll rest

/-- Puts an entry in front of the first one that does not begin on an earlier line. -/
def insertEntry (e : Entry) : List Entry → List Entry
  | [] => [e]
  | f :: rest =>
    if e.startLine ≤ f.startLine then e :: f :: rest
    else f :: insertEntry e rest

/-- Entries in the order of their lines; entries of one line keep their order. -/
def sortEntries (entries : List Entry) : List Entry :=
  entries.foldr insertEntry []

def ofChain (index : Nat) (first : RawStatement) (rest : List RawStatement) :
    Except AssemblyFault Statement :=
  match first.opening with
  | .none => .ok (ofSingle index first)
  | .stray colon => .error (.strayColon colon.span)
  | .shared shared colon =>
    match shared.filter fun t => !t.isComment with
    | [] => .error (.noKeyword colon.span)
    | keyword :: others =>
      ((Draft.start [] first).addAll rest).map fun draft =>
        let entries := sortEntries draft.entries
        let tokens := keyword :: others ++ colon :: (entries.flatMap Entry.cells).map (·.token)
        { body := .chain { keyword, others, colon, entries }
          kind := first.kind
          span := Span.cover (tokens.map (·.span))
          pragmas := first.pragmas ++ (rest.filter (·.colon?.isSome)).flatMap (·.pragmas)
          wording := Text.join [' '] ((first :: rest).map (·.wording))
          rawIndex := index
          detached := first.detached }

def acceptsTrailing (previous : Statement) (t : Token) (inline : Bool) : Bool :=
  inline && t.isSignComment && previous.trailing?.isNone && previous.kind != .comment

/-- Whether a statement ends on the line on which a token starts. -/
def endsOnLineOf (previous : Option Statement) (t : Token) : Except AssemblyFault Bool :=
  match previous with
  | none => .ok false
  | some s =>
    match s.span with
    | none => .error .unplaced
    | some span => .ok (span.endLine == t.span.startLine)

/-- A comment between statements: it goes to the statement before it or stands alone.  The result is
the statement that is finished, if any, and the one that further comments may still reach. -/
def addComment (index : Nat) (previous : Option Statement) (r : RawStatement) :
    Except AssemblyFault (Option Statement × Statement) :=
  match r.body with
  | [] => .error .emptyComment
  | t :: _ =>
    (endsOnLineOf previous t).map fun inline =>
      let comment : Comment := { value := t.text, inline, span := t.span }
      match previous with
      | some s =>
        if acceptsTrailing s t inline then (none, s.setTrailing (some comment))
        else (some s, ofComment index r comment)
      | none => (none, ofComment index r comment)

/-- The statements of raw statements from the given position on, where `previous` is the statement
in front of them. -/
def buildFrom (index : Nat) (previous : Option Statement) :
    List RawStatement → Except AssemblyFault (List Statement)
  | [] => .ok previous.toList
  | r :: rest =>
    match r.colon? with
    | some colon =>
      match chainExtent colon r rest with
      | .error fault => .error fault
      | .ok n =>
        match ofChain index r (rest.take n) with
        | .error fault => .error fault
        | .ok s =>
          (buildFrom (index + (n + 1)) (some s) (rest.drop n)).map (previous.toList ++ ·)
    | none =>
      if r.kind = .comment then
        match addComment index previous r with
        | .error fault => .error fault
        | .ok (finished, s) =>
          (buildFrom (index + 1) (some s) rest).map (finished.toList ++ ·)
      else
        (buildFrom (index + 1) (some (ofSingle index r)) rest).map (previous.toList ++ ·)
termination_by rs => rs.length

end Assembly

def assemble (raws : List RawStatement) : Except AssemblyFault (List Statement) :=
  Assembly.buildFrom 0 none raws

end AbapLayout
