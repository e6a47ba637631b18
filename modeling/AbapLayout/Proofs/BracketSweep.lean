import AbapLayout.Proofs.StatementRows
import Mathlib.Data.List.Chain

/-!
# Moving brackets up, cell by cell

Moving brackets up goes through the cells once, changes the cell it stands at and reads it again as
the one in front of the next.  Even so every cell ends up as the cells around it were to begin with:
`breakAfterSweep` gives its line break from these (`sweep_eq_sweptFrom`), and a bracket or period
moves up if and only if one of the line breaks that were there is gone (`moves_eq_pullsAny`).

In the result nothing moves up any more, so moving brackets up a second time changes nothing, nor
does moving them up in the members of a chain one by one (`sweep_pointwise`).
-/

namespace AbapLayout
namespace Bracket

/-- No line ends between a cell and the next one: a closing bracket stands behind code, or a period
behind a closing bracket. -/
def closesUp (c next : Cell) : Bool :=
  !c.token.isComment && next.token.isClosingBracket ||
    c.token.isClosingBracket && next.token.isPeriod

/-- A line ends between a cell and the next one: the cell is a closing bracket that moves up behind
code, and behind it on its source line stands what may not come along. -/
def leavesBehind (before c next : Cell) : Bool :=
  c.token.isClosingBracket && (before.breakAfter && !before.token.isComment) &&
    (next.token.span.startLine == c.token.span.startLine && !staysBehind next.token)

/-- Whether the line ends after a cell once brackets have moved up, where the cells around it are
given as they were before: not where `closesUp` says so, otherwise where `leavesBehind` says so or it
did before. -/
def breakAfterSweep (before : Option Cell) (c : Cell) (next : Option Cell) : Bool :=
  !next.any (closesUp c) && (before.any (fun b => next.any (leavesBehind b c)) || c.breakAfter)

/-- Cells with the line breaks that `breakAfterSweep` gives, behind the given cell. -/
def sweptFrom (before : Option Cell) : List Cell → List Cell
  | [] => []
  | c :: rest =>
    { c with breakAfter := breakAfterSweep before c rest.head? } :: sweptFrom (some c) rest

/-- Whether a bracket or period moves up somewhere, with all line breaks as they are. -/
def pullsAny : List Cell → Bool
  | c :: next :: rest => pullsUp c next || pullsAny (next :: rest)
  | _ => false

/-! ## Tokens next to one another -/

theorem role_of_isClosingBracket {t : Token} (h : t.isClosingBracket = true) : t.role = .word := by
  rw [Token.isClosingBracket, Bool.and_eq_true, beq_iff_eq] at h
  exact h.1

theorem role_of_isPeriod {t : Token} (h : t.isPeriod = true) : t.role = .punctuation := by
  rw [Token.isPeriod, Bool.and_eq_true, beq_iff_eq] at h
  exact h.1

theorem isComment_of_isClosingBracket {t : Token} (h : t.isClosingBracket = true) :
    t.isComment = false := by
  simp [Token.isComment, role_of_isClosingBracket h]

/-- A line break is removed where there is one and none may stay. -/
theorem pullsUp_eq (c next : Cell) : pullsUp c next = (c.breakAfter && closesUp c next) := by
  cases hbracket : c.token.isClosingBracket with
  | true => simp [pullsUp, closesUp, hbracket, isComment_of_isClosingBracket hbracket]
  | false => simp [pullsUp, closesUp, hbracket, Bool.and_assoc]

/-- A closing bracket moves up behind code at the end of a line. -/
theorem pullsUp_of_isClosingBracket
    (c : Cell) {next : Cell} (h : next.token.isClosingBracket = true) :
    pullsUp c next = (c.breakAfter && !c.token.isComment) := by
  simp [pullsUp, h]

/-! ## One pass -/

/-- A cell as it is when the pass comes to it: a bracket that has moved up behind the cell before it
has been settled. -/
def arrived (before : Option Cell) (c : Cell) (next : Option Cell) : Cell :=
  if before.any (pullsUp · c) && c.token.isClosingBracket then settle c next else c

@[simp] theorem token_arrived (before : Option Cell) (c : Cell) (next : Option Cell) :
    (arrived before c next).token = c.token := by
  unfold arrived
  split
  · exact token_settle c next
  · rfl

/-- A bracket that moves up keeps its line break in front of another closing bracket. -/
theorem breakAfter_arrived_of_isClosingBracket
    (before : Option Cell) (c : Cell) {next : Cell} (h : next.token.isClosingBracket = true) :
    (arrived before c (some next)).breakAfter = c.breakAfter := by
  have hperiod : next.token.isPeriod = false :=
    Bool.eq_false_iff.mpr fun hperiod => by
      have hword := role_of_isClosingBracket h
      rw [role_of_isPeriod hperiod] at hword
      simp at hword
  unfold arrived
  split
  · simp [settle, staysBehind, h, hperiod]
  · rfl

/-- Where the pass leaves a cell, its line break is the one that the cells around it give. -/
theorem breakAfter_arrived
    (before : Option Cell) (c : Cell) (next : Option Cell) :
    (!next.any (closesUp c) && (arrived before c next).breakAfter) =
      breakAfterSweep before c next := by
  cases next with
  | none => cases before <;> simp [breakAfterSweep, arrived, settle]
  | some next =>
      cases hcloses : closesUp c next with
      | true => simp [breakAfterSweep, hcloses]
      | false =>
          simp only [breakAfterSweep, Option.any_some, hcloses, Bool.not_false, Bool.true_and]
          cases hbracket : c.token.isClosingBracket with
          | false => cases before <;> simp [arrived, leavesBehind, hbracket]
          | true =>
              -- A bracket is no comment, and a period would have come along with it.
              have hperiod : next.token.isPeriod = false := by
                simp only [closesUp, hbracket, Bool.true_and, Bool.or_eq_false_iff] at hcloses
                exact hcloses.2
              cases before with
              | none => simp [arrived]
              | some b =>
                  simp only [arrived, leavesBehind, Option.any_some, hbracket, Bool.and_true,
                    Bool.true_and, pullsUp_of_isClosingBracket b hbracket]
                  cases b.breakAfter && !b.token.isComment with
                  | false => simp
                  | true => simp [settle, hperiod, Bool.or_comm]

/-- The pass goes on with the next cell as it has arrived there. -/
theorem arrived_next
    (before : Option Cell) (c next : Cell) (rest : List Cell) :
    (if pullsUp (arrived before c (some next)) next && next.token.isClosingBracket then
        settle next rest.head?
      else next) = arrived (some c) next rest.head? := by
  cases hbracket : next.token.isClosingBracket with
  | false => simp [arrived, hbracket]
  | true =>
      have hpulls : pullsUp (arrived before c (some next)) next = pullsUp c next := by
        simp only [pullsUp, token_arrived, breakAfter_arrived_of_isClosingBracket before c hbracket]
      rw [hpulls, arrived, hbracket]
      rfl

/-- From any cell on, the pass gives every cell the line break that the cells around it give. -/
theorem sweepFrom_arrived (before : Option Cell) (c : Cell) (rest : List Cell) :
    sweepFrom (arrived before c rest.head?) rest = sweptFrom before (c :: rest) := by
  induction rest generalizing before c with
  | nil =>
      have hbreak := breakAfter_arrived before c none
      rw [Option.any_none, Bool.not_false, Bool.true_and] at hbreak
      rw [List.head?_nil, sweepFrom, sweptFrom, List.head?_nil, ← hbreak, sweptFrom,
        ← token_arrived before c none]
  | cons next rest ih =>
      have hbreak := breakAfter_arrived before c (some next)
      have hnext := arrived_next before c next rest
      have hpulls := pullsUp_eq (arrived before c (some next)) next
      rw [show closesUp (arrived before c (some next)) next = closesUp c next by
        simp [closesUp]] at hpulls
      rw [sweepFrom, sweptFrom, ← ih (some c) next, ← hnext, List.head?_cons, ← hbreak,
        Option.any_some]
      cases hmoves : pullsUp (arrived before c (some next)) next with
      | true =>
          rw [hmoves, eq_comm, Bool.and_eq_true] at hpulls
          simp [hpulls.2]
      | false =>
          rw [hmoves, eq_comm, Bool.and_eq_false_iff] at hpulls
          have hstays : (!closesUp c next && (arrived before c (some next)).breakAfter) =
              (arrived before c (some next)).breakAfter := by
            rcases hpulls with hpulls | hpulls <;> simp [hpulls]
          rw [hstays, if_neg (by simp), Bool.false_and, if_neg (by simp),
            ← token_arrived before c (some next)]

/-- Moving brackets up gives every cell the line break that the cells around it give. -/
theorem sweep_eq_sweptFrom (cells : List Cell) : sweep cells = sweptFrom none cells := by
  cases cells with
  | nil => rfl
  | cons c rest => exact sweepFrom_arrived none c rest

/-- A bracket or period moves up in the rest, or the cell has moved up itself. -/
theorem movesFrom_arrived (before : Option Cell) (c : Cell) (rest : List Cell) :
    (before.any (pullsUp · c) || movesFrom (arrived before c rest.head?) rest) =
      (before.any (pullsUp · c) || pullsAny (c :: rest)) := by
  induction rest generalizing before c with
  | nil => rfl
  | cons next rest ih =>
      cases hbefore : before.any (pullsUp · c) with
      | true => rfl
      | false =>
          have hsame : arrived before c (some next) = c := by simp [arrived, hbefore]
          have hnext := arrived_next before c next rest
          rw [hsame] at hnext
          rw [Bool.false_or, Bool.false_or, movesFrom, List.head?_cons, hsame, hnext, pullsAny]
          exact ih (some c) next

/-- A bracket or period moves up in the pass if one does with all line breaks as they are. -/
theorem moves_eq_pullsAny (cells : List Cell) : moves cells = pullsAny cells := by
  cases cells with
  | nil => rfl
  | cons c rest =>
      have hfrom := movesFrom_arrived none c rest
      rw [Option.any_none, Bool.false_or, Bool.false_or] at hfrom
      exact hfrom

/-! ## What the result has -/

theorem length_sweptFrom (before : Option Cell) (cells : List Cell) :
    (sweptFrom before cells).length = cells.length := by
  induction cells generalizing before with
  | nil => rfl
  | cons c rest ih => simp [sweptFrom, ih]

/-- The cell at a place has the line break that the cells around it give. -/
theorem getElem?_sweptFrom (before : Option Cell) (front : List Cell) (c : Cell) (back : List Cell) :
    (sweptFrom before (front ++ c :: back))[front.length]? =
      some { c with breakAfter := breakAfterSweep (front.getLast?.or before) c back.head? } := by
  induction front generalizing before with
  | nil => rfl
  | cons d front ih =>
      have hlast : (d :: front).getLast?.or before = front.getLast?.or (some d) := by
        cases front <;> simp [List.getLast?_cons]
      rw [List.cons_append, sweptFrom, List.length_cons, List.getElem?_cons_succ, ih, hlast]

/-- A line break that was there is gone if and only if a bracket or period moves up. -/
theorem any_cleared_sweptFrom (before : Option Cell) (cells : List Cell) :
    ((cells.zip (sweptFrom before cells)).any fun p => p.1.breakAfter && !p.2.breakAfter) =
      pullsAny cells := by
  induction cells generalizing before with
  | nil => rfl
  | cons c rest ih =>
      have hcleared : (c.breakAfter && !breakAfterSweep before c rest.head?) =
          rest.head?.any (pullsUp c) := by
        cases rest with
        | nil => simp [breakAfterSweep]
        | cons next rest =>
            simp only [breakAfterSweep, List.head?_cons, Option.any_some, pullsUp_eq]
            cases c.breakAfter <;> simp
      rw [sweptFrom, List.zip_cons_cons, List.any_cons, hcleared, ih]
      cases rest <;> simp [pullsAny]

/-- In the result nothing moves up any more. -/
theorem isChain_sweptFrom (before : Option Cell) (cells : List Cell) :
    (sweptFrom before cells).IsChain fun c next => pullsUp c next = false := by
  induction cells generalizing before with
  | nil => exact .nil
  | cons c rest ih =>
      cases rest with
      | nil => exact .singleton _
      | cons next rest =>
          refine List.isChain_cons_cons.mpr ⟨?_, ih (some c)⟩
          rw [pullsUp_eq]
          change (breakAfterSweep before c (some next) && closesUp c next) = false
          cases hcloses : closesUp c next <;> simp [breakAfterSweep, hcloses]

variable {cells : List Cell}

/-- Where nothing moves up, moving brackets up changes nothing. -/
theorem sweep_eq_self (h : cells.IsChain fun c next => pullsUp c next = false) :
    sweep cells = cells ∧ moves cells = false := by
  have hfrom : ∀ (rest : List Cell) (c : Cell),
      (c :: rest).IsChain (fun c next => pullsUp c next = false) →
        sweepFrom c rest = c :: rest ∧ movesFrom c rest = false := by
    intro rest
    induction rest with
    | nil => exact fun c _ => ⟨rfl, rfl⟩
    | cons next rest ih =>
        intro c hchain
        obtain ⟨hnext, hrest⟩ := List.isChain_cons_cons.mp hchain
        obtain ⟨hsweep, hmoves⟩ := ih next hrest
        constructor
        · rw [sweepFrom, if_neg (by simp [hnext]), hsweep]
        · simp [movesFrom, hnext, hmoves]
  cases cells with
  | nil => exact ⟨rfl, rfl⟩
  | cons c rest => exact hfrom rest c h

/-- The cells of an entry stand behind one another in the cells that are dealt out. -/
theorem isInfix_of_mem_deal
    {entries : List Entry} {e : Entry} (h : e ∈ Entry.deal cells entries) :
    e.cells <:+: cells := by
  induction entries generalizing cells with
  | nil => simp [Entry.deal] at h
  | cons d rest ih =>
      cases d with
      | member own trailing =>
          rw [Entry.deal, List.mem_cons] at h
          rcases h with rfl | h
          · exact (List.take_prefix _ _).isInfix
          · exact (ih h).trans (List.drop_suffix _ _).isInfix
      | remark comment =>
          rw [Entry.deal, List.mem_cons] at h
          rcases h with rfl | h
          · exact List.nil_infix
          · exact ih h

/-- Moving brackets up follows a rule that looks at every cell and the two around it as they were:
the line ends after a cell as `breakAfterSweep` says.  A bracket or period moves up if and only if a
line break that was there is gone.  Moving brackets up a second time changes nothing, and neither does
moving them up in the members of a chain on their own. -/
theorem sweep_pointwise (cells : List Cell) :
    (sweep cells).length = cells.length ∧
    (∀ front c back, cells = front ++ c :: back →
      (sweep cells)[front.length]? =
        some { c with breakAfter := breakAfterSweep front.getLast? c back.head? }) ∧
    (moves cells = true ↔ ∃ (i : Nat) (c d : Cell), cells[i]? = some c ∧
      (sweep cells)[i]? = some d ∧ c.breakAfter = true ∧ d.breakAfter = false) ∧
    sweep (sweep cells) = sweep cells ∧ moves (sweep cells) = false ∧
    ∀ s : Statement, s.cells = cells → ∀ c, (sweepStatement s).body = .chain c →
      ∀ e ∈ c.entries, sweep e.cells = e.cells ∧ moves e.cells = false := by
  have hchain := isChain_sweptFrom none cells
  rw [← sweep_eq_sweptFrom] at hchain
  have hagain := sweep_eq_self hchain
  refine ⟨?_, ?_, ?_, hagain.1, hagain.2, ?_⟩
  · rw [sweep_eq_sweptFrom, length_sweptFrom]
  · rintro front c back rfl
    rw [sweep_eq_sweptFrom, getElem?_sweptFrom, Option.or_none]
  · rw [moves_eq_pullsAny, ← any_cleared_sweptFrom none, ← sweep_eq_sweptFrom, List.any_eq_true]
    simp only [Prod.exists, List.mem_iff_getElem?, List.getElem?_zip_eq_some, Bool.and_eq_true,
      Bool.not_eq_true']
    constructor
    · rintro ⟨c, d, ⟨i, hc, hd⟩, hbreak, hgone⟩
      exact ⟨i, c, d, hc, hd, hbreak, hgone⟩
    · rintro ⟨i, c, d, hc, hd, hbreak, hgone⟩
      exact ⟨c, d, ⟨i, hc, hd⟩, hbreak, hgone⟩
  · rintro s rfl c hc e he
    cases hbody : s.body with
    | plain own => simp [sweepStatement, hbody, Body.withCells] at hc
    | chain chain =>
        simp only [sweepStatement, hbody, Body.withCells, Body.chain.injEq] at hc
        rw [← hc] at he
        exact sweep_eq_self <| List.IsChain.infix hchain (isInfix_of_mem_deal he)

/-- The bracket of a member moves up behind `a`, and the operator behind it gets a line of its own. -/
theorem sweep_pointwise_operator :
    let bracket : Token := .onLine .word [')'] 2 0
    let cells : List Cell := [⟨.onLine .word ['a'] 1 2, true⟩, ⟨bracket, false⟩,
      ⟨.onLine .word ['*'] 2 2, false⟩]
    (sweep cells)[1]? = some ⟨bracket, true⟩ ∧ moves cells = true ∧
      sweep (sweep cells) = sweep cells ∧ moves (sweep cells) = false ∧
      ∀ e ∈ Entry.deal (sweep cells) [.member cells none],
        sweep e.cells = e.cells ∧ moves e.cells = false := by
  intro bracket cells
  have h := sweep_pointwise cells
  have hmoves : ∃ (i : Nat) (c d : Cell), cells[i]? = some c ∧ (sweep cells)[i]? = some d ∧
      c.breakAfter = true ∧ d.breakAfter = false :=
    ⟨0, _, _, rfl, rfl, rfl, rfl⟩
  let chain : Chain := ⟨.onLine .word ['x'] 1 0, [], .onLine .colon [':'] 1 1, [.member cells none]⟩
  let s : Statement :=
    { body := .chain chain, kind := .other, span := none, wording := [], rawIndex := 0 }
  exact ⟨h.2.1 [_] ⟨bracket, false⟩ [_] rfl, h.2.2.1.mpr hmoves, h.2.2.2.1, h.2.2.2.2.1,
    h.2.2.2.2.2 s rfl _ rfl⟩

end Bracket
end AbapLayout
