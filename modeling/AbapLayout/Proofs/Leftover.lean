import AbapLayout.Proofs.Splitting

/-!
# What is left over at the end of a source

The machine that cuts tokens into statements refuses a source only for what it still holds at the
end.  Of what it holds, the `Outline` keeps the lines at which tokens, pragmas and an open chain
begin, and the number of open brackets: it follows the machine step by step and tells whether a
source is refused and for which line (`statements_eq_error_iff`).
-/

namespace AbapLayout

/-- Where the things begin that are held since the last terminator, and the number of open
brackets. -/
structure Outline where
  pending : Option Nat := none
  pragmas : Option Nat := none
  /-- The line of the colon of an open chain. -/
  colon : Option Nat := none
  depth : Nat := 0
deriving DecidableEq, Repr

namespace Outline

/-- The line of the first thing that is left over. -/
def leftover? (k : Outline) : Option Nat :=
  k.pending.or (k.pragmas.or k.colon)

def depthAfter (k : Outline) (t : Token) : Nat :=
  if t.isOneOf ["(", "["] then k.depth + 1
  else if t.isOneOf [")", "]"] then k.depth - 1
  else k.depth

/-- Takes a token that is neither comment nor pragma and opens no chain. -/
def pushCode (k : Outline) (t : Token) : Outline :=
  let depth := k.depthAfter t
  if t.role = .punctuation ∧ (t.text = ['.'] ∨ (k.colon.isSome ∧ depth = 0)) then
    if t.text = ['.'] then {} else { colon := k.colon, depth }
  else { k with pending := k.pending.or (some t.span.startLine), depth }

/-- Takes one token.  A comment is held only behind other tokens, so it begins nothing. -/
def push (k : Outline) (t : Token) : Outline :=
  match t.role with
  | .comment => k
  | .pragma => { k with pragmas := k.pragmas.or (some t.span.startLine) }
  | .colon =>
    if k.colon.isNone ∧ k.depth = 0 then
      { k with colon := some t.span.startLine, pending := none }
    else k.pushCode t
  | _ => k.pushCode t

def after (ts : List Token) (k : Outline) : Outline :=
  ts.foldl push k

theorem after_cons (t : Token) (ts : List Token) :
    after (t :: ts) = fun k => after ts (k.push t) :=
  rfl

theorem after_append (ts us : List Token) :
    after (ts ++ us) = fun k => after us (after ts k) := by
  funext k
  exact List.foldl_append

end Outline

namespace Unfinished

def outline (u : Unfinished) : Outline where
  pending := u.pending.head?.map (·.span.startLine)
  pragmas := u.pragmas.head?.map (·.span.startLine)
  colon := u.chain.map (·.2.span.startLine)
  depth := u.depth

theorem outline_pushCode (u : Unfinished) (t : Token) :
    (u.pushCode t).2.outline = u.outline.pushCode t := by
  have hdepth : u.outline.depthAfter t = u.depthAfter t := rfl
  have hchain : u.outline.colon.isSome = u.chain.isSome := by simp [outline]
  unfold pushCode Outline.pushCode
  rw [hdepth, hchain]
  dsimp only
  split
  · split <;> rfl
  · simp [outline]

/-- The outline follows the machine. -/
theorem outline_push (u : Unfinished) (t : Token) :
    (u.push t).2.outline = u.outline.push t := by
  unfold push Outline.push
  cases t.role with
  | comment =>
      dsimp only
      split
      · rfl
      next hheld =>
        obtain ⟨first, rest, hpending⟩ : ∃ first rest, u.pending = first :: rest :=
          List.exists_cons_of_ne_nil (by simpa using hheld)
        simp [outline, hpending]
  | pragma => simp [outline]
  | colon =>
      have hopens : (u.outline.colon.isNone = true ∧ u.outline.depth = 0) ↔
          (u.chain.isNone = true ∧ u.depth = 0) := by simp [outline]
      simp only [hopens]
      split
      · simp [outline]
      · exact outline_pushCode u t
  | word | punctuation | literal | arrow => exact outline_pushCode u t

theorem leftover?_outline (u : Unfinished) :
    u.outline.leftover? = u.leftover?.map (·.span.startLine) := by
  unfold leftover? Outline.leftover? outline
  cases u.pending.head? <;> cases u.pragmas.head? <;> cases u.chain <;> rfl

/-- Tokens are refused exactly for what their outline leaves over. -/
theorem statements_eq_error_iff
    {u : Unfinished} {ts : List Token} {rejection : Rejection} :
    u.statements ts = .error rejection ↔
      ∃ line, (Outline.after ts u.outline).leftover? = some line ∧
        rejection = .unterminated line := by
  induction ts generalizing u with
  | nil =>
      rw [Outline.after, List.foldl_nil, leftover?_outline, statements]
      cases u.leftover? <;> simp [eq_comm]
  | cons t ts ih =>
      simp only [Outline.after_cons]
      rw [← outline_push, ← ih, statements]
      split
      next v hpush => rw [hpush]
      next s v hpush =>
        rw [hpush]
        cases v.statements ts <;> simp [Except.map]

end Unfinished
end AbapLayout
