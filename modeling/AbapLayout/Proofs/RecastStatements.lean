import AbapLayout.Proofs.Faults
import AbapLayout.Proofs.Recast
import Mathlib.Data.List.Forall2

/-!
# Recast statements

A recast of the tokens of a source is a recast of its statements: they are cut at the same places,
put together in the same way, stand on the same levels, and have their brackets moved up alike
(`Layout.arrange_recast`).  The wording of a statement is not laid out, and nothing is said about
it.
-/

namespace AbapLayout

/-! ## Raw statements -/

def Opening.recast (φ : Recast) : Opening → Opening
  | .none => .none
  | .shared words colon => .shared (words.map φ) (φ colon)
  | .stray colon => .stray (φ colon)

def RawStatement.recast (φ : Recast) (r : RawStatement) : RawStatement :=
  { r with
    opening := r.opening.recast φ
    body := r.body.map φ
    pragmas := r.pragmas.map φ }

variable (φ : Recast)

@[simp] theorem Opening.tokens_recast (opening : Opening) :
    (opening.recast φ).tokens = opening.tokens.map φ := by
  cases opening <;> simp [recast, tokens]

@[simp] theorem Opening.colon?_recast (opening : Opening) :
    (opening.recast φ).colon? = opening.colon?.map φ := by
  cases opening <;> rfl

namespace RawStatement

@[simp] theorem kind_recast (r : RawStatement) : (r.recast φ).kind = r.kind :=
  rfl

@[simp] theorem detached_recast (r : RawStatement) : (r.recast φ).detached = r.detached :=
  rfl

@[simp] theorem colon?_recast (r : RawStatement) : (r.recast φ).colon? = r.colon?.map φ :=
  r.opening.colon?_recast φ

@[simp] theorem tokens_recast (r : RawStatement) : (r.recast φ).tokens = r.tokens.map φ := by
  simp [tokens, recast]

@[simp] theorem startLine_recast (r : RawStatement) : (r.recast φ).startLine = r.startLine := by
  rw [startLine, tokens_recast, List.head?_map, startLine]
  cases r.tokens.head? <;> simp

@[simp] theorem endLine_recast (r : RawStatement) : (r.recast φ).endLine = r.endLine := by
  rw [endLine, tokens_recast, List.getLast?_map, endLine]
  cases r.tokens.getLast? <;> simp

/-- Recasting is a map of the tokens. -/
theorem map_eq_recast (r : RawStatement) : r.map φ = r.recast φ := by
  cases hopening : r.opening <;> simp [map, recast, Opening.map, Opening.recast, hopening]

end RawStatement

/-- Recast tokens are cut into recast statements. -/
theorem Unfinished.statements_recast
    {ts : List Token} {raws : List RawStatement}
    (h : ({} : Unfinished).statements ts = .ok raws) :
    ({} : Unfinished).statements (ts.map φ) = .ok (raws.map (RawStatement.recast φ)) := by
  have hline : ∀ t, (φ t).span.startLine = id t.span.startLine := fun t => by simp
  calc
    ({} : Unfinished).statements (ts.map φ) =
        (((({} : Unfinished).statements ts).map (List.map (RawStatement.map φ))).mapError
          (Rejection.mapLine id)) := statements_map φ.keepsWords hline {} ts
    _ = .ok (raws.map (RawStatement.recast φ)) := by
      rw [h]
      exact congrArg Except.ok (List.map_congr_left fun r _ => RawStatement.map_eq_recast φ r)

/-! ## Levels -/

theorem Level.aspectsFrom_recast
    (pairs : List (Nat × Nat)) (index : Nat) (above : Option Nat) (raws : List RawStatement) :
    aspectsFrom pairs index above (raws.map (RawStatement.recast φ)) =
      aspectsFrom pairs index above raws := by
  induction raws generalizing index above with
  | nil => rfl
  | cons r rest ih => simp [aspectsFrom, ih]

theorem levels_recast (raws : List RawStatement) :
    levels (raws.map (RawStatement.recast φ)) = levels raws := by
  have hkinds : (raws.map (RawStatement.recast φ)).map (·.kind) = raws.map (·.kind) := by
    simp [Function.comp_def]
  rw [levels, Level.aspects, hkinds, Level.aspectsFrom_recast, levels, Level.aspects]

/-! ## Statements -/

def Comment.moved (shift : Nat → Nat) (c : Comment) : Comment :=
  { c with span := c.span.moved shift }

def Cell.recast (c : Cell) : Cell :=
  { c with token := φ c.token }

def Entry.recast : Entry → Entry
  | .member cells trailing => .member (cells.map (·.recast φ)) (trailing.map (·.moved φ.shift))
  | .remark comment => .remark (comment.moved φ.shift)

def Chain.recast (c : Chain) : Chain where
  keyword := φ c.keyword
  others := c.others.map φ
  colon := φ c.colon
  entries := c.entries.map (·.recast φ)

def Body.recast : Body → Body
  | .plain cells => .plain (cells.map (·.recast φ))
  | .chain c => .chain (c.recast φ)

/-- A statement with recast tokens and another wording. -/
def Statement.recast (wording : Text) (s : Statement) : Statement :=
  { s with
    body := s.body.recast φ
    span := s.span.map (·.moved φ.shift)
    note := s.note.map (·.moved φ.shift)
    pragmas := s.pragmas.map φ
    wording
    post := s.post.map (·.moved φ.shift) }

def Statement.IsRecast (s s' : Statement) : Prop :=
  ∃ wording, s' = s.recast φ wording

namespace Assembly

/-! ## One statement or member -/

theorem takeSignComment_recast (ts : List Token) :
    takeSignComment (ts.map φ) =
      ((takeSignComment ts).1.map φ, (takeSignComment ts).2.map φ) := by
  induction ts with
  | nil => rfl
  | cons t ts ih =>
      rw [List.map_cons, takeSignComment, takeSignComment, φ.isSignComment, ih]
      split <;> rfl

theorem link_recast (ts : List Token) :
    link (ts.map φ) = (link ts).map (·.recast φ) := by
  fun_induction link ts with
  | case1 => rfl
  | case2 t => rfl
  | case3 t u rest ih =>
      simp only [List.map_cons] at ih ⊢
      rw [link, ih]
      simp [Cell.recast]

theorem placePragmas_recast (pragmas : List Token) (cells : List Cell) :
    placePragmas (pragmas.map φ) (cells.map (·.recast φ)) =
      (placePragmas pragmas cells).map (·.recast φ) := by
  unfold placePragmas
  rw [List.getLast?_map]
  cases cells.getLast? with
  | none => simp [Cell.recast]
  | some last =>
      have hterminator : (last.recast φ).token.isTerminator = last.token.isTerminator :=
        φ.isTerminator last.token
      simp only [Option.map_some, hterminator]
      split <;> simp [Cell.recast]

theorem inlineComment_recast {t : Token} (h : t.isComment = true) :
    inlineComment (φ t) = (inlineComment t).moved φ.shift := by
  simp [inlineComment, Comment.moved, φ.comment_eq t h]

theorem finish_recast (tokens pragmas : List Token) :
    finish (tokens.map φ) (pragmas.map φ) =
      ((finish tokens pragmas).1.map (·.recast φ),
        (finish tokens pragmas).2.map (·.moved φ.shift)) := by
  have hsign : ((takeSignComment tokens).1.map φ).map inlineComment =
      ((takeSignComment tokens).1.map inlineComment).map (·.moved φ.shift) := by
    cases hcomment : (takeSignComment tokens).1 with
    | none => rfl
    | some t =>
        have hsign := (isSignComment_of_takeSignComment hcomment).2
        rw [Token.isSignComment, Bool.and_eq_true] at hsign
        exact congrArg some (inlineComment_recast φ hsign.1)
  simp only [finish, takeSignComment_recast, link_recast, placePragmas_recast, hsign]

theorem placing_recast (cells : List Cell) :
    placing (cells.map (·.recast φ)) = (placing cells).map φ := by
  have htokens : (cells.map (·.recast φ)).map (·.token) = (cells.map (·.token)).map φ := by
    simp [Cell.recast]
  have hcode : ((cells.map (·.token)).map φ).filter (fun t => !t.isPragma) =
      ((cells.map (·.token)).filter fun t => !t.isPragma).map φ := by
    simp [List.filter_map, Function.comp_def]
  unfold placing
  simp only [htokens, hcode, List.isEmpty_map]
  split <;> rfl

theorem cover_recast (ts : List Token) :
    Span.cover ((ts.map φ).map (·.span)) = (Span.cover (ts.map (·.span))).map (·.moved φ.shift) := by
  rw [← Span.cover_moved]
  simp [Function.comp_def]

theorem ofSingle_recast (index : Nat) (r : RawStatement) :
    (ofSingle index r).IsRecast φ (ofSingle index (r.recast φ)) := by
  refine ⟨(r.recast φ).wording, ?_⟩
  simp only [ofSingle, RawStatement.recast, finish_recast, placing_recast, cover_recast]
  rfl

theorem ofComment_recast (index : Nat) (r : RawStatement) (c : Comment) :
    (ofComment index r c).IsRecast φ (ofComment index (r.recast φ) (c.moved φ.shift)) :=
  ⟨c.value, rfl⟩

/-! ## Chains -/

@[simp] theorem endsInPeriod_recast (r : RawStatement) :
    endsInPeriod (r.recast φ) = endsInPeriod r := by
  rw [endsInPeriod, RawStatement.tokens_recast, List.getLast?_map, endsInPeriod]
  cases r.tokens.getLast? with
  | none => rfl
  | some t =>
      rw [Bool.eq_iff_iff]
      simp [φ.text_eq_iff t (s := ['.']) (by decide)]

@[simp] theorem sharesColon_recast (colon : Token) (r : RawStatement) :
    sharesColon (φ colon) (r.recast φ) = sharesColon colon r := by
  rw [sharesColon, RawStatement.colon?_recast, sharesColon]
  cases r.colon? with
  | none => rfl
  | some other =>
      simp only [Option.map_some, φ.span]
      exact Span.sameStart_moved φ.shift other.span colon.span

theorem candidates_recast (colon : Token) (finished : Bool) (raws : List RawStatement) :
    candidates (φ colon) finished (raws.map (RawStatement.recast φ)) =
      (candidates colon finished raws).map (RawStatement.recast φ) := by
  induction raws generalizing finished with
  | nil => rfl
  | cons r rest ih =>
      rw [List.map_cons, candidates, candidates]
      simp only [sharesColon_recast, endsInPeriod_recast, RawStatement.kind_recast, ih]
      split
      · rfl
      split
      · rfl
      split <;> rfl

theorem dropComments_recast (raws : List RawStatement) :
    dropComments (raws.map (RawStatement.recast φ)) =
      (dropComments raws).map (RawStatement.recast φ) := by
  have hcolon : (fun r : RawStatement => r.colon?.isNone) ∘ RawStatement.recast φ =
      fun r => r.colon?.isNone := by
    funext r
    simp
  rw [dropComments, ← List.map_reverse, List.dropWhile_map, hcolon, ← List.map_reverse,
    dropComments]

theorem hasSignComment_recast
    {r : RawStatement} {b : Bool} (h : hasSignComment r = .ok b) :
    hasSignComment (r.recast φ) = .ok b := by
  have hbody : ((r.recast φ).body.any Token.isSignComment) = r.body.any Token.isSignComment := by
    simp [RawStatement.recast, List.any_map, Function.comp_def]
  rw [hasSignComment] at h ⊢
  rw [hbody]
  cases hopening : r.opening with
  | none => simpa [RawStatement.recast, Opening.recast, hopening] using h
  | shared words colon => simpa [RawStatement.recast, Opening.recast, hopening] using h
  | stray colon => simp [hopening] at h

theorem closesChain_recast
    {last next : RawStatement} {b : Bool} (h : closesChain last next = .ok b) :
    closesChain (last.recast φ) (next.recast φ) = .ok b := by
  rw [closesChain] at h ⊢
  rw [RawStatement.kind_recast, RawStatement.tokens_recast, RawStatement.startLine_recast,
    RawStatement.endLine_recast]
  split at h
  next hkind =>
    rw [if_pos hkind]
    cases htokens : next.tokens with
    | nil => simp [htokens] at h
    | cons t rest =>
        rw [htokens] at h
        simp only [List.map_cons, φ.isSignComment] at h ⊢
        split at h
        next hcloses =>
          rw [if_pos hcloses]
          obtain ⟨has, hhas, hb⟩ := map_eq_ok_iff.mp h
          rw [hasSignComment_recast φ hhas]
          exact congrArg Except.ok hb
        next hcloses =>
          rw [if_neg hcloses]
          exact h
  next hkind =>
    rw [if_neg hkind]
    exact h

theorem chainExtent_recast
    {colon : Token} {first : RawStatement} {rest : List RawStatement} {n : Nat}
    (h : chainExtent colon first rest = .ok n) :
    chainExtent (φ colon) (first.recast φ) (rest.map (RawStatement.recast φ)) = .ok n := by
  unfold chainExtent at h ⊢
  simp only [endsInPeriod_recast, candidates_recast, dropComments_recast, List.length_map,
    ← List.map_drop, List.getLast?_map, Option.getD_map] at h ⊢
  cases hrest : rest.drop
      (dropComments (candidates colon (endsInPeriod first) rest)).length with
  | nil =>
      rw [hrest] at h
      exact h
  | cons next more =>
      rw [hrest] at h
      obtain ⟨closes, hcloses, hn⟩ := map_eq_ok_iff.mp h
      have hcloses' := closesChain_recast φ hcloses
      simp only [List.map_cons, hcloses']
      exact congrArg Except.ok hn

def Draft.recast (d : Draft) : Draft where
  before := d.before.map (·.recast φ)
  cells := d.cells.map (·.recast φ)
  trailing := d.trailing.map (·.moved φ.shift)
  endLine := d.endLine
  remarks := d.remarks.map (·.recast φ)

theorem Draft.entries_recast (d : Draft) :
    (d.recast φ).entries = d.entries.map (·.recast φ) := by
  simp [Draft.entries, Draft.recast, Entry.recast]

theorem Draft.start_recast (before : List Entry) (r : RawStatement) :
    Draft.start (before.map (·.recast φ)) (r.recast φ) = (Draft.start before r).recast φ := by
  have hfinish := finish_recast φ r.body r.pragmas
  have hparts : (r.recast φ).body = r.body.map φ ∧ (r.recast φ).pragmas = r.pragmas.map φ :=
    ⟨rfl, rfl⟩
  simp [Draft.start, Draft.recast, hparts, hfinish]

theorem Draft.addComment_recast (d : Draft) {t : Token} (h : t.isComment = true) :
    (d.recast φ).addComment (φ t) = (d.addComment t).recast φ := by
  have htrailing : (d.recast φ).trailing.isNone = d.trailing.isNone := by simp [Draft.recast]
  have hline : (d.recast φ).endLine = d.endLine := rfl
  unfold Draft.addComment
  simp only [φ.span, Span.startLine_moved, φ.isSignComment, htrailing, hline, φ.comment_eq t h]
  split <;> simp [Draft.recast, Entry.recast, Comment.moved]

theorem Draft.add_recast
    {shared : List Token} {colon : Token} {d d' : Draft} {r : RawStatement}
    (hr : InChain shared colon r) (h : d.add r = .ok d') :
    (d.recast φ).add (r.recast φ) = .ok (d'.recast φ) := by
  rcases hr with ⟨t, ht, rfl⟩ | ⟨sign, body, pragmas, -, -, rfl⟩
  · injection h with h
    rw [← h]
    exact congrArg Except.ok (d.addComment_recast φ ht)
  · injection h with h
    rw [← h, ← Draft.start_recast, ← Draft.entries_recast]
    rfl

theorem Draft.addAll_recast
    {shared : List Token} {colon : Token} {d d' : Draft} {raws : List RawStatement}
    (hall : ∀ r ∈ raws, InChain shared colon r) (h : d.addAll raws = .ok d') :
    (d.recast φ).addAll (raws.map (RawStatement.recast φ)) = .ok (d'.recast φ) := by
  induction raws generalizing d with
  | nil =>
      injection h with h
      rw [← h]
      rfl
  | cons r rest ih =>
      rw [Draft.addAll] at h
      split at h
      · simp at h
      next next hadd =>
        rw [List.map_cons, Draft.addAll, Draft.add_recast φ (hall r (by simp)) hadd]
        exact ih (fun p hp => hall p (by simp [hp])) h

@[simp] theorem startLine_entryRecast (e : Entry) : (e.recast φ).startLine = e.startLine := by
  cases e with
  | remark comment => rfl
  | member cells trailing => cases cells <;> simp [Entry.recast, Entry.startLine, Cell.recast]

theorem insertEntry_recast (e : Entry) (entries : List Entry) :
    insertEntry (e.recast φ) (entries.map (·.recast φ)) =
      (insertEntry e entries).map (·.recast φ) := by
  induction entries with
  | nil => rfl
  | cons f rest ih =>
      rw [List.map_cons, insertEntry, insertEntry, startLine_entryRecast, startLine_entryRecast, ih]
      split <;> rfl

theorem sortEntries_recast (entries : List Entry) :
    sortEntries (entries.map (·.recast φ)) = (sortEntries entries).map (·.recast φ) := by
  induction entries with
  | nil => rfl
  | cons e rest ih =>
      rw [sortEntries] at ih ⊢
      rw [List.map_cons, List.foldr_cons, ih, insertEntry_recast]
      rfl

theorem cells_entryRecast (e : Entry) : (e.recast φ).cells = e.cells.map (·.recast φ) := by
  cases e <;> rfl

theorem flatMap_cells_recast (entries : List Entry) :
    (entries.map (·.recast φ)).flatMap Entry.cells =
      (entries.flatMap Entry.cells).map (·.recast φ) := by
  simp [List.flatMap_map, List.map_flatMap, cells_entryRecast]

theorem ofChain_recast
    {index : Nat} {shared : List Token} {colon : Token} {first : RawStatement}
    {rest : List RawStatement} {s : Statement}
    (hopening : first.opening = .shared shared colon)
    (hall : ∀ r ∈ rest, InChain shared colon r) (h : ofChain index first rest = .ok s) :
    ∃ s', ofChain index (first.recast φ) (rest.map (RawStatement.recast φ)) = .ok s' ∧
      s.IsRecast φ s' := by
  have hopening' : (first.recast φ).opening = .shared (shared.map φ) (φ colon) := by
    simp [RawStatement.recast, hopening, Opening.recast]
  have hwords : (shared.map φ).filter (fun t => !t.isComment) =
      (shared.filter fun t => !t.isComment).map φ := by
    simp [List.filter_map, Function.comp_def]
  unfold ofChain at h ⊢
  rw [hopening] at h
  rw [hopening']
  dsimp only at h ⊢
  rw [hwords]
  cases hshared : shared.filter fun t => !t.isComment with
  | nil => simp [hshared] at h
  | cons keyword others =>
      rw [hshared] at h
      dsimp only at h
      obtain ⟨draft, hdraft, rfl⟩ := map_eq_ok_iff.mp h
      have hdraft' := Draft.addAll_recast φ hall hdraft
      rw [← Draft.start_recast, List.map_nil] at hdraft'
      have htokens : φ keyword :: others.map φ ++ φ colon ::
            (((sortEntries draft.entries).flatMap Entry.cells).map (·.recast φ)).map (·.token) =
          (keyword :: others ++ colon ::
            ((sortEntries draft.entries).flatMap Entry.cells).map (·.token)).map φ := by
        simp [Cell.recast, Function.comp_def]
      have hpragmas : ((rest.map (RawStatement.recast φ)).filter
            (·.colon?.isSome)).flatMap (·.pragmas) =
          ((rest.filter (·.colon?.isSome)).flatMap (·.pragmas)).map φ := by
        have hmember : (fun r : RawStatement => r.colon?.isSome) ∘ RawStatement.recast φ =
            fun r => r.colon?.isSome := by
          funext r
          simp
        rw [List.filter_map, hmember, List.flatMap_map, List.map_flatMap]
        rfl
      simp only [List.map_cons, hdraft', Except.map, Draft.entries_recast, sortEntries_recast,
        flatMap_cells_recast, htokens, cover_recast, hpragmas]
      refine ⟨_, rfl, Text.join [' '] ((first :: rest).map fun r => (r.recast φ).wording), ?_⟩
      simp [Statement.recast, Body.recast, Chain.recast, RawStatement.recast, Function.comp_def]

end Assembly

/-! ## The comment behind a statement -/

namespace Statement

theorem trailing?_recast (s : Statement) (wording : Text) :
    (s.recast φ wording).trailing? = s.trailing?.map (·.moved φ.shift) := by
  unfold trailing? recast
  cases s.body with
  | plain cells => rfl
  | chain c =>
      simp only [Body.recast, Chain.recast, List.getLast?_map]
      cases c.entries.getLast? with
      | none => rfl
      | some e => cases e <;> rfl

theorem setTrailing_recast (s : Statement) (wording : Text) (comment : Option Comment) :
    (s.recast φ wording).setTrailing (comment.map (·.moved φ.shift)) =
      (s.setTrailing comment).recast φ wording := by
  unfold setTrailing
  cases hbody : s.body with
  | plain cells => simp [recast, hbody, Body.recast]
  | chain c =>
      simp only [recast, hbody, Body.recast, Chain.recast, List.getLast?_map]
      cases c.entries.getLast? with
      | none => rfl
      | some e =>
          cases e with
          | member => simp [Entry.recast]
          | remark => rfl

theorem IsRecast.setTrailing
    {s s' : Statement} (h : s.IsRecast φ s') (comment : Option Comment) :
    (s.setTrailing comment).IsRecast φ (s'.setTrailing (comment.map (·.moved φ.shift))) := by
  obtain ⟨wording, rfl⟩ := h
  exact ⟨wording, s.setTrailing_recast φ wording comment⟩

end Statement

namespace Assembly

theorem acceptsTrailing_recast
    {s s' : Statement} (h : s.IsRecast φ s') (t : Token) (inline : Bool) :
    acceptsTrailing s' (φ t) inline = acceptsTrailing s t inline := by
  obtain ⟨wording, rfl⟩ := h
  have hkind : (s.recast φ wording).kind = s.kind := rfl
  simp [acceptsTrailing, Statement.trailing?_recast, hkind]

/-- What two runs of the assembly know of the statement in front: nothing, or a statement and a
recast of it. -/
abbrev RecastFront (previous previous' : Option Statement) : Prop :=
  Option.Rel (Statement.IsRecast φ) previous previous'

theorem RecastFront.toList
    {previous previous' : Option Statement} (h : RecastFront φ previous previous') :
    List.Forall₂ (Statement.IsRecast φ) previous.toList previous'.toList := by
  cases h with
  | none => exact .nil
  | some h => exact .cons h .nil

theorem endsOnLineOf_recast
    {previous previous' : Option Statement} (h : RecastFront φ previous previous') {t : Token}
    {b : Bool} (hb : endsOnLineOf previous t = .ok b) :
    endsOnLineOf previous' (φ t) = .ok b := by
  cases h with
  | none => exact hb
  | @some s s' h =>
      obtain ⟨wording, rfl⟩ := h
      simp only [endsOnLineOf, Statement.recast] at hb ⊢
      cases hspan : s.span with
      | none => simp [hspan] at hb
      | some span => simpa [hspan] using hb

/-- A recast comment goes to a recast statement, or stands alone, as the comment did. -/
theorem addComment_recast
    {index : Nat} {previous previous' finished : Option Statement} {s : Statement} {t : Token}
    (ht : t.isComment = true) (hprevious : RecastFront φ previous previous')
    (h : addComment index previous (RawStatement.ofComment t) = .ok (finished, s)) :
    ∃ finished' s',
      addComment index previous' (RawStatement.ofComment (φ t)) = .ok (finished', s') ∧
        RecastFront φ finished finished' ∧ s.IsRecast φ s' := by
  unfold addComment at h ⊢
  simp only [RawStatement.ofComment] at h ⊢
  obtain ⟨inline, hinline, hsplit⟩ := map_eq_ok_iff.mp h
  have hcomment : ({ value := (φ t).text, inline, span := (φ t).span } : Comment) =
      ({ value := t.text, inline, span := t.span } : Comment).moved φ.shift := by
    simp [Comment.moved, φ.comment_eq t ht]
  have hstands := ofComment_recast φ index (RawStatement.ofComment t)
    { value := t.text, inline, span := t.span }
  rw [endsOnLineOf_recast φ hprevious hinline]
  simp only [Except.map, hcomment]
  cases hprevious with
  | none =>
      injection hsplit with hfinished hs
      subst hfinished hs
      exact ⟨_, _, rfl, .none, hstands⟩
  | @some p p' hp =>
      dsimp only at hsplit ⊢
      rw [acceptsTrailing_recast φ hp]
      split at hsplit
      next haccepts =>
        injection hsplit with hfinished hs
        subst hfinished hs
        rw [if_pos haccepts]
        exact ⟨_, _, rfl, .none, hp.setTrailing φ (some _)⟩
      next haccepts =>
        injection hsplit with hfinished hs
        subst hfinished hs
        rw [if_neg haccepts]
        exact ⟨_, _, rfl, .some hp, hstands⟩

/-- Recast raw statements are put together to recast statements. -/
theorem buildFrom_recast
    {index : Nat} {previous previous' : Option Statement} {raws : List RawStatement}
    {statements : List Statement}
    (hgrouped : Grouped none raws) (hprevious : RecastFront φ previous previous')
    (h : buildFrom index previous raws = .ok statements) :
    ∃ statements', buildFrom index previous' (raws.map (RawStatement.recast φ)) = .ok statements' ∧
      List.Forall₂ (Statement.IsRecast φ) statements statements' := by
  fun_induction buildFrom index previous raws generalizing previous' statements with
  | case1 index previous =>
      injection h with h
      rw [← h, List.map_nil, buildFrom]
      exact ⟨_, rfl, hprevious.toList⟩
  | case2 => simp at h
  | case3 => simp at h
  | case4 index previous r rest colon hcolon n hextent s hchain ih =>
      obtain ⟨more, hmore, rfl⟩ := map_eq_ok_iff.mp h
      obtain ⟨shared, hopening, hahead⟩ := chainExtent_spec hgrouped hcolon hextent
      obtain ⟨s', hs', hrecast⟩ := ofChain_recast φ hopening
        (fun p hp => hahead.members p (List.mem_cons_of_mem r hp)) hchain
      obtain ⟨more', hmore', hrest⟩ := ih hahead.grouped (.some hrecast) hmore
      rw [List.map_take] at hs'
      rw [List.map_drop] at hmore'
      rw [List.map_cons, buildFrom, RawStatement.colon?_recast, hcolon]
      simp only [Option.map_some, chainExtent_recast φ hextent, hs', hmore', Except.map]
      exact ⟨_, rfl, List.rel_append hprevious.toList hrest⟩
  | case5 => simp at h
  | case6 index previous r rest hcolon hkind finished s hadd ih =>
      obtain ⟨more, hmore, rfl⟩ := map_eq_ok_iff.mp h
      obtain ⟨t, ht, rfl, hgroupedRest⟩ := Grouped.of_comment hgrouped hkind
      obtain ⟨finished', s', hadd', hfinished, hrecast⟩ := addComment_recast φ ht hprevious hadd
      obtain ⟨more', hmore', hrest⟩ := ih hgroupedRest (.some hrecast) hmore
      have hcomment : (RawStatement.ofComment t).recast φ = RawStatement.ofComment (φ t) := rfl
      rw [List.map_cons, buildFrom, RawStatement.colon?_recast, hcolon]
      simp only [Option.map_none, hcomment, hadd', hmore', Except.map]
      exact ⟨_, rfl, List.rel_append hfinished.toList hrest⟩
  | case7 index previous r rest hcolon hkind ih =>
      obtain ⟨more, hmore, rfl⟩ := map_eq_ok_iff.mp h
      obtain ⟨body, pragmas, -, -, hgroupedRest⟩ := Grouped.of_plain hgrouped hcolon hkind
      obtain ⟨more', hmore', hrest⟩ := ih hgroupedRest (.some (ofSingle_recast φ index r)) hmore
      rw [List.map_cons, buildFrom, RawStatement.colon?_recast, hcolon]
      simp only [Option.map_none, RawStatement.kind_recast, if_neg hkind, hmore', Except.map]
      exact ⟨_, rfl, List.rel_append hprevious.toList hrest⟩

end Assembly

/-! ## Moving brackets up -/

namespace Bracket

@[simp] theorem pullsUp_recast (c next : Cell) :
    pullsUp (c.recast φ) (next.recast φ) = pullsUp c next := by
  simp [pullsUp, Cell.recast]

theorem settle_recast (c : Cell) (following : Option Cell) :
    settle (c.recast φ) (following.map (·.recast φ)) = (settle c following).recast φ := by
  cases following <;> simp [settle, staysBehind, Cell.recast]

theorem sweepFrom_recast (c : Cell) (cells : List Cell) :
    sweepFrom (c.recast φ) (cells.map (·.recast φ)) = (sweepFrom c cells).map (·.recast φ) := by
  induction cells generalizing c with
  | nil => rfl
  | cons next rest ih =>
      have hclosing : (next.recast φ).token.isClosingBracket = next.token.isClosingBracket :=
        φ.isClosingBracket next.token
      rw [List.map_cons, sweepFrom, sweepFrom, pullsUp_recast, hclosing, List.head?_map,
        settle_recast]
      split
      · rw [← apply_ite (Cell.recast φ), ih]
        rfl
      · rw [ih]
        rfl

theorem movesFrom_recast (c : Cell) (cells : List Cell) :
    movesFrom (c.recast φ) (cells.map (·.recast φ)) = movesFrom c cells := by
  induction cells generalizing c with
  | nil => rfl
  | cons next rest ih =>
      have hclosing : (next.recast φ).token.isClosingBracket = next.token.isClosingBracket :=
        φ.isClosingBracket next.token
      rw [List.map_cons, movesFrom, movesFrom, pullsUp_recast, hclosing, List.head?_map,
        settle_recast, ← apply_ite (Cell.recast φ), ih]

theorem sweep_recast (cells : List Cell) :
    sweep (cells.map (·.recast φ)) = (sweep cells).map (·.recast φ) := by
  cases cells with
  | nil => rfl
  | cons c rest => exact sweepFrom_recast φ c rest

theorem moves_recast (cells : List Cell) : moves (cells.map (·.recast φ)) = moves cells := by
  cases cells with
  | nil => rfl
  | cons c rest => exact movesFrom_recast φ c rest

theorem breakBeforePeriod_recast (cells : List Cell) :
    breakBeforePeriod (cells.map (·.recast φ)) = (breakBeforePeriod cells).map (·.recast φ) := by
  induction cells with
  | nil => rfl
  | cons c rest ih =>
      cases rest with
      | nil => rfl
      | cons previous rest =>
          have hperiod : (c.recast φ).token.isPeriod = c.token.isPeriod := φ.isPeriod c.token
          rw [List.map_cons] at ih
          rw [List.map_cons, List.map_cons, breakBeforePeriod, breakBeforePeriod, hperiod, ih]
          split <;> rfl

/-! ## Whole statements -/

end Bracket

theorem Body.cells_recast (b : Body) : (b.recast φ).cells = b.cells.map (·.recast φ) := by
  cases b with
  | plain cells => rfl
  | chain c => exact Assembly.flatMap_cells_recast φ c.entries

theorem Entry.deal_recast (cells : List Cell) (entries : List Entry) :
    Entry.deal (cells.map (·.recast φ)) (entries.map (·.recast φ)) =
      (Entry.deal cells entries).map (·.recast φ) := by
  induction entries generalizing cells with
  | nil => rfl
  | cons e rest ih =>
      cases e with
      | member own trailing =>
          have hrest := ih (cells.drop own.length)
          simpa [deal, recast, ← List.map_take] using hrest
      | remark comment =>
          have hrest := ih cells
          simpa [deal, recast] using hrest

theorem Body.withCells_recast (b : Body) (cells : List Cell) :
    (b.recast φ).withCells (cells.map (·.recast φ)) = (b.withCells cells).recast φ := by
  cases b with
  | plain own => rfl
  | chain c => simp [withCells, recast, Chain.recast, Entry.deal_recast]

namespace Bracket

theorem sweepStatement_recast (s : Statement) (wording : Text) :
    sweepStatement (s.recast φ wording) = (sweepStatement s).recast φ wording := by
  have hcells : (s.recast φ wording).cells = s.cells.map (·.recast φ) := s.body.cells_recast φ
  simp only [sweepStatement, hcells, sweep_recast, moves_recast]
  simp [Statement.recast, Body.withCells_recast]

theorem forcePeriodLine_recast (s : Statement) (wording : Text) :
    forcePeriodLine (s.recast φ wording) = (forcePeriodLine s).recast φ wording := by
  have hcells : (s.recast φ wording).cells = s.cells.map (·.recast φ) := s.body.cells_recast φ
  simp only [forcePeriodLine, hcells, ← List.map_reverse, breakBeforePeriod_recast]
  simp only [Statement.recast, Body.withCells_recast]

theorem incoming?_recast (s next : Statement) (wording wording' : Text) :
    incoming? (s.recast φ wording) (next.recast φ wording') =
      (incoming? s next).map (·.moved φ.shift) := by
  rw [incoming?, incoming?, Statement.trailing?_recast]
  cases next.trailing? with
  | none => rfl
  | some comment =>
      cases hspan : s.span with
      | none => simp [Statement.recast, hspan]
      | some span =>
          simp only [Statement.recast, hspan, Option.map_some, Comment.moved,
            Span.startLine_moved, Span.endLine_moved]
          split <;> rfl

theorem mergeComments_recast (existing : Option Comment) (incoming : Comment) :
    mergeComments (existing.map (·.moved φ.shift)) (incoming.moved φ.shift) =
      (mergeComments existing incoming).moved φ.shift := by
  cases existing <;> rfl

theorem receive_recast (s : Statement) (wording : Text) (incoming : Comment) :
    receive (s.recast φ wording) (incoming.moved φ.shift) =
      (receive s incoming).recast φ wording := by
  have hpseudo : (s.trailing?.map (·.moved φ.shift)).any Comment.isPseudo =
      s.trailing?.any Comment.isPseudo := by
    cases s.trailing? <;> rfl
  have hincoming : (incoming.moved φ.shift).isPseudo = incoming.isPseudo := rfl
  simp only [receive, Statement.trailing?_recast, hpseudo, hincoming, mergeComments_recast]
  split
  · rw [← forcePeriodLine_recast]
    rfl
  · exact s.setTrailing_recast φ wording (some (mergeComments s.trailing? incoming))

variable {φ}

theorem mergeFrom_recast
    {s s' : Statement} {rest rest' : List Statement} (hs : s.IsRecast φ s')
    (hrest : List.Forall₂ (Statement.IsRecast φ) rest rest') :
    List.Forall₂ (Statement.IsRecast φ) (mergeFrom s rest) (mergeFrom s' rest') := by
  induction hrest generalizing s s' with
  | nil => exact .cons hs .nil
  | @cons next next' rest rest' hnext hrest ih =>
      obtain ⟨wording, rfl⟩ := hs
      obtain ⟨wording', rfl⟩ := hnext
      rw [mergeFrom, mergeFrom, incoming?_recast]
      cases incoming? s next with
      | none => exact .cons ⟨wording, rfl⟩ (ih ⟨wording', rfl⟩)
      | some comment =>
          have hnone := next.setTrailing_recast φ wording' none
          exact .cons ⟨wording, receive_recast φ s wording comment⟩ (ih ⟨wording', hnone⟩)

theorem reposition_recast
    {statements statements' : List Statement}
    (h : List.Forall₂ (Statement.IsRecast φ) statements statements') :
    List.Forall₂ (Statement.IsRecast φ) (reposition statements) (reposition statements') := by
  cases h with
  | nil => exact .nil
  | @cons s s' rest rest' hs hrest =>
      have hswept : ∀ {s s' : Statement}, s.IsRecast φ s' →
          (sweepStatement s).IsRecast φ (sweepStatement s') := by
        rintro s _ ⟨wording, rfl⟩
        exact ⟨wording, sweepStatement_recast φ s wording⟩
      exact mergeFrom_recast (hswept hs)
        (List.forall₂_map_left_iff.mpr (List.forall₂_map_right_iff.mpr (hrest.imp fun _ _ => hswept)))

end Bracket

/-! ## Arranging -/

namespace Layout

variable {φ}

theorem assignLevels_recast
    {levels : List (Option Nat)} {statements statements' : List Statement}
    (h : List.Forall₂ (Statement.IsRecast φ) statements statements') :
    List.Forall₂ (Statement.IsRecast φ) (assignLevels levels statements)
      (assignLevels levels statements') := by
  refine List.forall₂_map_left_iff.mpr (List.forall₂_map_right_iff.mpr (h.imp ?_))
  rintro s _ ⟨wording, rfl⟩
  exact ⟨wording, rfl⟩

/-- Recast raw statements are arranged as the raw statements are. -/
theorem arrange_recast
    {raws : List RawStatement} {statements : List Statement} (hgrouped : Grouped none raws)
    (h : arrange raws = .ok statements) :
    ∃ statements', arrange (raws.map (RawStatement.recast φ)) = .ok statements' ∧
      List.Forall₂ (Statement.IsRecast φ) statements statements' := by
  obtain ⟨built, hbuilt, rfl⟩ := map_eq_ok_iff.mp h
  obtain ⟨built', hbuilt', hrecast⟩ := Assembly.buildFrom_recast φ hgrouped Option.Rel.none hbuilt
  rw [← assemble] at hbuilt'
  rw [arrange, hbuilt', levels_recast]
  exact ⟨_, rfl, Bracket.reposition_recast (assignLevels_recast hrecast)⟩

end Layout
end AbapLayout
