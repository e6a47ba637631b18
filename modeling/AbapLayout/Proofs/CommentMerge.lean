import AbapLayout.Proofs.PrintedComments

/-!
# Where comments move

When brackets have moved up, the comment behind a statement may move to the statement in front of it.
A statement may give its comment away and take over that of the next statement in one go.  Still the
outcome at each position depends on the neighbours as they were before (`getElem?_reposition`): a
comment that moves is either printed behind the period of the statement that takes it over or put
into one comment with what this statement has kept, and nothing else a statement holds changes.  So
no comment is lost and none is doubled, and all that the statements hold then is printed once
(`arrange_mergesComments`).
-/

namespace AbapLayout

open Text

/-! ## What a statement holds beside the comment behind it -/

/-- An entry without the decisions where lines end. -/
def Entry.unbroken : Entry → Entry
  | .member cells trailing => .member (cells.map fun c => { token := c.token }) trailing
  | .remark comment => .remark comment

def Body.unbroken : Body → Body
  | .plain cells => .plain (cells.map fun c => { token := c.token })
  | .chain c => .chain { c with entries := c.entries.map Entry.unbroken }

namespace Statement

/-- What a statement holds beside the comment behind it, without the decisions where lines end. -/
def core (s : Statement) : Body × Option Comment :=
  let bare := { s with body := s.body.unbroken }.setTrailing none
  (bare.body, bare.note)

theorem core_congr
    {s t : Statement} (hbody : s.body.unbroken = t.body.unbroken) (hnote : s.note = t.note) :
    s.core = t.core := by
  unfold core setTrailing
  dsimp only
  rw [hbody, hnote]
  split
  · rfl
  · split <;> rfl

theorem setTrailing_setTrailing (s : Statement) (a b : Option Comment) :
    (s.setTrailing a).setTrailing b = s.setTrailing b := by
  cases hbody : s.body with
  | plain cells => simp [setTrailing, hbody]
  | chain c =>
      cases hlast : c.entries.getLast? with
      | none => simp [setTrailing, hbody, hlast]
      | some e => cases e <;> simp [setTrailing, hbody, hlast]

/-- The comment behind a statement does not depend on where its lines end. -/
theorem trailing?_congr
    {s t : Statement} (hbody : s.body.unbroken = t.body.unbroken) (hnote : s.note = t.note) :
    s.trailing? = t.trailing? := by
  have hunbroken : ∀ u : Statement, { u with body := u.body.unbroken }.trailing? = u.trailing? := by
    intro u
    cases hbody : u.body with
    | plain cells => simp [trailing?, hbody, Body.unbroken]
    | chain c =>
        cases hlast : c.entries.getLast? with
        | none => simp [trailing?, hbody, Body.unbroken, hlast]
        | some e => cases e <;> simp [trailing?, hbody, Body.unbroken, Entry.unbroken, hlast]
  rw [← hunbroken s, ← hunbroken t, hbody]
  simp only [trailing?, hnote]

/-- The comment behind a statement does not belong to its core. -/
@[simp] theorem core_setTrailing (s : Statement) (comment : Option Comment) :
    (s.setTrailing comment).core = s.core := by
  have hcommutes : { s.setTrailing comment with body := (s.setTrailing comment).body.unbroken } =
      { s with body := s.body.unbroken }.setTrailing comment := by
    cases hbody : s.body with
    | plain cells => simp [setTrailing, hbody, Body.unbroken]
    | chain c =>
        cases hlast : c.entries.getLast? with
        | none => simp [setTrailing, hbody, Body.unbroken, hlast]
        | some e =>
            cases e <;> simp [setTrailing, hbody, Body.unbroken, Entry.unbroken, hlast,
              List.map_dropLast]
  rw [core, hcommutes, setTrailing_setTrailing]
  rfl

/-- The comments to be printed are those of the core, the one behind the statement and the one behind
its period. -/
theorem attached_perm (s : Statement) :
    s.attached.Perm
      (s.core.1.attached s.core.2 ++ (s.trailing?.toList ++ s.post.toList)) := by
  have hentry (e : Entry) : e.unbroken.attached = e.attached := by
    cases e <;> rfl
  have hentries (es : List Entry) :
      (es.map Entry.unbroken).flatMap Entry.attached = es.flatMap Entry.attached := by
    simp [List.flatMap_map, hentry]
  cases hbody : s.body with
  | plain cells =>
      simp [attached, core, trailing?, setTrailing, hbody, Body.unbroken, Body.attached]
  | chain c =>
      cases hlast : c.entries.getLast? with
      | none =>
          simp [attached, core, trailing?, setTrailing, hbody, Body.unbroken, Body.attached, hlast,
            hentries]
      | some e =>
          obtain ⟨init, hinit⟩ := List.getLast?_eq_some_iff.mp hlast
          cases e with
          | remark comment =>
              simp [attached, core, trailing?, setTrailing, hbody, Body.unbroken, Body.attached,
                hinit, hentries, Entry.unbroken]
          | member cells trailing =>
              simp [attached, core, trailing?, setTrailing, hbody, Body.unbroken, Body.attached,
                hinit, hentries, Entry.unbroken, Entry.attached]

end Statement

namespace Bracket

theorem unbroken_withCells
    {b : Body} {cells : List Cell} (h : cells.map (·.token) = b.cells.map (·.token)) :
    (b.withCells cells).unbroken = b.unbroken := by
  have hcells {cells own : List Cell} (htokens : cells.map (·.token) = own.map (·.token)) :
      cells.map (fun c => ({ token := c.token } : Cell)) =
        own.map fun c => { token := c.token } := by
    simpa [List.map_map, Function.comp_def] using
      congrArg (List.map fun t => ({ token := t } : Cell)) htokens
  cases b with
  | plain own => exact congrArg Body.plain (hcells h)
  | chain c =>
      have hentries : (Entry.deal cells c.entries).map Entry.unbroken =
          c.entries.map Entry.unbroken := by
        refine Entry.map_deal ?_ h
        intro cells own trailing htokens
        rw [Entry.unbroken, Entry.unbroken, hcells htokens]
      simp [Body.withCells, Body.unbroken, hentries]

/-- Moving a bracket up changes nothing that a statement holds. -/
theorem unbroken_sweepStatement (s : Statement) :
    (sweepStatement s).body.unbroken = s.body.unbroken :=
  unbroken_withCells (map_token_sweep s.cells)

theorem unbroken_forcePeriodLine (s : Statement) :
    (forcePeriodLine s).body.unbroken = s.body.unbroken := by
  refine unbroken_withCells ?_
  rw [List.map_reverse, map_token_breakBeforePeriod, List.map_reverse, List.reverse_reverse]
  rfl

@[simp] theorem trailing?_sweepStatement (s : Statement) :
    (sweepStatement s).trailing? = s.trailing? :=
  Statement.trailing?_congr (unbroken_sweepStatement s) rfl

/-! ## Comments move by one statement -/

/-- A statement takes over a comment if its own comment is the given one. -/
structure TakesOver (s s' : Statement) (kept taken : Option Comment) : Prop where
  /-- Nothing else changes. -/
  core : s'.core = s.core
  /-- Without a comment taken over, the comment that was kept stays. -/
  alone : taken = none → s'.trailing? = kept ∧ s'.post = none
  /-- Pseudo comments stay apart from others. -/
  apart : ∀ c, taken = some c → (c.isPseudo || kept.any Comment.isPseudo) = true →
    s'.trailing? = kept ∧ s'.post = some c
  /-- Other comments are put into one. -/
  merged : ∀ c, taken = some c → (c.isPseudo || kept.any Comment.isPseudo) = false →
    s'.post = none ∧ ∃ m, s'.trailing? = some m ∧ m.value =
      Comment.sign :: ' ' :: join [';', ' '] ((kept.toList ++ [c]).map Comment.body)

theorem value_mergeComments (kept : Option Comment) (c : Comment) :
    (mergeComments kept c).value =
      Comment.sign :: ' ' :: join [';', ' '] ((kept.toList ++ [c]).map Comment.body) := by
  cases kept with
  | none => simp [mergeComments, join]
  | some k => simp [mergeComments, join, List.intercalate]

/-- A statement whose comment has moved away if there was one to move. -/
def given (before : Option Statement) (s : Statement) : Statement :=
  if (before.bind (incoming? · s)).isSome then s.setTrailing none else s

/-- A statement after the merge, with the statements in front of it and behind it. -/
def mergedAt (before : Option Statement) (s : Statement) (next : Option Statement) : Statement :=
  match next.bind (incoming? s) with
  | some c => receive (given before s) c
  | none => given before s

/-- The merge, each statement seen with its neighbours as they were. -/
def mergedFrom (before : Option Statement) : List Statement → List Statement
  | [] => []
  | s :: rest => mergedAt before s rest.head? :: mergedFrom (some s) rest

theorem incoming?_setTrailing (s next : Statement) (comment : Option Comment) :
    incoming? (s.setTrailing comment) next = incoming? s next := by
  rw [incoming?, incoming?, s.span_setTrailing, s.touched_setTrailing]

/-- A statement takes over the same comment whether or not its own has moved away. -/
theorem incoming?_given (before : Option Statement) (s next : Statement) :
    incoming? (given before s) next = incoming? s next := by
  unfold given
  split
  · exact incoming?_setTrailing s next none
  · rfl

/-- The running merge has given the comment of its statement away already. -/
theorem mergeFrom_given (before : Option Statement) (s : Statement) (rest : List Statement) :
    mergeFrom (given before s) rest = mergedFrom before (s :: rest) := by
  induction rest generalizing before s with
  | nil => rfl
  | cons next rest ih =>
      rw [mergeFrom, incoming?_given, mergedFrom, mergedAt, List.head?_cons, Option.bind_some]
      have hmore := ih (some s) next
      rw [given, Option.bind_some] at hmore
      cases hincoming : incoming? s next with
      | none => simpa [hincoming] using hmore
      | some c => simpa [hincoming] using hmore

theorem mergeAll_eq_mergedFrom (statements : List Statement) :
    mergeAll statements = mergedFrom none statements := by
  cases statements with
  | nil => rfl
  | cons s rest => exact mergeFrom_given none s rest

/-- What stands in front of a place. -/
def ahead (before : Option Statement) (statements : List Statement) : Nat → Option Statement
  | 0 => before
  | i + 1 => statements[i]?

theorem getElem?_mergedFrom (before : Option Statement) (statements : List Statement) (i : Nat) :
    (mergedFrom before statements)[i]? =
      statements[i]?.map fun s => mergedAt (ahead before statements i) s statements[i + 1]? := by
  induction statements generalizing before i with
  | nil => simp [mergedFrom]
  | cons s rest ih =>
      cases i with
      | zero => simp [mergedFrom, ahead, List.head?_eq_getElem?]
      | succ i =>
          have hahead : ahead (some s) rest i = (s :: rest)[i]? := by
            cases i <;> rfl
          rw [mergedFrom, List.getElem?_cons_succ, ih, hahead]
          rfl

theorem length_mergedFrom (before : Option Statement) (statements : List Statement) :
    (mergedFrom before statements).length = statements.length := by
  induction statements generalizing before with
  | nil => rfl
  | cons s rest ih => simp [mergedFrom, ih]

/-- The comment that a statement takes over from the next one. -/
def taken? (statements : List Statement) (i : Nat) : Option Comment :=
  statements[i]?.bind fun s => statements[i + 1]?.bind fun next =>
    incoming? (sweepStatement s) (sweepStatement next)

/-- The comment that moves away from a statement to the one in front of it. -/
def moved? (statements : List Statement) : Nat → Option Comment
  | 0 => none
  | i + 1 => taken? statements i

/-- The comment behind a statement that does not move away. -/
def kept? (statements : List Statement) (i : Nat) : Option Comment :=
  if (moved? statements i).isSome then none else statements[i]?.bind Statement.trailing?

theorem taken?_assignLevels (levels : List (Option Nat)) (statements : List Statement) (i : Nat) :
    taken? (Layout.assignLevels levels statements) i = taken? statements i := by
  simp only [taken?, Layout.assignLevels, List.getElem?_map, Option.bind_map]
  rfl

theorem moved?_assignLevels (levels : List (Option Nat)) (statements : List Statement) (i : Nat) :
    moved? (Layout.assignLevels levels statements) i = moved? statements i := by
  cases i with
  | zero => rfl
  | succ i => exact taken?_assignLevels levels statements i

theorem kept?_assignLevels (levels : List (Option Nat)) (statements : List Statement) (i : Nat) :
    kept? (Layout.assignLevels levels statements) i = kept? statements i := by
  rw [kept?, kept?, moved?_assignLevels, Layout.assignLevels, List.getElem?_map, Option.bind_map]
  rfl

/-- What a statement takes over is the comment behind the next one. -/
theorem trailing?_of_taken?
    {statements : List Statement} {i : Nat} {c : Comment} (h : taken? statements i = some c) :
    ∃ next, statements[i + 1]? = some next ∧ next.trailing? = some c := by
  obtain ⟨s, -, h⟩ := Option.bind_eq_some_iff.mp h
  obtain ⟨next, hnext, hincoming⟩ := Option.bind_eq_some_iff.mp h
  have htrailing := (touched_of_incoming? hincoming).2
  rw [trailing?_sweepStatement] at htrailing
  exact ⟨next, hnext, htrailing⟩

/-- A comment behind a statement is kept or moves away, not both. -/
theorem kept_or_moved
    {statements : List Statement} {i : Nat} {s : Statement} (hs : statements[i]? = some s) :
    kept? statements i = s.trailing? ∧ moved? statements i = none ∨
      kept? statements i = none ∧ moved? statements i = s.trailing? ∧ s.trailing?.isSome := by
  cases hmoved : moved? statements i with
  | none => exact .inl ⟨by simp [kept?, hmoved, hs], rfl⟩
  | some c =>
      refine .inr ⟨by simp [kept?, hmoved], ?_⟩
      cases i with
      | zero => simp [moved?] at hmoved
      | succ i =>
          obtain ⟨next, hnext, htrailing⟩ := trailing?_of_taken? hmoved
          rw [hs, Option.some.injEq] at hnext
          simp [hnext, htrailing]

theorem takesOver_receive
    {s : Statement} (c : Comment) (hpost : s.post = none) :
    TakesOver s (receive s c) s.trailing? (some c) := by
  have hforced : (forcePeriodLine { s with post := some c }).body.unbroken = s.body.unbroken :=
    unbroken_forcePeriodLine { s with post := some c }
  unfold receive
  dsimp only
  split
  next hpseudo =>
    refine ⟨Statement.core_congr hforced rfl, by simp, ?_, ?_⟩
    · rintro d hd -
      injection hd with hd
      exact ⟨Statement.trailing?_congr hforced rfl, hd ▸ rfl⟩
    · rintro d hd hno
      injection hd with hd
      rw [hd, hno] at hpseudo
      simp at hpseudo
  next hno =>
    refine ⟨s.core_setTrailing _, by simp, ?_, ?_⟩
    · rintro d hd hpseudo
      injection hd with hd
      exact absurd (hd ▸ hpseudo) hno
    · rintro d hd -
      injection hd with hd
      refine ⟨by rw [s.post_setTrailing, hpost], _, s.trailing?_setTrailing _, ?_⟩
      rw [value_mergeComments, hd]

/-- A statement takes over what the next one gives away, beside what it has kept itself. -/
theorem takesOver_mergedAt
    {s : Statement} (before next : Option Statement) (hpost : s.post = none) :
    TakesOver s (mergedAt before s next)
      (if (before.bind (incoming? · s)).isSome then none else s.trailing?)
      (next.bind (incoming? s)) := by
  have hgiven : (given before s).core = s.core ∧ (given before s).post = none ∧
      (given before s).trailing? =
        if (before.bind (incoming? · s)).isSome then none else s.trailing? := by
    unfold given
    split <;> simp [hpost]
  obtain ⟨hcore, hnone, hkept⟩ := hgiven
  unfold mergedAt
  split
  next c hc =>
    have hreceived := takesOver_receive c hnone
    rw [hkept] at hreceived
    rw [hc]
    exact
      { core := hreceived.core.trans hcore
        alone := hreceived.alone
        apart := hreceived.apart
        merged := hreceived.merged }
  next hno =>
    rw [hno]
    exact ⟨hcore, fun _ => ⟨hkept, hnone⟩, by simp, by simp⟩

/-- The statement at a place takes over the comment of the next one if brackets have brought the two
onto one line, and keeps its own if that has not moved away. -/
theorem takesOver_reposition
    {statements : List Statement} (hpost : ∀ s ∈ statements, s.post = none) {i : Nat}
    {s : Statement} (hs : statements[i]? = some s) :
    ∃ s', (reposition statements)[i]? = some s' ∧
      TakesOver s s' (kept? statements i) (taken? statements i) := by
  have hmerged := takesOver_mergedAt (s := sweepStatement s)
    (ahead none (statements.map sweepStatement) i) (statements[i + 1]?.map sweepStatement)
    (hpost s (List.mem_of_getElem? hs))
  have hmoved : (ahead none (statements.map sweepStatement) i).bind
      (incoming? · (sweepStatement s)) = moved? statements i := by
    cases i with
    | zero => rfl
    | succ i =>
        rw [moved?, taken?, hs, ahead, List.getElem?_map, Option.bind_map]
        rfl
  have htaken : (statements[i + 1]?.map sweepStatement).bind (incoming? (sweepStatement s)) =
      taken? statements i := by
    rw [taken?, hs, Option.bind_map]
    rfl
  have hkept : (if (moved? statements i).isSome then none else (sweepStatement s).trailing?) =
      kept? statements i := by
    simp [kept?, hs]
  rw [hmoved, htaken, hkept] at hmerged
  refine ⟨mergedAt (ahead none (statements.map sweepStatement) i) (sweepStatement s)
    (statements[i + 1]?.map sweepStatement), ?_, ?_⟩
  · rw [reposition, mergeAll_eq_mergedFrom, getElem?_mergedFrom, List.getElem?_map,
      List.getElem?_map, hs]
    rfl
  · exact
      { core := hmerged.core.trans (Statement.core_congr (unbroken_sweepStatement s) rfl)
        alone := hmerged.alone
        apart := hmerged.apart
        merged := hmerged.merged }

theorem length_reposition (statements : List Statement) :
    (reposition statements).length = statements.length := by
  rw [reposition, mergeAll_eq_mergedFrom, length_mergedFrom, List.length_map]

end Bracket

/-! ## Sources -/

/-- Each comment of the statements that are built is where it was, or the statement in front has taken
it over; what is printed then are the comments of the statements, each once. -/
structure MergesComments (built statements : List Statement) : Prop where
  length : statements.length = built.length
  /-- A comment behind a statement is kept or moves to the statement in front, not both. -/
  divided : ∀ i s, built[i]? = some s →
    Bracket.kept? built i = s.trailing? ∧ Bracket.moved? built i = none ∨
      Bracket.kept? built i = none ∧ Bracket.moved? built i = s.trailing? ∧ s.trailing?.isSome
  /-- A statement has what it has kept and what the next one has given away. -/
  carried : ∀ i s, built[i]? = some s → ∃ s', statements[i]? = some s' ∧
    Bracket.TakesOver s s' (Bracket.kept? built i) (Bracket.moved? built (i + 1))
  printed : ∀ o wanted, Distributed (Rendering.Printed o (∃ s ∈ statements, s.leavesHollow = true))
    (statements.flatMap Statement.attached) (Rendering.render o wanted statements)

theorem Layout.length_arrange
    {raws : List RawStatement} {built statements : List Statement}
    (hbuilt : assemble raws = .ok built) (harrange : arrange raws = .ok statements) :
    statements.length = built.length := by
  rw [arrange, hbuilt, Except.map, Except.ok.injEq] at harrange
  rw [← harrange, Bracket.length_reposition, assignLevels, List.length_map]

/-- Levels have no part in where comments move. -/
theorem Layout.takesOver_arrange
    {raws : List RawStatement} {built statements : List Statement} (hgrouped : Grouped none raws)
    (hbuilt : assemble raws = .ok built) (harrange : arrange raws = .ok statements) {i : Nat}
    {s : Statement} (hs : built[i]? = some s) :
    ∃ s', statements[i]? = some s' ∧
      Bracket.TakesOver s s' (Bracket.kept? built i) (Bracket.taken? built i) := by
  rw [arrange, hbuilt, Except.map, Except.ok.injEq] at harrange
  subst harrange
  have hpost : ∀ s ∈ assignLevels (levels raws) built, s.post = none :=
    List.forall_mem_map.mpr fun s hs => Assembly.post_assemble hgrouped hbuilt s hs
  have hplaced : (assignLevels (levels raws) built)[i]? = some
      { s with level := ((levels raws)[s.rawIndex]?).getD (some 0) } := by
    rw [assignLevels, List.getElem?_map, hs]
    rfl
  obtain ⟨s', hs', htakes⟩ := Bracket.takesOver_reposition hpost hplaced
  rw [Bracket.kept?_assignLevels, Bracket.taken?_assignLevels] at htakes
  exact ⟨s', hs', htakes.core.trans (Statement.core_congr rfl rfl), htakes.alone, htakes.apart,
    htakes.merged⟩

/-- Moving brackets up loses no comment of a source that can be put together and doubles none. -/
theorem arrange_mergesComments
    {source : Text} {filename : Option String} {raws : List RawStatement}
    {built : List Statement} (hsplit : Source.split source filename = .ok raws)
    (hbuilt : assemble raws = .ok built) :
    ∃ statements, Layout.arrange raws = .ok statements ∧ MergesComments built statements := by
  obtain ⟨ts, hts, hraws⟩ := Source.tokens_of_split hsplit
  have hgrouped := (Unfinished.run_of_statements (Source.lexed_of_mem_tokens hts) hraws).grouped
    (.inl rfl)
  have harrange : Layout.arrange raws =
      .ok (Bracket.reposition (Layout.assignLevels (levels raws) built)) :=
    map_eq_ok_iff.mpr ⟨built, hbuilt, rfl⟩
  exact ⟨_, harrange,
    { length := Layout.length_arrange hbuilt harrange
      divided := fun _ _ => Bracket.kept_or_moved
      carried := fun _ _ => Layout.takesOver_arrange hgrouped hbuilt harrange
      printed := Layout.distributed_render hsplit harrange }⟩

/-- The case of a statement that gives its comment away and takes over another one. -/
theorem arrange_mergesComments_passing :
    ∃ raws built statements,
      Source.split "foo( a \"x\n). bar( b \"y\n). baz. \"z\n".toList none = .ok raws ∧
      assemble raws = .ok built ∧ Layout.arrange raws = .ok statements ∧
      MergesComments built statements := by
  obtain ⟨raws, statements, hsplit, harrange, -⟩ := @Layout.format_eq_ok .default
    "foo( a \"x\n). bar( b \"y\n). baz. \"z\n".toList none
    { text := "foo( a ). \" x; y\nbar( b ). \" z\nbaz.\n".toList }
    (eq_ok_of_toOption (by decide +kernel)) rfl
  obtain ⟨built, hbuilt, -⟩ := map_eq_ok_iff.mp harrange
  obtain ⟨merged, hmerged, hcomments⟩ := arrange_mergesComments hsplit hbuilt
  exact ⟨raws, built, merged, hsplit, hbuilt, hmerged, hcomments⟩

end AbapLayout
