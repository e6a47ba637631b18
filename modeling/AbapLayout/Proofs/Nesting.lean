import AbapLayout.Proofs.RunningDepth
import AbapLayout.Proofs.SelectPairs

/-!
# Levels and the nesting of blocks

`Nested` is the grammar of well-nested statements.  A block is an opener, the statements in it,
further branches behind splitters, and a closer; a `SELECT` is the opener of a block or, outside of
`SELECT` loops, a statement without an `ENDSELECT`.  The grammar carries along how deep every
statement stands.

On well-nested statements the running depth is this depth, because whether a `SELECT` is closed can
be told from the grammar (`Nested.closesSelect_append`).  The levels are then the depths, except for
the comments that introduce a splitter (`levels_of_nested`).
-/

namespace AbapLayout

open Level

/-! ## Well-nested statements -/

namespace Kind

/-- The kinds that open a block: `SELECT` a loop over rows, the others a block of another sort. -/
def OpensBlock (loop : Bool) (k : Kind) : Prop :=
  if loop then k = .select
  else k.traits.opens = true ∧ k.traits.middle = false ∧ k.traits.optional = false

def ClosesBlock (loop : Bool) (k : Kind) : Prop :=
  if loop then k = .endSelect else k.traits.closes = true ∧ k ≠ .endSelect

end Kind

/-- The two sorts of stretches of statements. -/
inductive Stretch where
  /-- Any number of statements and whole blocks. -/
  | items
  /-- The further branches of a block, and its closer.  `loop` tells whether the block is that of a
  `SELECT`. -/
  | branches (loop : Bool)

/-- Well-nested statements with their depths.  `looped` tells whether a `SELECT` loop is around the
stretch, and `depth` is the depth of its items, or of the splitters and the closer. -/
inductive Nested : Stretch → (looped : Bool) → (depth : Nat) → List RawStatement → List Nat → Prop
  | nil {looped depth} : Nested .items looped depth [] []
  | plain {looped depth r rest ds} :
      r.kind = .other → Nested .items looped depth rest ds →
      Nested .items looped depth (r :: rest) (depth :: ds)
  | comment {looped depth r rest ds} :
      r.kind = .comment → Nested .items looped depth rest ds →
      Nested .items looped depth (r :: rest) (depth :: ds)
  | unclosed {depth r rest ds} :
      r.kind = .select → Nested .items false depth rest ds →
      Nested .items false depth (r :: rest) (depth :: ds)
  | block {looped depth opener body bs tail ts rest ds} (loop : Bool) :
      opener.kind.OpensBlock loop → Nested .items (looped || loop) (depth + 1) body bs →
      Nested (.branches loop) looped depth tail ts → Nested .items looped depth rest ds →
      Nested .items looped depth (opener :: (body ++ (tail ++ rest))) (depth :: (bs ++ (ts ++ ds)))
  | closer {looped depth r} (loop : Bool) :
      r.kind.ClosesBlock loop → Nested (.branches loop) looped depth [r] [depth]
  | middle {looped depth r body bs tail ts} (loop : Bool) :
      r.kind.traits.middle = true → Nested .items (looped || loop) (depth + 1) body bs →
      Nested (.branches loop) looped depth tail ts →
      Nested (.branches loop) looped depth (r :: (body ++ tail)) (depth :: (bs ++ ts))

/-- A blank line separates the statement at a position from the one above it. -/
def BlankAbove (raws : List RawStatement) (i : Nat) : Prop :=
  ∃ k above r, i = k + 1 ∧ raws[k]? = some above ∧ raws[k + 1]? = some r ∧
    above.endLine + 2 ≤ r.startLine

/-- The statement at position `i` is one of the comments directly in front of the splitter at the
position `target`, of which the first has a blank line above it and the others have none. -/
def IntroducesSplitter (raws : List RawStatement) (i target : Nat) : Prop :=
  ∃ first, first ≤ i ∧ i < target ∧
    (∀ j, first ≤ j → j < target → ∃ r, raws[j]? = some r ∧ r.kind = .comment) ∧
    BlankAbove raws first ∧ (∀ j, first < j → j < target → ¬BlankAbove raws j) ∧
    ∃ r, raws[target]? = some r ∧ r.kind.traits.middle = true

/-! ## Kinds -/

namespace Kind

theorem opens_eq_false_of_closes {k : Kind} (h : k.traits.closes = true) :
    k.traits.opens = false ∧ k.traits.middle = false := by
  cases k <;> simp [traits] at h ⊢

theorem of_middle {k : Kind} (h : k.traits.middle = true) :
    k.traits.opens = true ∧ k ≠ .select ∧ k ≠ .endSelect := by
  cases k <;> simp [traits] at h ⊢

theorem of_opensBlock {loop : Bool} {k : Kind} (h : k.OpensBlock loop) :
    k.traits.opens = true ∧ k.traits.middle = false ∧ k.traits.closes = false ∧
      k ≠ .endSelect ∧ (k = .select ↔ loop = true) := by
  cases loop <;> cases k <;> simp [OpensBlock, traits] at h ⊢

theorem of_closesBlock {loop : Bool} {k : Kind} (h : k.ClosesBlock loop) :
    k.traits.closes = true ∧ k ≠ .select ∧ (k = .endSelect ↔ loop = true) := by
  cases loop <;> cases k <;> simp [ClosesBlock, traits] at h ⊢

end Kind

/-! ## Which `SELECT` is closed -/

/-- The number of enclosing `SELECT`s that a stretch closes. -/
def Stretch.closed : Stretch → Nat
  | .items => 0
  | .branches loop => loop.toNat

/-- The number of blocks a stretch stands in, beyond those around its depth. -/
def Stretch.inside : Stretch → Nat
  | .items => 0
  | .branches _ => 1

theorem Kind.OpensBlock.closesSelect_cons
    {loop : Bool} {k : Kind} (h : k.OpensBlock loop) (inner : Nat) (rest : List Kind) :
    closesSelect inner (k :: rest) = closesSelect (inner + loop.toNat) rest := by
  obtain ⟨-, -, -, hend, hselect⟩ := Kind.of_opensBlock h
  cases loop with
  | true =>
      rw [hselect.mpr rfl]
      rfl
  | false => rw [closesSelect_cons_of_ne (by simp [hselect]) hend, Bool.toNat_false, Nat.add_zero]

theorem Kind.ClosesBlock.closesSelect_cons
    {loop : Bool} {k : Kind} (h : k.ClosesBlock loop) (inner : Nat) (rest : List Kind) :
    closesSelect (inner + loop.toNat) (k :: rest) = closesSelect inner rest := by
  obtain ⟨-, hselect, hend⟩ := Kind.of_closesBlock h
  cases loop with
  | true =>
      rw [hend.mpr rfl]
      rfl
  | false => rw [closesSelect_cons_of_ne hselect (by simp [hend]), Bool.toNat_false, Nat.add_zero]

namespace Nested

variable {part : Stretch} {looped : Bool} {depth : Nat} {raws : List RawStatement} {ds : List Nat}

/-- Behind a well-nested stretch some more `SELECT`s stand without an `ENDSELECT`, but none inside a
loop; the one its closer belongs to is closed. -/
theorem closesSelect_append (h : Nested part looped depth raws ds) :
    ∃ more, (looped = true ∨ part.closed = 1 → more = 0) ∧ ∀ rest : List Kind,
      (∀ inner, closesSelect (inner + part.closed) (raws.map (·.kind) ++ rest) =
        closesSelect (inner + more) rest) ∧
      (part.closed = 1 → closesSelect 0 (raws.map (·.kind) ++ rest) = true) := by
  induction h with
  | nil => exact ⟨0, by simp, by simp [Stretch.closed]⟩
  | plain hkind _ ih | comment hkind _ ih =>
      obtain ⟨more, hzero, hrest⟩ := ih
      refine ⟨more, hzero, fun rest => ⟨fun inner => ?_, by simp [Stretch.closed]⟩⟩
      rw [List.map_cons, List.cons_append, closesSelect_cons_of_ne (by simp [hkind])
        (by simp [hkind])]
      exact (hrest rest).1 inner
  | unclosed hkind _ ih =>
      obtain ⟨more, -, hrest⟩ := ih
      refine ⟨more + 1, by simp [Stretch.closed], fun rest =>
        ⟨fun inner => ?_, by simp [Stretch.closed]⟩⟩
      rw [List.map_cons, List.cons_append, hkind, closesSelect]
      exact ((hrest rest).1 (inner + 1)).trans (by rw [Nat.add_assoc, Nat.add_comm 1])
  | @block looped _ _ _ _ _ _ _ _ loop hopener _ _ _ ihBody ihTail ihRest =>
      obtain ⟨u, hu, hbody⟩ := ihBody
      obtain ⟨v, hv, htail⟩ := ihTail
      obtain ⟨w, hw, hrest⟩ := ihRest
      refine ⟨u + v + w, fun hor => ?_, fun rest => ⟨fun inner => ?_, by simp [Stretch.closed]⟩⟩
      · have hlooped : looped = true := by simpa [Stretch.closed] using hor
        rw [hu (.inl (by simp [hlooped])), hv (.inl hlooped), hw (.inl hlooped)]
      · simp only [List.map_cons, List.map_append, List.cons_append, List.append_assoc]
        calc closesSelect inner _ = closesSelect (inner + loop.toNat) _ :=
              hopener.closesSelect_cons inner _
          _ = closesSelect (inner + loop.toNat + u) _ := (hbody _).1 (inner + loop.toNat)
          _ = closesSelect (inner + u + loop.toNat) _ := by rw [Nat.add_right_comm]
          _ = closesSelect (inner + u + v) _ := (htail _).1 (inner + u)
          _ = closesSelect (inner + u + v + w) _ := (hrest _).1 (inner + u + v)
          _ = closesSelect (inner + (u + v + w)) _ := by rw [← Nat.add_assoc, ← Nat.add_assoc]
  | closer loop hcloser =>
      refine ⟨0, fun _ => rfl, fun rest => ⟨fun inner => hcloser.closesSelect_cons inner rest,
        fun hone => ?_⟩⟩
      have hloop : loop = true := by
        cases loop <;> simp [Stretch.closed] at hone ⊢
      subst hloop
      rw [List.map_singleton, List.singleton_append, (Kind.of_closesBlock hcloser).2.2.mpr rfl]
      rfl
  | @middle looped _ _ _ _ _ _ loop hmiddle _ _ ihBody ihTail =>
      obtain ⟨u, hu, hbody⟩ := ihBody
      obtain ⟨v, hv, htail⟩ := ihTail
      obtain ⟨-, hselect, hend⟩ := Kind.of_middle hmiddle
      refine ⟨u + v, fun hor => ?_, fun rest => ⟨fun inner => ?_, fun hone => ?_⟩⟩
      · have hinside : (looped || loop) = true := by
          cases looped <;> cases loop <;> simp [Stretch.closed] at hor ⊢
        rw [hu (.inl hinside), hv hor]
      · simp only [List.map_cons, List.map_append, List.cons_append, List.append_assoc]
        calc closesSelect (inner + loop.toNat) _ = closesSelect (inner + loop.toNat) _ :=
              closesSelect_cons_of_ne hselect hend _ _
          _ = closesSelect (inner + loop.toNat + u) _ := (hbody _).1 (inner + loop.toNat)
          _ = closesSelect (inner + u + loop.toNat) _ := by rw [Nat.add_right_comm]
          _ = closesSelect (inner + u + v) _ := (htail _).1 (inner + u)
          _ = closesSelect (inner + (u + v)) _ := by rw [← Nat.add_assoc]
      · have hloop : loop = true := by
          cases loop <;> simp [Stretch.closed] at hone ⊢
        simp only [List.map_cons, List.map_append, List.cons_append, List.append_assoc]
        rw [closesSelect_cons_of_ne hselect hend]
        refine ((hbody _).1 0).trans ?_
        rw [hu (.inl (by simp [hloop]))]
        exact (htail rest).2 hone

/-- Outside of loops no `SELECT` in front of a well-nested stretch is closed in it. -/
theorem closesSelect_append_eq_false
    (h : Nested part looped depth raws ds) {rest : List Kind} (hclosed : part.closed = 0)
    (hrest : closesSelect 0 rest = false) :
    closesSelect 0 (raws.map (·.kind) ++ rest) = false := by
  obtain ⟨more, -, happend⟩ := h.closesSelect_append
  have hstep := (happend rest).1 0
  rw [hclosed] at hstep
  rw [hstep]
  exact closesSelect_antitone hrest

/-- Outside of loops no `SELECT` in front of the branches of a block is closed in them. -/
theorem closesSelect_branches_eq_false
    {loop : Bool} (h : Nested (.branches loop) looped depth raws ds) {rest : List Kind}
    (hrest : looped = false → closesSelect 0 rest = false) (houtside : (looped || loop) = false) :
    closesSelect 0 (raws.map (·.kind) ++ rest) = false := by
  obtain ⟨hlooped, hloop⟩ := Bool.or_eq_false_iff.mp houtside
  exact h.closesSelect_append_eq_false (by simp [Stretch.closed, hloop]) (hrest hlooped)

/-- The opener of a block opens it: a `SELECT` is closed behind its body, where its closer stands. -/
theorem opensBlock_append
    {loop : Bool} {k : Kind} {d : Nat} {body tail : List RawStatement} {bs ts : List Nat}
    (hopener : k.OpensBlock loop) (hbody : Nested .items (looped || loop) d body bs)
    (htail : Nested (.branches loop) looped depth tail ts) (rest : List Kind) :
    opensBlock k (body.map (·.kind) ++ (tail.map (·.kind) ++ rest)) = true := by
  obtain ⟨hopens, -, -, -, hselect⟩ := Kind.of_opensBlock hopener
  cases loop with
  | false => simp [opensBlock, hopens, hselect]
  | true =>
      obtain ⟨u, hzero, hclosed⟩ := hbody.closesSelect_append
      obtain ⟨v, -, htailClosed⟩ := htail.closesSelect_append
      have hinner := (hclosed (tail.map (·.kind) ++ rest)).1 0
      rw [hzero (.inl (by simp))] at hinner
      rw [opensBlock, hopens, Bool.true_and, Bool.or_eq_true]
      exact .inr (hinner.trans ((htailClosed rest).2 rfl))

/-! ## Depths -/

theorem depthsFrom_aspectsAhead
    {k : Kind} {entered : Nat} (stands left : Nat) (above : Option Nat) {r : RawStatement}
    (rest : List RawStatement) (hkind : r.kind = k)
    (hstands : (if k.traits.closes || k.traits.middle then entered - 1 else entered) = stands)
    (hleft : (if opensBlock k (rest.map (·.kind)) then stands + 1 else stands) = left) :
    depthsFrom entered (aspectsAhead above (r :: rest)) =
      stands :: depthsFrom left (aspectsAhead (some r.endLine) rest) := by
  subst hkind hstands hleft
  rfl

/-- The running depth of well-nested statements is their nesting depth. -/
theorem depthsFrom_append (h : Nested part looped depth raws ds) :
    ∀ (above : Option Nat) (rest : List RawStatement),
      (looped = false → closesSelect 0 (rest.map (·.kind)) = false) →
      ∃ above', depthsFrom (depth + part.inside) (aspectsAhead above (raws ++ rest)) =
        ds ++ depthsFrom depth (aspectsAhead above' rest) := by
  induction h with
  | nil => exact fun above rest _ => ⟨above, rfl⟩
  | @plain looped depth r _ _ hkind _ ih | @comment looped depth r _ _ hkind _ ih =>
      intro above rest hrest
      obtain ⟨above', hds⟩ := ih (some r.endLine) rest hrest
      refine ⟨above', ?_⟩
      rw [List.cons_append, depthsFrom_aspectsAhead _ _ above _ hkind rfl rfl]
      exact congrArg _ hds
  | @unclosed depth r more _ hkind hmore ih =>
      intro above rest hrest
      obtain ⟨above', hds⟩ := ih (some r.endLine) rest hrest
      have hopen : opensBlock .select ((more ++ rest).map (·.kind)) = false := by
        rw [List.map_append, opensBlock, hmore.closesSelect_append_eq_false rfl (hrest rfl)]
        rfl
      refine ⟨above', ?_⟩
      rw [List.cons_append, depthsFrom_aspectsAhead _ _ above _ hkind rfl (by rw [hopen])]
      exact congrArg _ hds
  | @block looped depth opener body bs tail ts more ds loop hopener hbody htail hmore
      ihBody ihTail ihMore =>
      simp only [Stretch.inside, Nat.add_zero] at ihBody ihTail ihMore ⊢
      intro above rest hrest
      have hmoreOpen : looped = false →
          closesSelect 0 ((more ++ rest).map (·.kind)) = false := fun hlooped => by
        rw [List.map_append]
        exact hmore.closesSelect_append_eq_false rfl (hrest hlooped)
      obtain ⟨above₁, hbodyDepths⟩ := ihBody (some opener.endLine) (tail ++ (more ++ rest)) (by
        rw [List.map_append]
        exact htail.closesSelect_branches_eq_false hmoreOpen)
      obtain ⟨above₂, htailDepths⟩ := ihTail above₁ (more ++ rest) hmoreOpen
      obtain ⟨above₃, hmoreDepths⟩ := ihMore above₂ rest hrest
      obtain ⟨-, hmiddle, hcloses, -⟩ := Kind.of_opensBlock hopener
      have hopen :
          opensBlock opener.kind ((body ++ (tail ++ (more ++ rest))).map (·.kind)) = true := by
        rw [List.map_append, List.map_append]
        exact opensBlock_append hopener hbody htail _
      refine ⟨above₃, ?_⟩
      rw [List.cons_append, List.append_assoc, List.append_assoc,
        depthsFrom_aspectsAhead depth _ above _ rfl (by simp [hmiddle, hcloses])
          (by rw [if_pos hopen])]
      rw [List.cons_append, List.append_assoc, List.append_assoc, ← hmoreDepths, ← htailDepths]
      exact congrArg _ hbodyDepths
  | @closer looped depth r loop hcloser =>
      simp only [Stretch.inside]
      intro above rest _
      obtain ⟨hcloses, -⟩ := Kind.of_closesBlock hcloser
      refine ⟨some r.endLine, ?_⟩
      rw [List.singleton_append,
        depthsFrom_aspectsAhead depth depth above _ rfl (by simp [hcloses])
          (by simp [opensBlock, (Kind.opens_eq_false_of_closes hcloses).1])]
      rfl
  | @middle looped depth r body bs tail ts loop hmiddle hbody htail ihBody ihTail =>
      simp only [Stretch.inside, Nat.add_zero] at ihBody ihTail ⊢
      intro above rest hrest
      obtain ⟨above₁, hbodyDepths⟩ := ihBody (some r.endLine) (tail ++ rest) (by
        rw [List.map_append]
        exact htail.closesSelect_branches_eq_false hrest)
      obtain ⟨above₂, htailDepths⟩ := ihTail above₁ rest hrest
      obtain ⟨hopens, hselect, -⟩ := Kind.of_middle hmiddle
      refine ⟨above₂, ?_⟩
      rw [List.cons_append, List.append_assoc,
        depthsFrom_aspectsAhead depth (depth + 1) above _ rfl
          (by simp [hmiddle])
          (by simp [opensBlock, hopens, hselect])]
      rw [List.cons_append, List.append_assoc, ← htailDepths]
      exact congrArg _ hbodyDepths

theorem length_eq (h : Nested part looped depth raws ds) : ds.length = raws.length := by
  induction h with
  | nil => rfl
  | plain _ _ ih | comment _ _ ih | unclosed _ _ ih => simp [ih]
  | block _ _ _ _ _ ihBody ihTail ihRest => simp [ihBody, ihTail, ihRest]
  | closer => rfl
  | middle _ _ _ _ ihBody ihTail => simp [ihBody, ihTail]

end Nested

/-! ## Levels -/

namespace Level

/-- The line on which the statement above a position ends. -/
def lineAbove (above : Option Nat) (raws : List RawStatement) : Nat → Option Nat
  | 0 => above
  | k + 1 => raws[k]?.map (·.endLine)

theorem getElem?_aspectsAhead (above : Option Nat) (raws : List RawStatement) (i : Nat) :
    (aspectsAhead above raws)[i]? = raws[i]?.map fun r =>
      { kind := r.kind
        detached := r.detached
        blankAbove := (lineAbove above raws i).any fun line => line + 2 ≤ r.startLine
        indents := opensBlock r.kind ((raws.drop (i + 1)).map (·.kind)) } := by
  induction raws generalizing above i with
  | nil => simp [aspectsAhead]
  | cons r rest ih =>
      cases i with
      | zero => rfl
      | succ i =>
          rw [aspectsAhead, List.getElem?_cons_succ, List.getElem?_cons_succ, ih]
          cases i <;> rfl

theorem commentsOpenNothing_aspectsAhead (above : Option Nat) (raws : List RawStatement) :
    CommentsOpenNothing (aspectsAhead above raws) := by
  intro a ha hkind
  obtain ⟨i, hi⟩ := List.mem_iff_getElem?.mp ha
  rw [getElem?_aspectsAhead, Option.map_eq_some_iff] at hi
  obtain ⟨r, -, rfl⟩ := hi
  rw [show r.kind = .comment from hkind]
  simp [opensBlock, show Kind.comment.traits.opens = false from rfl]

theorem attached_aspectsAhead
    (above : Option Nat) {raws : List RawStatement} (h : ∀ r ∈ raws, r.detached = false) :
    Attached (aspectsAhead above raws) := by
  intro a ha
  refine ⟨?_, commentsOpenNothing_aspectsAhead above raws a ha⟩
  obtain ⟨i, hi⟩ := List.mem_iff_getElem?.mp ha
  rw [getElem?_aspectsAhead, Option.map_eq_some_iff] at hi
  obtain ⟨r, hr, rfl⟩ := hi
  exact h r (List.mem_of_getElem? hr)

@[simp] theorem length_levelsFrom (depth : Nat) (alignment : Option Alignment) (as : List Aspect) :
    (levelsFrom depth alignment as).length = as.length := by
  induction as generalizing depth alignment with
  | nil => rfl
  | cons a rest ih =>
      rw [levelsFrom]
      split <;> simp [ih]

@[simp] theorem length_aspectsAhead (above : Option Nat) (raws : List RawStatement) :
    (aspectsAhead above raws).length = raws.length := by
  induction raws generalizing above with
  | nil => rfl
  | cons r rest ih => simp [aspectsAhead, ih]

/-- A blank line above a statement shows in its aspect. -/
theorem blankAbove_iff
    {raws : List RawStatement} {i : Nat} {a : Aspect} (ha : (aspectsAhead none raws)[i]? = some a) :
    a.blankAbove = true ↔ BlankAbove raws i := by
  rw [getElem?_aspectsAhead, Option.map_eq_some_iff] at ha
  obtain ⟨r, hr, rfl⟩ := ha
  cases i with
  | zero =>
      refine ⟨fun h => by simp [lineAbove] at h, ?_⟩
      rintro ⟨k, above, s, hk, -⟩
      omega
  | succ i =>
      simp only [lineAbove, Option.any_map, Option.any_eq_true, decide_eq_true_eq]
      constructor
      · rintro ⟨above, habove, hline⟩
        exact ⟨i, above, r, rfl, habove, hr, hline⟩
      · rintro ⟨k, above, s, hk, habove, hs, hline⟩
        obtain rfl : i = k := by omega
        rw [hr, Option.some.injEq] at hs
        subst hs
        exact ⟨above, habove, hline⟩

theorem introduces_iff {raws : List RawStatement} {i target : Nat} :
    Introduces (aspectsAhead none raws) i target ↔ IntroducesSplitter raws i target := by
  have hkind : ∀ (p : Kind → Prop) (j : Nat),
      (∃ a, (aspectsAhead none raws)[j]? = some a ∧ p a.kind) ↔
        ∃ r, raws[j]? = some r ∧ p r.kind := by
    intro p j
    rw [getElem?_aspectsAhead]
    cases raws[j]? with
    | none => simp
    | some r => simp only [Option.map_some, Option.some.injEq, exists_eq_left']
  constructor
  · rintro ⟨first, hfirst, hi, hheads⟩
    obtain ⟨a, ha, -, hblank⟩ := hheads.comment
    refine ⟨first, hfirst, hi,
      fun j hj hlt => (hkind (· = .comment) j).mp (hheads.kind_comment hj hlt),
      (blankAbove_iff ha).mp hblank, fun j hj hlt hblankAt => ?_,
      (hkind (·.traits.middle = true) target).mp hheads.splitter⟩
    obtain ⟨b, hb, hgoes⟩ := hheads.group j hj hlt
    rw [← blankAbove_iff hb, blankAbove_of_continuesComments hgoes] at hblankAt
    simp at hblankAt
  · rintro ⟨first, hfirst, hi, hcomments, hblank, hgroup, hsplitter⟩
    refine ⟨first, hfirst, hi, by omega, ?_, fun j hj hlt => ?_,
      (hkind (·.traits.middle = true) target).mpr hsplitter⟩
    · obtain ⟨a, ha, hcomment⟩ := (hkind (· = .comment) first).mpr
        (hcomments first (Nat.le_refl _) (by omega))
      exact ⟨a, ha, hcomment, (blankAbove_iff ha).mpr hblank⟩
    · obtain ⟨a, ha, hcomment⟩ := (hkind (· = .comment) j).mpr (hcomments j (by omega) hlt)
      refine ⟨a, ha, ?_⟩
      have hno : a.blankAbove = false := by
        rw [Bool.eq_false_iff, ne_eq, blankAbove_iff ha]
        exact hgroup j hj hlt
      simp [Aspect.continuesComments, hcomment, hno]

end Level

/-- The levels of well-nested statements are their nesting depths, except for the comments that
introduce a splitter: these have the level of the splitter. -/
theorem levels_of_nested
    {raws : List RawStatement} {ds : List Nat} (h : Nested .items false 0 raws ds)
    (hattached : ∀ r ∈ raws, r.detached = false) :
    (levels raws).length = raws.length ∧ ds.length = raws.length ∧
    ∀ i, (∀ target, IntroducesSplitter raws i target →
        (levels raws)[i]? = ds[target]?.map some) ∧
      ((∀ target, ¬IntroducesSplitter raws i target) → (levels raws)[i]? = ds[i]?.map some) := by
  obtain ⟨above, hds⟩ := h.depthsFrom_append none [] fun _ => rfl
  have hdepths : depthsFrom 0 (aspectsAhead none raws) = ds := by
    simpa [aspectsAhead, depthsFrom, Stretch.inside] using hds
  have hlevels : levels raws = levelsFrom 0 none (aspectsAhead none raws) := by
    rw [levels, aspects_eq_aspectsAhead]
  refine ⟨by simp [hlevels], h.length_eq, fun i => ?_⟩
  obtain ⟨hintroducing, hother⟩ := levelsFrom_spec 0 (attached_aspectsAhead none hattached) i
  rw [hdepths, ← hlevels] at hintroducing hother
  simp only [introduces_iff] at hintroducing hother
  exact ⟨hintroducing, hother⟩

def RawStatement.onLine (line : Nat) (kind : Kind) : RawStatement :=
  { body := [Token.onLine .word ['x'] line 0], kind }

/-- An `IF` around a loop over rows and a `SELECT` without an `ENDSELECT`, with two comments below a
blank line in front of the `ELSE`. -/
def branchedStatements : List RawStatement :=
  [.onLine 1 .ifBlock, .onLine 2 .select, .onLine 3 .other, .onLine 4 .endSelect,
    .onLine 5 .select, .onLine 7 .comment, .onLine 8 .comment, .onLine 9 .elseBranch,
    .onLine 10 .other, .onLine 11 .endIf]

theorem nested_branchedStatements :
    Nested .items false 0 branchedStatements [0, 1, 2, 1, 1, 1, 1, 0, 1, 0] := by
  have hloop : Nested .items false 1 ((branchedStatements.drop 1).take 6) [1, 2, 1, 1, 1, 1] :=
    @Nested.block false 1 _ [.onLine 3 .other] [2] [.onLine 4 .endSelect] [1] _ _ true rfl
      (.plain rfl .nil) (.closer true rfl) (.unclosed rfl (.comment rfl (.comment rfl .nil)))
  have helse : Nested (.branches false) false 0 (branchedStatements.drop 7) [0, 1, 0] :=
    @Nested.middle false 0 _ [.onLine 10 .other] [1] [.onLine 11 .endIf] [0] false rfl
      (.plain rfl .nil) (.closer false ⟨rfl, by decide⟩)
  exact @Nested.block false 0 (.onLine 1 .ifBlock) _ _ _ _ [] [] false ⟨rfl, rfl, rfl⟩ hloop helse
    .nil

theorem levels_of_nested_branched :
    Nested .items false 0 branchedStatements [0, 1, 2, 1, 1, 1, 1, 0, 1, 0] ∧
      (∀ r ∈ branchedStatements, r.detached = false) ∧
      IntroducesSplitter branchedStatements 6 7 ∧
      (levels branchedStatements)[6]? = some (some 0) := by
  have hattached : ∀ r ∈ branchedStatements, r.detached = false := by decide
  have hintroduces : IntroducesSplitter branchedStatements 6 7 := by
    refine ⟨5, by omega, by omega, fun j hj hlt => ?_, ?_, fun j hj hlt => ?_, _, rfl, rfl⟩
    · obtain rfl | rfl : j = 5 ∨ j = 6 := by omega
      · exact ⟨_, rfl, rfl⟩
      · exact ⟨_, rfl, rfl⟩
    · exact ⟨4, _, _, rfl, rfl, rfl, by decide⟩
    · obtain rfl : j = 6 := by omega
      rintro ⟨k, above, r, hk, habove, hr, hline⟩
      obtain rfl : k = 5 := by omega
      injection habove with habove
      injection hr with hr
      subst habove hr
      exact absurd hline (by decide)
  exact ⟨nested_branchedStatements, hattached, hintroduces,
    ((levels_of_nested nested_branchedStatements hattached).2.2 6).1 7 hintroduces⟩

end AbapLayout
