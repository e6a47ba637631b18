import AbapLayout.Proofs.Nesting
import Mathlib.Data.List.Forall2

/-!
# `SELECT`s without an `ENDSELECT` inside of loops

An `ENDSELECT` closes the latest `SELECT` in front of it.  If that is a `SELECT` that should not open
a block, the loop it stands in does not open one instead, and the levels inside of the loop are not
the nesting depths: the blocks there may even be closed at another level than they are opened at.

Outside of the loop nothing of this is seen.  In front of statements that close some of the waiting
`SELECT`s (`closings`), a well-nested stretch in which others begin to wait adds as many blocks to
the running depth as of these are closed (`Loose.passes`).  Behind an outermost loop none are, so
this loop and whatever stands outside of loops has the level of its nesting depth
(`levels_of_loose`).
-/

namespace AbapLayout

open Level

namespace Level

/-- How many of the `SELECT`s in front of some statements they close. -/
def closings : List Kind → Nat
  | [] => 0
  | .select :: rest => closings rest - 1
  | .endSelect :: rest => closings rest + 1
  | _ :: rest => closings rest

theorem closings_cons_of_ne
    {k : Kind} (hselect : k ≠ .select) (hend : k ≠ .endSelect) (rest : List Kind) :
    closings (k :: rest) = closings rest := by
  rw [closings] <;> simp [hselect, hend]

theorem closesSelect_eq (inner : Nat) (kinds : List Kind) :
    closesSelect inner kinds = decide (inner < closings kinds) := by
  induction kinds generalizing inner with
  | nil => simp [closesSelect, closings]
  | cons k rest ih =>
      by_cases hselect : k = .select
      · subst hselect
        rw [closesSelect, closings, ih, decide_eq_decide]
        omega
      · by_cases hend : k = .endSelect
        · subst hend
          cases inner with
          | zero => simp [closesSelect, closings]
          | succ n => simp [closesSelect, closings, ih]
        · rw [closesSelect_cons_of_ne hselect hend, closings_cons_of_ne hselect hend, ih]

theorem opensBlock_select (rest : List Kind) :
    opensBlock .select rest = decide (0 < closings rest) := by
  rw [opensBlock, closesSelect_eq]
  rfl

end Level

/-! ## Well-nested statements with `SELECT`s anywhere -/

/-- Well-nested statements with the depths of those that stand outside of loops.  `depth` is the
depth of the items, or of the splitters and the closer, or nothing inside of a loop. -/
inductive Loose : Stretch → (depth : Option Nat) → List RawStatement → List (Option Nat) → Prop
  | nil {depth} : Loose .items depth [] []
  | plain {depth r rest ds} :
      r.kind = .other → Loose .items depth rest ds → Loose .items depth (r :: rest) (depth :: ds)
  | comment {depth r rest ds} :
      r.kind = .comment → Loose .items depth rest ds → Loose .items depth (r :: rest) (depth :: ds)
  | unclosed {depth r rest ds} :
      r.kind = .select → Loose .items depth rest ds → Loose .items depth (r :: rest) (depth :: ds)
  | loop {depth opener body bs closer rest ds} :
      opener.kind = .select → Loose .items none body bs → closer.kind = .endSelect →
      Loose .items depth rest ds →
      Loose .items depth (opener :: (body ++ (closer :: rest)))
        (depth :: (bs ++ (depth :: ds)))
  | block {depth opener body bs tail ts rest ds} :
      opener.kind.OpensBlock false → Loose .items (depth.map (· + 1)) body bs →
      Loose (.branches false) depth tail ts → Loose .items depth rest ds →
      Loose .items depth (opener :: (body ++ (tail ++ rest))) (depth :: (bs ++ (ts ++ ds)))
  | closer {depth r} : r.kind.ClosesBlock false → Loose (.branches false) depth [r] [depth]
  | middle {depth r body bs tail ts} :
      r.kind.traits.middle = true → Loose .items (depth.map (· + 1)) body bs →
      Loose (.branches false) depth tail ts →
      Loose (.branches false) depth (r :: (body ++ tail)) (depth :: (bs ++ ts))

/-- Well-nested statements take the running depth from `start` to `stop` in front of some others,
and those outside of loops have their depths. -/
def Steps (raws rest : List RawStatement) (start stop : Nat) (ds : List (Option Nat)) : Prop :=
  ∀ above, ∃ above' entered,
    depthsFrom start (aspectsAhead above (raws ++ rest)) =
        entered ++ depthsFrom stop (aspectsAhead above' rest) ∧
      List.Forall₂ (fun (d : Option Nat) n => ∀ e ∈ d, n = e) ds entered

namespace Steps

variable {raws more rest : List RawStatement} {start middle stop : Nat} {ds es : List (Option Nat)}

theorem nil : Steps [] rest start start [] :=
  fun above => ⟨above, [], rfl, .nil⟩

theorem append
    (h : Steps raws (more ++ rest) start middle ds) (hmore : Steps more rest middle stop es) :
    Steps (raws ++ more) rest start stop (ds ++ es) := by
  intro above
  obtain ⟨above₁, entered, hdepths, hds⟩ := h above
  obtain ⟨above₂, later, hlater, hes⟩ := hmore above₁
  exact ⟨above₂, entered ++ later, by rw [List.append_assoc, hdepths, hlater, List.append_assoc],
    List.rel_append hds hes⟩

/-- One statement stands where it does, and what follows stands one level further in if it opens a
block. -/
theorem single
    {r : RawStatement} {k : Kind} {d : Option Nat} (stands : Nat) (hkind : r.kind = k)
    (hstands : (if k.traits.closes || k.traits.middle then start - 1 else start) = stands)
    (hstop : (if opensBlock k (rest.map (·.kind)) then stands + 1 else stands) = stop)
    (hd : ∀ e ∈ d, stands = e) :
    Steps [r] rest start stop [d] := by
  intro above
  exact ⟨some r.endLine, [stands],
    Nested.depthsFrom_aspectsAhead stands stop above rest hkind hstands hstop, .cons hd .nil⟩

end Steps

namespace Loose

/-- The depth of a stretch outside of loops is the number of blocks in front of it, and what follows
closes no `SELECT`. -/
def Fits (depth : Option Nat) (entered : Nat) (rest : List RawStatement) : Prop :=
  ∀ d ∈ depth, entered = d ∧ closings (rest.map (·.kind)) = 0

/-- What fits in front of statements fits in front of others that close no `SELECT` if they do not,
with as many blocks more as are opened then. -/
theorem Fits.ahead
    {depth : Option Nat} {entered n : Nat} {rest rest' : List RawStatement}
    (h : Fits depth entered rest)
    (hn : closings (rest.map (·.kind)) = 0 → n = 0 ∧ closings (rest'.map (·.kind)) = 0) :
    Fits depth (entered + n) rest' := fun d hd => by
  obtain ⟨hentered, hnone⟩ := h d hd
  obtain ⟨hzero, hnone'⟩ := hn hnone
  exact ⟨by omega, hnone'⟩

theorem Fits.deeper
    {depth : Option Nat} {entered : Nat} {rest rest' : List RawStatement}
    (h : Fits depth entered rest)
    (hnone : closings (rest.map (·.kind)) = 0 → closings (rest'.map (·.kind)) = 0) :
    Fits (depth.map (· + 1)) (entered + 1) rest' := fun d hd => by
  obtain ⟨e, he, rfl⟩ := Option.map_eq_some_iff.mp hd
  obtain ⟨hentered, hzero⟩ := h e he
  exact ⟨by omega, hnone hzero⟩

/-- How a stretch in which `waiting` `SELECT`s begin to wait changes the running depth in front of
others: it adds as many blocks as they close of these. -/
structure Passes (part : Stretch) (depth : Option Nat) (raws : List RawStatement)
    (ds : List (Option Nat)) (waiting : Nat) (rest : List RawStatement) : Prop where
  closings_eq : closings ((raws ++ rest).map (·.kind)) = closings (rest.map (·.kind)) - waiting
  steps : ∀ entered {start stop : Nat}, Fits depth entered rest → start = entered + part.inside →
    stop = entered + min waiting (closings (rest.map (·.kind))) → Steps raws rest start stop ds

variable {depth : Option Nat} {raws rest : List RawStatement} {ds : List (Option Nat)}

/-- A statement that neither opens nor closes a block. -/
theorem passes_plain
    {r : RawStatement} {waiting : Nat} (hkind : r.kind = .other ∨ r.kind = .comment)
    (h : Passes .items depth raws ds waiting rest) :
    Passes .items depth (r :: raws) (depth :: ds) waiting rest where
  closings_eq := by
    rw [← h.closings_eq, List.cons_append, List.map_cons]
    rcases hkind with hkind | hkind <;> rw [hkind] <;> rfl
  steps entered start stop hfits hstart hstop := by
    refine Steps.append (.single _ rfl ?_ ?_ fun d hd => hstart.trans (hfits d hd).1)
      (h.steps entered hfits hstart hstop)
    · rcases hkind with hkind | hkind <;> rw [hkind] <;> rfl
    · rcases hkind with hkind | hkind <;> rw [hkind] <;> rfl

/-- A `SELECT` opens a block if what follows closes it. -/
theorem opened_select
    {n : Nat} (entered : Nat) (h : closings (raws.map (·.kind)) = n) :
    (if opensBlock .select (raws.map (·.kind)) then entered + 1 else entered) =
      entered + min 1 n := by
  rw [opensBlock_select, h]
  by_cases hn : 0 < n
  · rw [if_pos (by simpa using hn)]
    omega
  · rw [if_neg (by simpa using hn)]
    omega

theorem passes_unclosed
    {r : RawStatement} {waiting : Nat} (hkind : r.kind = .select)
    (h : Passes .items depth raws ds waiting rest) :
    Passes .items depth (r :: raws) (depth :: ds) (waiting + 1) rest where
  closings_eq := by
    rw [List.cons_append, List.map_cons, hkind, closings, h.closings_eq]
    omega
  steps entered start stop hfits hstart hstop := by
    have hfirst : Steps [r] (raws ++ rest) start
        (entered + min 1 (closings (rest.map (·.kind)) - waiting)) [depth] :=
      .single entered hkind hstart (opened_select entered h.closings_eq) fun d hd => (hfits d hd).1
    exact hfirst.append (h.steps _ (hfits.ahead (by omega)) rfl (by omega))

theorem passes_loop
    {opener closer : RawStatement} {body : List RawStatement} {bs : List (Option Nat)} {m n : Nat}
    (hopener : opener.kind = .select) (hcloser : closer.kind = .endSelect)
    (hbody : Passes .items none body bs m (closer :: raws ++ rest))
    (h : Passes .items depth raws ds n rest) :
    Passes .items depth (opener :: (body ++ (closer :: raws))) (depth :: (bs ++ (depth :: ds)))
      (m + n) rest := by
  obtain ⟨x, hx⟩ : ∃ x, closings (rest.map (·.kind)) = x := ⟨_, rfl⟩
  have hinner : closings ((closer :: raws ++ rest).map (·.kind)) = x - n + 1 := by
    rw [List.cons_append, List.map_cons, hcloser, closings, h.closings_eq, hx]
  have hbehind : closings ((body ++ (closer :: raws) ++ rest).map (·.kind)) = x - n + 1 - m := by
    rw [List.append_assoc, hbody.closings_eq, hinner]
  refine ⟨?_, fun entered start stop hfits hstart hstop => ?_⟩
  · rw [List.cons_append, List.map_cons, hopener, closings, hbehind]
    omega
  · have hfits' : Fits depth (entered + min m (x - n)) rest := hfits.ahead (by omega)
    have hfirst : Steps [opener] (body ++ (closer :: raws) ++ rest) start
        (entered + min 1 (x - n + 1 - m)) [depth] :=
      .single entered hopener hstart (opened_select entered hbehind) fun d hd => (hfits d hd).1
    -- Either the opener or a `SELECT` in the body opens the block that is closed.
    have hinside : Steps body (closer :: raws ++ rest) (entered + min 1 (x - n + 1 - m))
        (entered + min m (x - n) + 1) bs :=
      hbody.steps (entered + min 1 (x - n + 1 - m)) (by simp [Fits]) rfl (by omega)
    have hlast : Steps [closer] (raws ++ rest) (entered + min m (x - n) + 1)
        (entered + min m (x - n)) [depth] :=
      .single _ hcloser rfl rfl fun d hd => (hfits' d hd).1
    have hbelow : Steps raws rest (entered + min m (x - n)) stop ds :=
      h.steps _ hfits' rfl (by omega)
    exact hfirst.append (hinside.append (hlast.append hbelow))

theorem passes_closer {r : RawStatement} (hcloser : r.kind.ClosesBlock false) :
    Passes (.branches false) depth [r] [depth] 0 rest := by
  obtain ⟨hcloses, hno, hend⟩ := Kind.of_closesBlock hcloser
  refine ⟨closings_cons_of_ne hno (by simp [hend]) _,
    fun entered start stop hfits hstart hstop => ?_⟩
  refine .single entered rfl ?_ ?_ fun d hd => (hfits d hd).1
  · simp [hcloses, hstart, Stretch.inside]
  · simp [opensBlock, (Kind.opens_eq_false_of_closes hcloses).1, hstop]

section Branch

variable {r : RawStatement} {body tail : List RawStatement} {bs ts : List (Option Nat)} {m n : Nat}
  (hbody : Passes .items (depth.map (· + 1)) body bs m (tail ++ rest))
  (htail : Passes (.branches false) depth tail ts n rest)
include hbody htail

theorem closings_branch (hselect : r.kind ≠ .select) (hend : r.kind ≠ .endSelect) :
    closings ((r :: (body ++ tail) ++ rest).map (·.kind)) =
      closings (rest.map (·.kind)) - (m + n) := by
  rw [List.cons_append, List.append_assoc, List.map_cons, closings_cons_of_ne hselect hend,
    hbody.closings_eq, htail.closings_eq]
  omega

/-- The opener or a splitter of a block that is no loop, the statements behind it, and the further
branches of the block. -/
theorem steps_branch
    {entered start : Nat} (hfits : Fits depth entered rest)
    (hfirst : Steps [r] (body ++ tail ++ rest) start (entered + 1) [depth]) :
    Steps (r :: (body ++ tail)) rest start
      (entered + min (m + n) (closings (rest.map (·.kind)))) (depth :: (bs ++ ts)) := by
  obtain ⟨x, hx⟩ : ∃ x, closings (rest.map (·.kind)) = x := ⟨_, rfl⟩
  have htailClosings := htail.closings_eq
  have hinside : Steps body (tail ++ rest) (entered + 1) (entered + min m (x - n) + 1) bs :=
    hbody.steps (entered + 1) (hfits.deeper (by omega)) rfl (by omega)
  have hbranches : Steps tail rest (entered + min m (x - n) + 1) (entered + min (m + n) x) ts :=
    htail.steps (entered + min m (x - n)) (hfits.ahead (by omega)) rfl (by omega)
  rw [hx]
  exact hfirst.append (hinside.append hbranches)

end Branch

theorem passes_middle
    {r : RawStatement} {body tail : List RawStatement} {bs ts : List (Option Nat)} {m n : Nat}
    (hmiddle : r.kind.traits.middle = true)
    (hbody : Passes .items (depth.map (· + 1)) body bs m (tail ++ rest))
    (htail : Passes (.branches false) depth tail ts n rest) :
    Passes (.branches false) depth (r :: (body ++ tail)) (depth :: (bs ++ ts)) (m + n) rest := by
  obtain ⟨hopens, hselect, hend⟩ := Kind.of_middle hmiddle
  refine ⟨closings_branch hbody htail hselect hend, fun entered start stop hfits hstart hstop => ?_⟩
  rw [hstop]
  refine steps_branch hbody htail hfits (.single entered rfl ?_ ?_ fun d hd => (hfits d hd).1)
  · simp [hmiddle, hstart, Stretch.inside]
  · simp [opensBlock, hopens, hselect]

theorem passes_block
    {opener : RawStatement} {body tail : List RawStatement} {bs ts : List (Option Nat)} {m n k : Nat}
    (hopener : opener.kind.OpensBlock false)
    (hbody : Passes .items (depth.map (· + 1)) body bs m (tail ++ (raws ++ rest)))
    (htail : Passes (.branches false) depth tail ts n (raws ++ rest))
    (h : Passes .items depth raws ds k rest) :
    Passes .items depth (opener :: (body ++ (tail ++ raws))) (depth :: (bs ++ (ts ++ ds)))
      (m + n + k) rest := by
  obtain ⟨hopens, hmiddle, hcloses, hend, hselect⟩ := Kind.of_opensBlock hopener
  have hno : opener.kind ≠ .select := by simp [hselect]
  have hclosings := h.closings_eq
  have hbranch := closings_branch hbody htail hno hend
  rw [← List.append_assoc body, ← List.append_assoc bs]
  refine ⟨?_, fun entered start stop hfits hstart hstop => ?_⟩
  · rw [← List.cons_append, List.append_assoc, hbranch, hclosings]
    omega
  · have hfits' : Fits depth entered (raws ++ rest) := hfits.ahead (n := 0) (by omega)
    have hfirst : Steps [opener] (body ++ tail ++ (raws ++ rest)) start (entered + 1) [depth] :=
      .single entered rfl (by simp [hmiddle, hcloses, hstart, Stretch.inside])
        (by simp [opensBlock, hopens, hno]) fun d hd => (hfits d hd).1
    exact (steps_branch hbody htail hfits' hfirst).append
      (h.steps _ (hfits.ahead (by omega)) rfl (by omega))

/-- Well-nested statements add blocks to the running depth only for `SELECT`s that are closed behind
them. -/
theorem passes {part : Stretch} (h : Loose part depth raws ds) :
    ∃ waiting, ∀ rest, Passes part depth raws ds waiting rest := by
  induction h with
  | nil =>
      refine ⟨0, fun rest => ⟨rfl, fun entered start stop _ hstart hstop => ?_⟩⟩
      obtain rfl : start = stop := by simp only [Stretch.inside] at hstart; omega
      exact .nil
  | plain hkind _ ih =>
      obtain ⟨waiting, h⟩ := ih
      exact ⟨waiting, fun rest => passes_plain (.inl hkind) (h rest)⟩
  | comment hkind _ ih =>
      obtain ⟨waiting, h⟩ := ih
      exact ⟨waiting, fun rest => passes_plain (.inr hkind) (h rest)⟩
  | unclosed hkind _ ih =>
      obtain ⟨waiting, h⟩ := ih
      exact ⟨waiting + 1, fun rest => passes_unclosed hkind (h rest)⟩
  | loop hopener _ hcloser _ ihBody ihMore =>
      obtain ⟨m, hbody⟩ := ihBody
      obtain ⟨n, hmore⟩ := ihMore
      exact ⟨m + n, fun rest => passes_loop hopener hcloser (hbody _) (hmore rest)⟩
  | block hopener _ _ _ ihBody ihTail ihMore =>
      obtain ⟨m, hbody⟩ := ihBody
      obtain ⟨n, htail⟩ := ihTail
      obtain ⟨k, hmore⟩ := ihMore
      exact ⟨m + n + k, fun rest => passes_block hopener (hbody _) (htail _) (hmore rest)⟩
  | closer hcloser => exact ⟨0, fun rest => passes_closer hcloser⟩
  | middle hmiddle _ _ ihBody ihTail =>
      obtain ⟨m, hbody⟩ := ihBody
      obtain ⟨n, htail⟩ := ihTail
      exact ⟨m + n, fun rest => passes_middle hmiddle (hbody _) (htail rest)⟩

theorem length_eq {part : Stretch} (h : Loose part depth raws ds) : ds.length = raws.length := by
  induction h with
  | nil => rfl
  | plain _ _ ih | comment _ _ ih | unclosed _ _ ih => simp [ih]
  | loop _ _ _ _ ihBody ihRest => simp [ihBody, ihRest]
  | block _ _ _ _ ihBody ihTail ihRest => simp [ihBody, ihTail, ihRest]
  | closer => rfl
  | middle _ _ _ ihBody ihTail => simp [ihBody, ihTail]

end Loose

/-! ## Levels -/

/-- Wherever `SELECT`s without an `ENDSELECT` stand in well-nested statements, the levels outside of
`SELECT` loops are the nesting depths, but for comments that introduce a splitter.  So a block that is
in no loop, and an outermost loop, is closed at the level at which it is opened. -/
theorem levels_of_loose
    {raws : List RawStatement} {ds : List (Option Nat)} (h : Loose .items (some 0) raws ds)
    (hattached : ∀ r ∈ raws, r.detached = false) :
    (levels raws).length = raws.length ∧ ds.length = raws.length ∧
    ∀ i d, ds[i]? = some (some d) → (∀ target, ¬IntroducesSplitter raws i target) →
      (levels raws)[i]? = some (some d) := by
  obtain ⟨waiting, hpasses⟩ := h.passes
  have hsteps : Steps raws [] 0 0 ds :=
    (hpasses []).steps 0 (fun d hd => ⟨by simpa using hd, rfl⟩) rfl (by simp [closings])
  obtain ⟨above, entered, hdepths, hagree⟩ := hsteps none
  simp only [List.append_nil, aspectsAhead, depthsFrom] at hdepths
  have hlevels : levels raws = levelsFrom 0 none (aspectsAhead none raws) := by
    rw [levels, aspects_eq_aspectsAhead]
  refine ⟨by simp [hlevels], h.length_eq, fun i d hd hno => ?_⟩
  have hother := (levelsFrom_spec 0 (attached_aspectsAhead none hattached) i).2
  simp only [introduces_iff] at hother
  obtain ⟨hi, hget⟩ := List.getElem?_eq_some_iff.mp hd
  have hi' : i < entered.length := hagree.length_eq ▸ hi
  have hentered : entered[i] = d := hagree.get hi hi' d hget
  rw [hlevels, hother hno, hdepths, List.getElem?_eq_getElem hi', hentered, Option.map_some]

/-- A loop around an `IF` around a `SELECT` that nothing closes, and another `IF` behind it. -/
def crossedStatements : List RawStatement :=
  [.onLine 1 .select, .onLine 2 .ifBlock, .onLine 3 .select, .onLine 4 .endIf,
    .onLine 5 .endSelect, .onLine 6 .ifBlock, .onLine 7 .endIf]

theorem loose_crossedStatements :
    Loose .items (some 0) crossedStatements [some 0, none, none, none, some 0, some 0, some 0] := by
  have hclosed : ∀ depth line, Loose (.branches false) depth [.onLine line .endIf] [depth] :=
    fun _ _ => .closer ⟨rfl, nofun⟩
  have hbody : Loose .items none ((crossedStatements.drop 1).take 3) [none, none, none] :=
    @Loose.block none _ [.onLine 3 .select] [none] _ _ [] [] ⟨rfl, rfl, rfl⟩ (.unclosed rfl .nil)
      (hclosed none 4) .nil
  have hbehind : Loose .items (some 0) (crossedStatements.drop 5) [some 0, some 0] :=
    @Loose.block (some 0) _ [] [] _ _ [] [] ⟨rfl, rfl, rfl⟩ .nil (hclosed (some 0) 7) .nil
  exact .loop rfl hbody rfl hbehind

theorem levels_of_loose_crossed :
    Loose .items (some 0) crossedStatements [some 0, none, none, none, some 0, some 0, some 0] ∧
      (∀ r ∈ crossedStatements, r.detached = false) ∧
      (levels crossedStatements)[4]? = some (some 0) := by
  have hattached : ∀ r ∈ crossedStatements, r.detached = false := by decide
  have hno : ∀ target, ¬IntroducesSplitter crossedStatements 4 target := by
    rintro target ⟨first, hfirst, htarget, hcomments, -⟩
    obtain ⟨r, hr, hcomment⟩ := hcomments 4 hfirst htarget
    obtain rfl : RawStatement.onLine 5 .endSelect = r := Option.some.inj hr
    exact absurd hcomment (by decide)
  exact ⟨loose_crossedStatements, hattached,
    (levels_of_loose loose_crossedStatements hattached).2.2 4 0 rfl hno⟩

/-- Inside of the loop the `IF` is closed one level below the one at which it is opened. -/
example : levels crossedStatements =
    [some 0, some 0, some 1, some 1, some 0, some 0, some 0] := by
  decide

end AbapLayout
