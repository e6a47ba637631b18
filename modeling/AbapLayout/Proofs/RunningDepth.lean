import AbapLayout.Level

/-!
# Running depth and aligned comments

Without the alignment of comments, the level of a statement is the *running depth*: the number of
blocks that are open around it (`depthsFrom`).  The alignment changes the level of one sort of
statement only: a comment of a group below a blank line that stands in front of a splitter
(`Introduces`) takes the depth of that splitter (`levelsFrom_spec`).
-/

namespace AbapLayout
namespace Level

/-- The depth at which a statement stands, where `depth` blocks are open in front of it. -/
def Aspect.standing (a : Aspect) (depth : Nat) : Nat :=
  if a.kind.traits.closes || a.kind.traits.middle then depth - 1 else depth

/-- The number of blocks that are open behind a statement. -/
def Aspect.leaving (a : Aspect) (depth : Nat) : Nat :=
  if a.indents then a.standing depth + 1 else a.standing depth

/-- The depth of each statement, where `depth` blocks are open in front of the first. -/
def depthsFrom (depth : Nat) : List Aspect → List Nat
  | [] => []
  | a :: rest => a.standing depth :: depthsFrom (a.leaving depth) rest

@[simp] theorem length_depthsFrom (depth : Nat) (as : List Aspect) :
    (depthsFrom depth as).length = as.length := by
  induction as generalizing depth with
  | nil => rfl
  | cons a rest ih => simp [depthsFrom, ih]

/-- From the position `first` on stands a group of comments below a blank line, and behind it, at
the position `target`, a splitter. -/
structure Heads (as : List Aspect) (first target : Nat) : Prop where
  before : first < target
  comment : ∃ a, as[first]? = some a ∧ a.kind = .comment ∧ a.blankAbove = true
  group : ∀ j, first < j → j < target → ∃ a, as[j]? = some a ∧ a.continuesComments = true
  splitter : ∃ a, as[target]? = some a ∧ a.kind.traits.middle = true

/-- The statement at position `i` is a comment of a group that introduces a splitter. -/
def Introduces (as : List Aspect) (i target : Nat) : Prop :=
  ∃ first, first ≤ i ∧ i < target ∧ Heads as first target

def CommentsOpenNothing (as : List Aspect) : Prop :=
  ∀ a ∈ as, a.kind = .comment → a.indents = false

/-- Aspects as the statements of a source have them: none is detached, and comments open nothing. -/
def Attached (as : List Aspect) : Prop :=
  ∀ a ∈ as, a.detached = false ∧ (a.kind = .comment → a.indents = false)

/-! ## Comments leave the depth as it is -/

theorem Aspect.standing_of_comment {a : Aspect} (h : a.kind = .comment) (depth : Nat) :
    a.standing depth = depth := by
  simp [standing, h, Kind.traits]

theorem Aspect.leaving_of_comment
    {a : Aspect} (h : a.kind = .comment) (hindents : a.indents = false) (depth : Nat) :
    a.leaving depth = depth := by
  simp [leaving, hindents, standing_of_comment h]

theorem Aspect.standing_of_middle {a : Aspect} (h : a.kind.traits.middle = true) (depth : Nat) :
    a.standing depth = depth - 1 := by
  simp [standing, h]

theorem kind_of_continuesComments {a : Aspect} (h : a.continuesComments = true) :
    a.kind = .comment := by
  simp only [Aspect.continuesComments, Bool.and_eq_true, beq_iff_eq] at h
  exact h.1

theorem blankAbove_of_continuesComments {a : Aspect} (h : a.continuesComments = true) :
    a.blankAbove = false := by
  simp only [Aspect.continuesComments, Bool.and_eq_true, Bool.not_eq_true'] at h
  exact h.2

/-- Behind comments the depth is that in front of them. -/
theorem drop_depthsFrom
    {as : List Aspect} {k : Nat} (depth : Nat) (hattached : Attached as)
    (hcomments : ∀ j < k, ∃ a, as[j]? = some a ∧ a.kind = .comment) :
    (depthsFrom depth as).drop k = depthsFrom depth (as.drop k) := by
  induction as generalizing k with
  | nil => simp [depthsFrom]
  | cons a rest ih =>
      cases k with
      | zero => rfl
      | succ k =>
          obtain ⟨b, hb, hkind⟩ := hcomments 0 (by omega)
          simp only [List.getElem?_cons_zero, Option.some.injEq] at hb
          subst hb
          rw [depthsFrom, Aspect.leaving_of_comment hkind ((hattached a (by simp)).2 hkind),
            List.drop_succ_cons, List.drop_succ_cons]
          refine ih (fun b hb => hattached b (List.mem_cons_of_mem _ hb)) fun j hj => ?_
          simpa using hcomments (j + 1) (by omega)

theorem getElem?_depthsFrom
    {as : List Aspect} {k : Nat} (depth : Nat) (hattached : Attached as)
    (hcomments : ∀ j < k, ∃ a, as[j]? = some a ∧ a.kind = .comment) :
    (depthsFrom depth as)[k]? = as[k]?.map (·.standing depth) := by
  have hdrop := congrArg (·[0]?) (drop_depthsFrom depth hattached hcomments)
  simp only [List.getElem?_drop, Nat.add_zero] at hdrop
  rw [hdrop]
  cases hk : as.drop k with
  | nil =>
      rw [List.getElem?_eq_none (List.drop_eq_nil_iff.mp hk)]
      rfl
  | cons a more =>
      have hget := congrArg (·[0]?) hk
      simp only [List.getElem?_drop, Nat.add_zero, List.getElem?_cons_zero] at hget
      simp [hget, depthsFrom]

theorem Heads.kind_comment
    {as : List Aspect} {first target j : Nat} (h : Heads as first target)
    (hfirst : first ≤ j) (hj : j < target) :
    ∃ a, as[j]? = some a ∧ a.kind = .comment := by
  rcases Nat.eq_or_lt_of_le hfirst with rfl | hlt
  · obtain ⟨a, ha, hkind, -⟩ := h.comment
    exact ⟨a, ha, hkind⟩
  · obtain ⟨a, ha, hgoes⟩ := h.group j hlt hj
    exact ⟨a, ha, kind_of_continuesComments hgoes⟩

theorem heads_append (xs : List Aspect) {ys : List Aspect} {first target : Nat} :
    Heads (xs ++ ys) (xs.length + first) (xs.length + target) ↔ Heads ys first target := by
  have hget : ∀ k, (xs ++ ys)[xs.length + k]? = ys[k]? := fun k => by
    rw [List.getElem?_append_right (by omega), Nat.add_sub_cancel_left]
  constructor
  · rintro ⟨hbefore, hcomment, hgroup, hsplitter⟩
    refine ⟨by omega, by simpa only [hget] using hcomment, fun j hfirst hj => ?_,
      by simpa only [hget] using hsplitter⟩
    simpa only [hget] using hgroup (xs.length + j) (by omega) (by omega)
  · rintro ⟨hbefore, hcomment, hgroup, hsplitter⟩
    refine ⟨by omega, by simpa only [hget] using hcomment, fun j hfirst hj => ?_,
      by simpa only [hget] using hsplitter⟩
    obtain ⟨k, rfl⟩ := Nat.exists_eq_add_of_le (show xs.length ≤ j by omega)
    simpa only [hget] using hgroup k (by omega) (by omega)

/-- The splitter stands one level further out than the comments that introduce it. -/
theorem Heads.depth_splitter
    {as : List Aspect} {first target i : Nat} (h : Heads as first target) (depth : Nat)
    (hattached : Attached as) (hfirst : first ≤ i) (hi : i < target) :
    ∃ n, (depthsFrom depth as)[i]? = some n ∧ (depthsFrom depth as)[target]? = some (n - 1) := by
  induction as generalizing depth first target i with
  | nil => obtain ⟨a, ha, -⟩ := h.comment; simp at ha
  | cons a rest ih =>
      cases first with
      | zero =>
          obtain ⟨b, hb, hkind⟩ := h.kind_comment hfirst hi
          obtain ⟨m, hm, hmiddle⟩ := h.splitter
          have hbefore : ∀ k ≤ target, (depthsFrom depth (a :: rest))[k]? =
              (a :: rest)[k]?.map (·.standing depth) := fun k hk =>
            getElem?_depthsFrom depth hattached fun j hj =>
              h.kind_comment (Nat.zero_le j) (by omega)
          refine ⟨depth, ?_, ?_⟩
          · simp [hbefore i (by omega), hb, Aspect.standing_of_comment hkind]
          · simp [hbefore target (by omega), hm, Aspect.standing_of_middle hmiddle]
      | succ first =>
          obtain ⟨i, rfl⟩ := Nat.exists_eq_add_of_le (show 1 ≤ i by omega)
          obtain ⟨target, rfl⟩ := Nat.exists_eq_add_of_le (show 1 ≤ target by omega)
          rw [Nat.add_comm first] at h
          have hrest := (heads_append [a]).mp h
          simpa [depthsFrom, Nat.add_comm 1] using
            ih hrest (a.leaving depth) (fun b hb => hattached b (List.mem_cons_of_mem _ hb))
              (by omega) (by omega)

/-! ## Where an alignment begins -/

/-- The splitter that a comment introduces stands behind a group of comments. -/
theorem splitterDistance?_eq_some_iff {rest : List Aspect} {n : Nat} :
    splitterDistance? rest = some n ↔
      ∃ group m more, rest = group ++ m :: more ∧ n = group.length + 1 ∧
        (∀ a ∈ group, a.continuesComments = true) ∧ m.kind.traits.middle = true := by
  have hsplit := List.takeWhile_append_dropWhile (p := Aspect.continuesComments) (l := rest)
  have hdrop := @List.drop_left _ (rest.takeWhile Aspect.continuesComments)
    (rest.dropWhile Aspect.continuesComments)
  rw [hsplit] at hdrop
  constructor
  · intro h
    unfold splitterDistance? at h
    dsimp only at h
    rw [hdrop] at h
    split at h
    next m more hm =>
      split at h
      next hmiddle =>
        injection h with h
        refine ⟨_, m, more, ?_, h.symm, List.all_eq_true.mp List.all_takeWhile, hmiddle⟩
        rw [← hm, hsplit]
      next => simp at h
    next => simp at h
  · rintro ⟨group, m, more, rfl, rfl, hgroup, hmiddle⟩
    have hm : m.continuesComments = false := by
      rw [Bool.eq_false_iff]
      intro h
      rw [kind_of_continuesComments h] at hmiddle
      simp [Kind.traits] at hmiddle
    have htake : (group ++ m :: more).takeWhile Aspect.continuesComments = group := by
      rw [List.takeWhile_append_of_pos hgroup, List.takeWhile_cons_of_neg (by simp [hm]),
        List.append_nil]
    simp [splitterDistance?, htake, hmiddle]

theorem heads_zero_iff {a : Aspect} {rest : List Aspect} {target : Nat} :
    Heads (a :: rest) 0 target ↔
      a.kind = .comment ∧ a.blankAbove = true ∧ splitterDistance? rest = some target := by
  rw [splitterDistance?_eq_some_iff]
  constructor
  · rintro ⟨hbefore, ⟨b, hb, hkind, hblank⟩, hgroup, ⟨m, hm, hmiddle⟩⟩
    simp only [List.getElem?_cons_zero, Option.some.injEq] at hb
    subst hb
    obtain ⟨n, rfl⟩ := Nat.exists_eq_add_of_le' (show 1 ≤ target by omega)
    rw [List.getElem?_cons_succ] at hm
    obtain ⟨hn, rfl⟩ := List.getElem?_eq_some_iff.mp hm
    refine ⟨hkind, hblank, rest.take n, rest[n], rest.drop (n + 1), ?_, ?_, ?_, hmiddle⟩
    · rw [← List.drop_eq_getElem_cons hn, List.take_append_drop]
    · rw [List.length_take, Nat.min_eq_left (by omega)]
    · intro b hb
      obtain ⟨j, hj, rfl⟩ := List.mem_take_iff_getElem.mp hb
      obtain ⟨c, hc, hgoes⟩ := hgroup (j + 1) (by omega) (by omega)
      rw [List.getElem?_cons_succ, List.getElem?_eq_getElem (by omega), Option.some.injEq] at hc
      rwa [hc]
  · rintro ⟨hkind, hblank, group, m, more, rfl, rfl, hgroup, hmiddle⟩
    refine ⟨by omega, ⟨a, rfl, hkind, hblank⟩, fun j hfirst hj => ?_, ⟨m, ?_, hmiddle⟩⟩
    · obtain ⟨j, rfl⟩ := Nat.exists_eq_add_of_le' (show 1 ≤ j by omega)
      have hlt : j < group.length := by omega
      refine ⟨group[j], ?_, hgroup _ (List.getElem_mem hlt)⟩
      rw [List.getElem?_cons_succ, List.getElem?_append_left hlt, List.getElem?_eq_getElem hlt]
    · simp

/-! ## Levels -/

theorem levelsFrom_cons
    {a : Aspect} (rest : List Aspect) (depth : Nat) (old : Option Alignment)
    (hdetached : a.detached = false) :
    levelsFrom depth old (a :: rest) =
      some (match Alignment.update old (a.standing depth) a rest with
        | some aligned => aligned.level
        | none => a.standing depth) ::
      levelsFrom (a.leaving depth)
        ((Alignment.update old (a.standing depth) a rest).map Alignment.advance) rest := by
  rw [levelsFrom, if_neg (by simp [hdetached])]
  rfl

/-- Inside a group of comments the alignment holds up to the splitter, where it ends. -/
theorem levelsFrom_aligned
    {group more : List Aspect} {m : Aspect} {depth level : Nat}
    (hattached : Attached (group ++ m :: more)) (hgroup : ∀ a ∈ group, a.kind = .comment) :
    levelsFrom depth (some ⟨group.length, level⟩) (group ++ m :: more) =
      List.replicate group.length (some level) ++ levelsFrom depth none (m :: more) := by
  induction group with
  | nil =>
      have hdetached := (hattached m (by simp)).1
      simp only [List.nil_append, List.length_nil, List.replicate_zero]
      rw [levelsFrom_cons _ _ _ hdetached, levelsFrom_cons _ _ _ hdetached]
      rfl
  | cons a group ih =>
      obtain ⟨hdetached, hindents⟩ := hattached a (by simp)
      have hkind := hgroup a (by simp)
      have hupdate : ∀ rest, Alignment.update (some ⟨(a :: group).length, level⟩)
          (a.standing depth) a rest = some ⟨(a :: group).length, level⟩ := by
        intro rest
        simp [Alignment.update]
      rw [List.cons_append, levelsFrom_cons _ _ _ hdetached, hupdate,
        Aspect.leaving_of_comment hkind (hindents hkind)]
      simp only [Option.map_some, Alignment.advance, List.length_cons, Nat.add_sub_cancel,
        List.replicate_succ, List.cons_append]
      rw [ih (fun b hb => hattached b (List.mem_cons_of_mem _ hb))
        fun b hb => hgroup b (List.mem_cons_of_mem _ hb)]

/-- A group of comments in front of a splitter stands one level further out. -/
theorem levelsFrom_heads
    {a : Aspect} {rest : List Aspect} {depth target : Nat} (hattached : Attached (a :: rest))
    (hdepth : 0 < depth) (hheads : Heads (a :: rest) 0 target) :
    levelsFrom depth none (a :: rest) =
      List.replicate target (some (depth - 1)) ++
        levelsFrom depth none ((a :: rest).drop target) := by
  obtain ⟨hkind, hblank, hdistance⟩ := heads_zero_iff.mp hheads
  obtain ⟨group, m, more, rfl, rfl, hgroup, -⟩ := splitterDistance?_eq_some_iff.mp hdistance
  obtain ⟨hdetached, hindents⟩ := hattached a (by simp)
  have hstart : Alignment.update none (a.standing depth) a (group ++ m :: more) =
      some ⟨group.length + 1, depth - 1⟩ := by
    simp [Alignment.update, Alignment.update.start, Aspect.standing_of_comment hkind, hdepth,
      hkind, hblank, hdistance]
  rw [levelsFrom_cons _ _ _ hdetached, hstart,
    Aspect.leaving_of_comment hkind (hindents hkind)]
  simp only [Option.map_some, Alignment.advance, Nat.add_sub_cancel, List.drop_succ_cons,
    List.drop_left, List.replicate_succ, List.cons_append]
  rw [levelsFrom_aligned (fun b hb => hattached b (List.mem_cons_of_mem _ hb))
    fun b hb => kind_of_continuesComments (hgroup b hb)]

/-- A statement that begins no such group stands at its depth. -/
theorem levelsFrom_plain
    {a : Aspect} {rest : List Aspect} {depth : Nat} (hattached : Attached (a :: rest))
    (hno : 0 < depth → ∀ target, ¬Heads (a :: rest) 0 target) :
    levelsFrom depth none (a :: rest) =
      some (a.standing depth) :: levelsFrom (a.leaving depth) none rest := by
  have hstart : Alignment.update none (a.standing depth) a rest = none := by
    simp only [Alignment.update, Alignment.update.start]
    split
    next hor =>
      obtain ⟨hdepth, hkind, hblank⟩ := hor
      rw [Aspect.standing_of_comment hkind] at hdepth
      cases hdistance : splitterDistance? rest with
      | none => rfl
      | some target =>
          exact absurd (heads_zero_iff.mpr ⟨hkind, hblank, hdistance⟩) (hno hdepth target)
    next => rfl
  rw [levelsFrom_cons _ _ _ (hattached a (by simp)).1, hstart]
  rfl

/-- Behind a group of comments and its splitter nothing of the group is left. -/
theorem introduces_drop
    {as : List Aspect} {target i t : Nat} (hheads : Heads as 0 target)
    (h : Introduces as (target + i) t) :
    ∃ u, t = target + u ∧ Introduces (as.drop target) i u := by
  obtain ⟨first, hfirst, ht, hother⟩ := h
  have hle : target ≤ first := by
    refine Nat.le_of_not_lt fun hlt => ?_
    -- The splitter would be a comment of the other group.
    obtain ⟨a, ha, hkind⟩ := hother.kind_comment (j := target) (by omega) (by omega)
    obtain ⟨m, hm, hmiddle⟩ := hheads.splitter
    rw [hm, Option.some.injEq] at ha
    subst ha
    rw [hkind] at hmiddle
    simp [Kind.traits] at hmiddle
  obtain ⟨f, rfl⟩ := Nat.exists_eq_add_of_le hle
  obtain ⟨u, rfl⟩ := Nat.exists_eq_add_of_le (show target ≤ t by omega)
  obtain ⟨m, hm, -⟩ := hheads.splitter
  obtain ⟨hlength, -⟩ := List.getElem?_eq_some_iff.mp hm
  refine ⟨u, rfl, f, by omega, by omega, ?_⟩
  have hsplit := List.take_append_drop target as
  have htake : (as.take target).length = target := by
    rw [List.length_take, Nat.min_eq_left (by omega)]
  rw [← hsplit] at hother
  refine (heads_append (as.take target)).mp ?_
  rwa [htake]

theorem introduces_of_drop
    {as : List Aspect} (target : Nat) {i u : Nat} (hlength : target ≤ as.length)
    (h : Introduces (as.drop target) i u) :
    Introduces as (target + i) (target + u) := by
  obtain ⟨first, hfirst, hu, hheads⟩ := h
  refine ⟨target + first, by omega, by omega, ?_⟩
  have htake : (as.take target).length = target := by
    rw [List.length_take, Nat.min_eq_left hlength]
  have hwhole := (heads_append (as.take target)).mpr hheads
  rwa [List.take_append_drop, htake] at hwhole

/-- The level of the statement at position `i` is the depth of the splitter that it introduces, and
its own depth if it introduces none. -/
structure HasLevel (depth : Nat) (as : List Aspect) (i : Nat) : Prop where
  introducing : ∀ target, Introduces as i target →
    (levelsFrom depth none as)[i]? = (depthsFrom depth as)[target]?.map some
  other : (∀ target, ¬Introduces as i target) →
    (levelsFrom depth none as)[i]? = (depthsFrom depth as)[i]?.map some

section

variable {depth target : Nat} {as : List Aspect}

/-- The comments of a group stand at the depth in front of it, and the splitter that one of them
introduces stands one level further out. -/
theorem Heads.depth_group
    {k t : Nat} (hheads : Heads as 0 target) (hattached : Attached as) (hk : k < target)
    (h : Introduces as k t) :
    (depthsFrom depth as)[k]? = some depth ∧ (depthsFrom depth as)[t]? = some (depth - 1) := by
  obtain ⟨first, hfirst, ht, hother⟩ := h
  obtain ⟨m, hdepthAt, hsplitter⟩ := hother.depth_splitter depth hattached hfirst ht
  obtain ⟨b, hb, hkind⟩ := hheads.kind_comment (Nat.zero_le k) hk
  have hown : (depthsFrom depth as)[k]? = some depth := by
    rw [getElem?_depthsFrom depth hattached fun j hj =>
      hheads.kind_comment (Nat.zero_le j) (by omega), hb]
    simp [Aspect.standing_of_comment hkind]
  rw [hdepthAt, Option.some.injEq] at hown
  exact ⟨by rw [hdepthAt, hown], by rw [hsplitter, hown]⟩

/-- A comment of the group that begins with the first statement. -/
theorem HasLevel.group
    {a : Aspect} {rest : List Aspect} {i : Nat} (hattached : Attached (a :: rest))
    (hdepth : 0 < depth) (hheads : Heads (a :: rest) 0 target) (hi : i < target) :
    HasLevel depth (a :: rest) i where
  introducing t ht := by
    rw [levelsFrom_heads hattached hdepth hheads, List.getElem?_append_left (by simpa using hi),
      List.getElem?_replicate, if_pos hi, (hheads.depth_group hattached hi ht).2, Option.map_some]
  other hno := absurd ⟨0, Nat.zero_le i, hi, hheads⟩ (hno target)

/-- A statement behind the group of comments that begins with the first one. -/
theorem HasLevel.behind
    {a : Aspect} {rest : List Aspect} {k : Nat} (hattached : Attached (a :: rest))
    (hdepth : 0 < depth) (hheads : Heads (a :: rest) 0 target)
    (h : HasLevel depth ((a :: rest).drop target) k) :
    HasLevel depth (a :: rest) (target + k) := by
  have hlength : target ≤ (a :: rest).length := by
    obtain ⟨m, hm, -⟩ := hheads.splitter
    obtain ⟨hlt, -⟩ := List.getElem?_eq_some_iff.mp hm
    omega
  have hdepths (u : Nat) : (depthsFrom depth (a :: rest))[target + u]? =
      (depthsFrom depth ((a :: rest).drop target))[u]? := by
    rw [← drop_depthsFrom depth hattached fun j hj => hheads.kind_comment (Nat.zero_le j) hj,
      List.getElem?_drop]
  have hlevels : (levelsFrom depth none (a :: rest))[target + k]? =
      (levelsFrom depth none ((a :: rest).drop target))[k]? := by
    rw [levelsFrom_heads hattached hdepth hheads, List.getElem?_append_right (by simp),
      List.length_replicate, Nat.add_sub_cancel_left]
  constructor
  · intro t ht
    obtain ⟨u, rfl, hu⟩ := introduces_drop hheads ht
    rw [hlevels, hdepths, h.introducing u hu]
  · intro hno
    rw [hlevels, hdepths]
    exact h.other fun u hu => hno _ (introduces_of_drop _ hlength hu)

/-- A comment in the middle of a group is not the first one of another group. -/
theorem Heads.not_introduces_tail
    {a : Aspect} {rest : List Aspect} {k t v : Nat} (hheads : Heads (a :: rest) 0 t)
    (hk : k + 1 < t) :
    ¬Introduces rest k v := by
  rintro ⟨first, hfirst, hv, hinner⟩
  obtain ⟨b, hb, -, hblank⟩ := hinner.comment
  obtain ⟨c, hc, hgoes⟩ := hheads.group (first + 1) (by omega) (by omega)
  rw [List.getElem?_cons_succ, hb, Option.some.injEq] at hc
  subst hc
  simp [blankAbove_of_continuesComments hgoes] at hblank

/-- Where no group is moved, a comment of a group below a blank line stands at the depth of its
splitter: no block is open that the splitter could be moved out of. -/
theorem Heads.depth_splitter_eq
    {k t : Nat} (hno : 0 < depth → ∀ target, ¬Heads as 0 target) (hheads : Heads as 0 t)
    (hattached : Attached as) (hk : k < t) :
    (depthsFrom depth as)[t]? = (depthsFrom depth as)[k]? := by
  have hzero : depth = 0 := Nat.eq_zero_of_not_pos fun hpos => hno hpos t hheads
  obtain ⟨hown, hsplitter⟩ :=
    @Heads.depth_group depth t as k t hheads hattached hk ⟨0, Nat.zero_le k, hk, hheads⟩
  rw [hown, hsplitter, hzero]

/-- The first statement, if no group that is moved begins with it. -/
theorem HasLevel.zero
    {a : Aspect} {rest : List Aspect} (hattached : Attached (a :: rest))
    (hno : 0 < depth → ∀ target, ¬Heads (a :: rest) 0 target) :
    HasLevel depth (a :: rest) 0 := by
  have hlevel : (levelsFrom depth none (a :: rest))[0]? =
      (depthsFrom depth (a :: rest))[0]?.map some := by
    rw [levelsFrom_plain hattached hno]
    rfl
  constructor
  · rintro t ⟨first, hfirst, ht, hheads⟩
    obtain rfl : first = 0 := by omega
    rw [hlevel, hheads.depth_splitter_eq hno hattached ht]
  · exact fun _ => hlevel

/-- A statement behind the first one, if no group that is moved begins with that one. -/
theorem HasLevel.succ
    {a : Aspect} {rest : List Aspect} {k : Nat} (hattached : Attached (a :: rest))
    (hno : 0 < depth → ∀ target, ¬Heads (a :: rest) 0 target)
    (h : HasLevel (a.leaving depth) rest k) :
    HasLevel depth (a :: rest) (k + 1) := by
  have hlevel : (levelsFrom depth none (a :: rest))[k + 1]? =
      (levelsFrom (a.leaving depth) none rest)[k]? := by
    rw [levelsFrom_plain hattached hno, List.getElem?_cons_succ]
  constructor
  · rintro t ⟨first, hfirst, ht, hheads⟩
    cases first with
    | zero =>
        rw [hlevel, h.other fun v => hheads.not_introduces_tail ht,
          hheads.depth_splitter_eq hno hattached ht]
        rfl
    | succ first =>
        obtain ⟨u, rfl⟩ := Nat.exists_eq_add_of_le' (show 1 ≤ t by omega)
        rw [Nat.add_comm first, Nat.add_comm u] at hheads
        have hrest := (heads_append [a]).mp hheads
        rw [hlevel, h.introducing u ⟨first, by omega, by omega, hrest⟩]
        rfl
  · intro hnone
    rw [hlevel, depthsFrom, List.getElem?_cons_succ]
    refine h.other fun u hu => hnone (1 + u) ?_
    rw [Nat.add_comm k]
    exact introduces_of_drop 1 (by simp) hu

/-- The level of a statement is its depth, except for the comments that introduce a splitter: their
level is the depth of the splitter. -/
theorem levelsFrom_spec (depth : Nat) (hattached : Attached as) (i : Nat) :
    HasLevel depth as i := by
  induction hn : as.length using Nat.strongRecOn generalizing as depth i with
  | ind n ih =>
  cases as with
  | nil => exact ⟨by simp [levelsFrom, depthsFrom], by simp [levelsFrom, depthsFrom]⟩
  | cons a rest =>
  by_cases hstarts : 0 < depth ∧ ∃ target, Heads (a :: rest) 0 target
  · -- The group of comments that begins here has its level, and the rest follows by induction.
    obtain ⟨hdepth, target, hheads⟩ := hstarts
    by_cases hi : i < target
    · exact .group hattached hdepth hheads hi
    · obtain ⟨k, rfl⟩ := Nat.exists_eq_add_of_le (Nat.le_of_not_lt hi)
      have hbefore := hheads.before
      have hshorter : ((a :: rest).drop target).length < n := by
        rw [← hn, List.length_drop, List.length_cons]
        omega
      exact .behind hattached hdepth hheads
        (ih _ hshorter depth (fun b hb => hattached b (List.mem_of_mem_drop hb)) k rfl)
  · have hno : 0 < depth → ∀ target, ¬Heads (a :: rest) 0 target := fun hdepth target hheads =>
      hstarts ⟨hdepth, target, hheads⟩
    cases i with
    | zero => exact .zero hattached hno
    | succ k =>
        exact .succ hattached hno (ih _ (by simp [← hn]) (a.leaving depth)
          (fun b hb => hattached b (List.mem_cons_of_mem _ hb)) k rfl)

end

end Level
end AbapLayout
