import AbapLayout.Proofs.Nesting

/-!
# The pass over the statements, step by step

Two things go from statement to statement while levels are given: the number of open blocks and the
alignment of a group of comments.  A `Stage` holds both, and `Stage.before` is the stage in front of
a position, reached by one `Stage.pass` for each statement in front of it.  The level of a statement
is that of the stage in which it is entered (`getElem?_levelsFrom`).

What holds at every stage is that an alignment goes on only inside of a group of comments that
introduces a splitter, and that it is one level further out than the open blocks (`Stage.Sound`).
Detached statements may stand anywhere, also in the group, and the blocks may be unbalanced.
-/

namespace AbapLayout
namespace Level

/-- What goes from statement to statement. -/
structure Stage where
  /-- The number of open blocks. -/
  depth : Nat := 0
  alignment : Option Alignment := none
deriving DecidableEq, Repr

namespace Stage

/-- The stage in which the level of a statement is taken, where `rest` stands behind it. -/
def enter (s : Stage) (a : Aspect) (rest : List Aspect) : Stage where
  depth := a.standing s.depth
  alignment := Alignment.update s.alignment (a.standing s.depth) a rest

/-- The level of a statement that is entered in this stage. -/
def level (s : Stage) : Nat :=
  match s.alignment with
  | some aligned => aligned.level
  | none => s.depth

def pass (s : Stage) (a : Aspect) (rest : List Aspect) : Stage :=
  if a.detached then { s with alignment := s.alignment.map Alignment.advance }
  else
    { depth := a.leaving s.depth
      alignment := (s.enter a rest).alignment.map Alignment.advance }

/-- The stage in front of the statement at a position, where `s` is the one in front of the first. -/
def before (s : Stage) : List Aspect → Nat → Stage
  | [], _ => s
  | _ :: _, 0 => s
  | a :: rest, n + 1 => (s.pass a rest).before rest n

@[simp] theorem before_zero (s : Stage) (as : List Aspect) : s.before as 0 = s := by
  cases as <;> rfl

/-- The stage in which the statement at a position is entered; detached statements are not. -/
def at? (s : Stage) (as : List Aspect) (n : Nat) : Option Stage :=
  as[n]?.bind fun a =>
    if a.detached then none else some ((s.before as n).enter a (as.drop (n + 1)))

theorem at?_of_attached
    {s : Stage} {as : List Aspect} {n : Nat} {a : Aspect} (ha : as[n]? = some a)
    (hattached : a.detached = false) :
    s.at? as n = some ((s.before as n).enter a (as.drop (n + 1))) := by
  simp [at?, ha, hattached]

theorem at?_of_detached
    {s : Stage} {as : List Aspect} {n : Nat} {a : Aspect} (ha : as[n]? = some a)
    (hdetached : a.detached = true) :
    s.at? as n = none := by
  simp [at?, ha, hdetached]

theorem at?_eq_some_iff {s e : Stage} {as : List Aspect} {n : Nat} :
    s.at? as n = some e ↔
      ∃ a, as[n]? = some a ∧ a.detached = false ∧
        (s.before as n).enter a (as.drop (n + 1)) = e := by
  constructor
  · intro h
    obtain ⟨a, ha, h⟩ := Option.bind_eq_some_iff.mp h
    split at h
    · simp at h
    next hattached => exact ⟨a, ha, by simpa using hattached, Option.some.inj h⟩
  · rintro ⟨a, ha, hattached, rfl⟩
    exact at?_of_attached ha hattached

theorem before_succ
    {s : Stage} {as : List Aspect} {n : Nat} {a : Aspect} (ha : as[n]? = some a) :
    s.before as (n + 1) = (s.before as n).pass a (as.drop (n + 1)) := by
  induction as generalizing s n with
  | nil => simp at ha
  | cons b rest ih =>
      cases n with
      | zero =>
          obtain rfl : b = a := by simpa using ha
          simp [before]
      | succ n =>
          rw [List.getElem?_cons_succ] at ha
          exact ih ha

end Stage

theorem levelsFrom_stage (s : Stage) (a : Aspect) (rest : List Aspect) :
    levelsFrom s.depth s.alignment (a :: rest) =
      (if a.detached then none else some (s.enter a rest).level) ::
        levelsFrom (s.pass a rest).depth (s.pass a rest).alignment rest := by
  cases hdetached : a.detached with
  | true =>
      rw [levelsFrom, if_pos hdetached]
      simp [Stage.pass, hdetached]
  | false =>
      rw [levelsFrom_cons _ _ _ hdetached]
      simp only [Stage.pass, hdetached]
      rfl

/-- The levels from a position on are given from the stage in front of it. -/
theorem drop_levelsFrom (s : Stage) (as : List Aspect) (n : Nat) :
    (levelsFrom s.depth s.alignment as).drop n =
      levelsFrom (s.before as n).depth (s.before as n).alignment (as.drop n) := by
  induction as generalizing s n with
  | nil => simp [levelsFrom]
  | cons a rest ih =>
      cases n with
      | zero => simp
      | succ n =>
          rw [levelsFrom_stage, List.drop_succ_cons, List.drop_succ_cons]
          exact ih (s.pass a rest) n

/-- The level of a statement is that of the stage in which it is entered. -/
theorem getElem?_levelsFrom (s : Stage) (as : List Aspect) (n : Nat) :
    (levelsFrom s.depth s.alignment as)[n]? = as[n]?.map fun _ => (s.at? as n).map Stage.level := by
  have hfirst := congrArg (·[0]?) (drop_levelsFrom s as n)
  simp only [List.getElem?_drop, Nat.add_zero] at hfirst
  rw [hfirst]
  cases ha : as[n]? with
  | none =>
      rw [List.drop_eq_nil_of_le (List.getElem?_eq_none_iff.mp ha)]
      rfl
  | some a =>
      obtain ⟨hlt, rfl⟩ := List.getElem?_eq_some_iff.mp ha
      rw [List.drop_eq_getElem_cons hlt, levelsFrom_stage]
      cases hdetached : as[n].detached with
      | true => simp [Stage.at?_of_detached ha hdetached]
      | false => simp [Stage.at?_of_attached ha hdetached]

/-! ## Where an alignment goes on -/

/-- An alignment that has not come to its splitter is one level further out than the open blocks,
and its group of comments began in front of the position `n`. -/
def Stage.Sound (s : Stage) (as : List Aspect) (n : Nat) : Prop :=
  ∀ aligned, s.alignment = some aligned → 0 < aligned.distance →
    0 < s.depth ∧ aligned.level = s.depth - 1 ∧ ∃ first < n, Heads as first (n + aligned.distance)

/-- The statement at position `n` is entered as a comment of a group, `k` statements in front of the
splitter. -/
structure Stage.AlignedAt (e : Stage) (as : List Aspect) (n k : Nat) : Prop where
  alignment_eq : e.alignment = some ⟨k, e.depth - 1⟩
  ahead : 0 < k
  open_block : 0 < e.depth
  group : ∃ first ≤ n, Heads as first (n + k)

theorem Stage.AlignedAt.introduces
    {e : Stage} {as : List Aspect} {n k : Nat} (h : e.AlignedAt as n k) :
    Introduces as n (n + k) := by
  obtain ⟨first, hfirst, hheads⟩ := h.group
  have := h.ahead
  exact ⟨first, hfirst, by omega, hheads⟩

theorem Stage.AlignedAt.level_eq
    {e : Stage} {as : List Aspect} {n k : Nat} (h : e.AlignedAt as n k) :
    e.level = e.depth - 1 := by
  rw [Stage.level, h.alignment_eq]

theorem Stage.level_eq_depth {e : Stage} (h : e.alignment = none) : e.level = e.depth := by
  rw [Stage.level, h]

theorem Introduces.kind_comment
    {as : List Aspect} {n t : Nat} {a : Aspect} (h : Introduces as n t) (ha : as[n]? = some a) :
    a.kind = .comment := by
  obtain ⟨first, hfirst, hn, hheads⟩ := h
  obtain ⟨b, hb, hkind⟩ := hheads.kind_comment hfirst hn
  rw [ha, Option.some.injEq] at hb
  exact hb ▸ hkind

/-- A statement that begins an alignment is the first of a group of comments. -/
theorem Alignment.update_start
    {as : List Aspect} {n depth : Nat} {a : Aspect} {aligned : Alignment} (ha : as[n]? = some a)
    (h : Alignment.update.start depth a (as.drop (n + 1)) = some aligned) :
    0 < depth ∧ 0 < aligned.distance ∧ aligned.level = depth - 1 ∧
      Heads as n (n + aligned.distance) := by
  unfold Alignment.update.start at h
  split at h
  next hor =>
    obtain ⟨hdepth, hkind, hblank⟩ := hor
    obtain ⟨k, hk, rfl⟩ := Option.map_eq_some_iff.mp h
    obtain ⟨hlt, rfl⟩ := List.getElem?_eq_some_iff.mp ha
    have hsplit : as.drop n = as[n] :: as.drop (n + 1) := List.drop_eq_getElem_cons hlt
    have hheads : Heads (as.drop n) 0 k := by
      rw [hsplit]
      exact heads_zero_iff.mpr ⟨hkind, hblank, hk⟩
    have hlength : (as.take n).length = n := by
      rw [List.length_take, Nat.min_eq_left (Nat.le_of_lt hlt)]
    have hwhole := (heads_append (as.take n)).mpr hheads
    rw [List.take_append_drop, hlength] at hwhole
    exact ⟨hdepth, hheads.before, rfl, hwhole⟩
  next => simp at h

namespace Stage

variable {s : Stage} {as : List Aspect} {n : Nat} {a : Aspect}

/-- A statement is entered without an alignment, or as a comment of a group. -/
theorem Sound.enter_cases
    (hs : s.Sound as n) (ha : as[n]? = some a) :
    (s.enter a (as.drop (n + 1))).alignment = none ∨
      ∃ k, (s.enter a (as.drop (n + 1))).AlignedAt as n k := by
  cases halignment : (s.enter a (as.drop (n + 1))).alignment with
  | none => exact .inl rfl
  | some aligned =>
      right
      have hstart (h : Alignment.update.start (a.standing s.depth) a (as.drop (n + 1)) =
          some aligned) : ∃ k, (s.enter a (as.drop (n + 1))).AlignedAt as n k := by
        obtain ⟨hdepth, hahead, hlevel, hheads⟩ := Alignment.update_start ha h
        exact ⟨aligned.distance, by rw [halignment, enter, ← hlevel], hahead, hdepth,
          n, Nat.le_refl n, hheads⟩
      have hupdate := halignment
      simp only [enter, Alignment.update] at hupdate
      split at hupdate
      next old hold =>
        split at hupdate
        · exact hstart hupdate
        next hdistance =>
          obtain rfl : old = aligned := Option.some.inj hupdate
          obtain ⟨hdepth, hlevel, first, hfirst, hheads⟩ := hs old hold (by omega)
          have hkind := Introduces.kind_comment
            ⟨first, Nat.le_of_lt hfirst, by omega, hheads⟩ ha
          have hstanding := Aspect.standing_of_comment hkind s.depth
          refine ⟨old.distance, ?_, by omega, ?_, first, Nat.le_of_lt hfirst, hheads⟩
          · rw [halignment, enter, hstanding, ← hlevel]
          · rwa [enter, hstanding]
      next => exact hstart hupdate

theorem Sound.pass
    (hs : s.Sound as n) (hcomments : CommentsOpenNothing as) (ha : as[n]? = some a) :
    (s.pass a (as.drop (n + 1))).Sound as (n + 1) := by
  intro aligned haligned hdistance
  unfold Stage.pass at haligned ⊢
  cases hdetached : a.detached with
  | true =>
      simp only [hdetached, if_true] at haligned ⊢
      obtain ⟨old, hold, rfl⟩ := Option.map_eq_some_iff.mp haligned
      simp only [Alignment.advance] at hdistance ⊢
      obtain ⟨hdepth, hlevel, first, hfirst, hheads⟩ := hs old hold (by omega)
      refine ⟨hdepth, hlevel, first, by omega, ?_⟩
      rwa [show n + 1 + (old.distance - 1) = n + old.distance by omega]
  | false =>
      simp only [hdetached] at haligned ⊢
      obtain ⟨old, hold, rfl⟩ := Option.map_eq_some_iff.mp haligned
      simp only [Alignment.advance] at hdistance ⊢
      rcases hs.enter_cases ha with hnone | ⟨k, hk⟩
      · simp [hnone] at hold
      · have hkind := hk.introduces.kind_comment ha
        have hleaving : a.leaving s.depth = (s.enter a (as.drop (n + 1))).depth := by
          rw [Aspect.leaving_of_comment hkind (hcomments a (List.mem_of_getElem? ha) hkind), enter,
            Aspect.standing_of_comment hkind]
        obtain rfl : ⟨k, (s.enter a (as.drop (n + 1))).depth - 1⟩ = old := by
          rw [← Option.some.injEq, ← hk.alignment_eq, hold]
        obtain ⟨first, hfirst, hheads⟩ := hk.group
        simp only at hdistance
        simp only [Bool.false_eq_true, if_false, hleaving]
        refine ⟨hk.open_block, trivial, first, by omega, ?_⟩
        rwa [show n + 1 + (k - 1) = n + k by omega]

/-- At every position an alignment goes on inside of its group of comments only. -/
theorem sound_before
    (hcomments : CommentsOpenNothing as) (hn : n ≤ as.length) :
    (({} : Stage).before as n).Sound as n := by
  induction n with
  | zero => simp [Sound]
  | succ n ih =>
      have ha : as[n]? = some as[n] := List.getElem?_eq_getElem (by omega)
      rw [before_succ ha]
      exact (ih (by omega)).pass hcomments ha

/-- A comment of a group leaves the open blocks as they are and brings its splitter nearer. -/
theorem pass_of_aligned
    {k level : Nat} (hkind : a.kind = .comment) (hindents : a.indents = false) (rest : List Aspect)
    (halignment : a.detached = false → (s.enter a rest).alignment = some ⟨k, level⟩)
    (hold : a.detached = true → s.alignment = some ⟨k, level⟩) :
    s.pass a rest = ⟨s.depth, some ⟨k - 1, level⟩⟩ := by
  unfold pass
  cases hdetached : a.detached with
  | true => simp [hold hdetached, Alignment.advance]
  | false =>
      simp [halignment hdetached, Alignment.advance, Aspect.leaving_of_comment hkind hindents]

theorem enter_of_aligned
    {k level : Nat} (hk : 0 < k) (halignment : s.alignment = some ⟨k, level⟩) (a : Aspect)
    (rest : List Aspect) :
    (s.enter a rest).alignment = some ⟨k, level⟩ := by
  simp [enter, Alignment.update, halignment, Nat.ne_of_gt hk]

/-- Up to the splitter of a group the open blocks and the alignment stay as they are. -/
theorem AlignedAt.before_group
    {e : Stage} {k m : Nat} (h : e.AlignedAt as n k) (he : s.at? as n = some e)
    (hcomments : CommentsOpenNothing as) (hm : m < k) :
    s.before as (n + 1 + m) = ⟨e.depth, some ⟨k - 1 - m, e.depth - 1⟩⟩ := by
  obtain ⟨first, hfirst, hheads⟩ := h.group
  induction m with
  | zero =>
      obtain ⟨a, ha, hattached, rfl⟩ := at?_eq_some_iff.mp he
      have hkind := h.introduces.kind_comment ha
      have hindents := hcomments a (List.mem_of_getElem? ha) hkind
      rw [Nat.add_zero, before_succ ha, pass_of_aligned hkind hindents _ (fun _ => h.alignment_eq)
        (by simp [hattached])]
      simp [enter, Aspect.standing_of_comment hkind]
  | succ m ih =>
      obtain ⟨b, hb, hkind⟩ := hheads.kind_comment (j := n + 1 + m) (by omega) (by omega)
      have hindents := hcomments b (List.mem_of_getElem? hb) hkind
      have hbefore := ih (by omega)
      rw [← Nat.add_assoc, before_succ hb, hbefore,
        pass_of_aligned hkind hindents _ (fun _ => enter_of_aligned (by omega) rfl _ _)
          (fun _ => rfl), Nat.sub_sub _ m 1]

/-- A statement between a comment of a group and its splitter is aligned as the comment is. -/
theorem AlignedAt.alignedAt_later
    {e e' : Stage} {k m : Nat} (h : e.AlignedAt as n k) (he : s.at? as n = some e)
    (hcomments : CommentsOpenNothing as) (hm : m + 1 < k) (he' : s.at? as (n + 1 + m) = some e') :
    e'.alignment = some ⟨k - 1 - m, e.depth - 1⟩ := by
  obtain ⟨b, hb, -, rfl⟩ := at?_eq_some_iff.mp he'
  rw [h.before_group he hcomments (by omega)]
  exact enter_of_aligned (by omega) rfl _ _

/-- The splitter of a group stands one level further out than the open blocks. -/
theorem AlignedAt.splitter
    {e e' : Stage} {k : Nat} (h : e.AlignedAt as n k) (he : s.at? as n = some e)
    (hcomments : CommentsOpenNothing as) (he' : s.at? as (n + k) = some e') :
    e'.alignment = none ∧ e'.depth = e.depth - 1 := by
  obtain ⟨first, hfirst, hheads⟩ := h.group
  obtain ⟨m, hm, hmiddle⟩ := hheads.splitter
  obtain ⟨b, hb, -, rfl⟩ := at?_eq_some_iff.mp he'
  obtain rfl : m = b := by rwa [hm, Option.some.injEq] at hb
  have hkind : m.kind ≠ .comment := by
    intro hkind
    rw [hkind] at hmiddle
    simp [Kind.traits] at hmiddle
  have hahead := h.ahead
  have hbefore := h.before_group he hcomments (m := k - 1) (by omega)
  rw [show n + 1 + (k - 1) = n + k by omega, Nat.sub_self] at hbefore
  rw [hbefore]
  exact ⟨by simp [enter, Alignment.update, Alignment.update.start, hkind],
    Aspect.standing_of_middle hmiddle _⟩

/-- Detached statements open and close no blocks. -/
theorem depth_before_of_detached
    {m : Nat} (h : ∀ j, n ≤ j → j < n + m → ∃ a, as[j]? = some a ∧ a.detached = true) :
    (s.before as (n + m)).depth = (s.before as n).depth := by
  induction m with
  | zero => rfl
  | succ m ih =>
      obtain ⟨b, hb, hdetached⟩ := h (n + m) (by omega) (by omega)
      rw [← Nat.add_assoc, before_succ hb, ← ih fun j hj hlt => h j hj (by omega)]
      simp [pass, hdetached]

end Stage

end Level
end AbapLayout
