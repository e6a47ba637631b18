import AbapLayout.Proofs.Stages

/-!
# How the level changes from statement to statement

Whatever the statements are, balanced or not, the level changes by at most one between neighbours.
It rises behind a statement that opens a block or a branch, and it falls at one that closes a block
or a branch and at a comment that is aligned with the splitter it introduces (`levels_neighbours`).
Where nothing is detached, only comments are aligned, and those that are have the level of their
splitter (`levels_aligned`).
-/

namespace AbapLayout

open Level

/-! ## Stages of neighbours -/

namespace Level

theorem Aspect.standing_cases (a : Aspect) (depth : Nat) :
    a.standing depth = depth ∨
      (a.kind.traits.closes = true ∨ a.kind.traits.middle = true) ∧ a.standing depth = depth - 1 := by
  unfold standing
  split
  next h => exact .inr ⟨by simpa using h, rfl⟩
  next => exact .inl rfl

namespace Stage

variable {s e e' : Stage} {as : List Aspect} {i j k : Nat} {a b : Aspect}

/-- The depth of a statement comes from its neighbour and from what both of them are. -/
theorem depth_neighbours
    (hij : i < j) (ha : as[i]? = some a) (hb : as[j]? = some b) (he : s.at? as i = some e)
    (he' : s.at? as j = some e')
    (hbetween : ∀ k, i < k → k < j → ∃ c, as[k]? = some c ∧ c.detached = true) :
    e'.depth = b.standing (if a.indents then e.depth + 1 else e.depth) := by
  obtain ⟨a', ha', hattached, rfl⟩ := at?_eq_some_iff.mp he
  obtain ⟨b', hb', -, rfl⟩ := at?_eq_some_iff.mp he'
  obtain rfl : a = a' := by rwa [ha, Option.some.injEq] at ha'
  obtain rfl : b = b' := by rwa [hb, Option.some.injEq] at hb'
  obtain ⟨m, rfl⟩ := Nat.exists_eq_add_of_le (show i + 1 ≤ j by omega)
  have hdepth : (s.before as (i + 1 + m)).depth = (s.before as (i + 1)).depth :=
    depth_before_of_detached fun k hk hlt => hbetween k (by omega) (by omega)
  rw [enter, hdepth, before_succ ha]
  simp [pass, hattached, Aspect.leaving, enter]

/-- Behind an aligned comment the level stays as it is up to the splitter. -/
theorem AlignedAt.level_later
    (h : e.AlignedAt as i k) (he : s.at? as i = some e) (hcomments : CommentsOpenNothing as)
    (hij : i < j) (hj : j ≤ i + k) (he' : s.at? as j = some e') :
    e'.level = e.level := by
  rw [h.level_eq]
  rcases Nat.eq_or_lt_of_le hj with rfl | hlt
  · obtain ⟨hnone, hdepth⟩ := h.splitter he hcomments he'
    rw [level_eq_depth hnone, hdepth]
  · obtain ⟨m, rfl⟩ := Nat.exists_eq_add_of_le (show i + 1 ≤ j by omega)
    rw [level, h.alignedAt_later he hcomments (by omega) he']

/-- A statement is entered without an alignment, unless it is a comment that is aligned. -/
theorem at?_cases
    (hcomments : CommentsOpenNothing as) (he : ({} : Stage).at? as i = some e) :
    e.alignment = none ∨ ∃ k, e.AlignedAt as i k := by
  obtain ⟨a, ha, -, rfl⟩ := at?_eq_some_iff.mp he
  have hlt := (List.getElem?_eq_some_iff.mp ha).1
  exact (sound_before hcomments (Nat.le_of_lt hlt)).enter_cases ha

theorem level_le_depth
    (hcomments : CommentsOpenNothing as) (he : ({} : Stage).at? as i = some e) :
    e.level ≤ e.depth := by
  rcases at?_cases hcomments he with hnone | ⟨k, hk⟩
  · exact Nat.le_of_eq (level_eq_depth hnone)
  · exact hk.level_eq ▸ Nat.sub_le _ _

section Neighbours

variable (hcomments : CommentsOpenNothing as) (hij : i < j) (ha : as[i]? = some a)
  (hb : as[j]? = some b) (he : ({} : Stage).at? as i = some e)
  (he' : ({} : Stage).at? as j = some e')
  (hbetween : ∀ k, i < k → k < j → ∃ c, as[k]? = some c ∧ c.detached = true)
include hcomments hij ha hb he he' hbetween

/-- The level rises by one behind an opener, and behind the last comment of a group if its splitter
is detached. -/
theorem level_rises :
    e'.level ≤ e.level + 1 ∧
      (e.level < e'.level → a.indents = true ∨ ∃ k, e.AlignedAt as i k ∧ i + k < j) := by
  have hdepth := depth_neighbours hij ha hb he he' hbetween
  have hbelow := level_le_depth hcomments he'
  have hstanding := b.standing_cases (if a.indents then e.depth + 1 else e.depth)
  rcases at?_cases hcomments he with hnone | ⟨k, hk⟩
  · have hlevel := level_eq_depth hnone
    cases hindents : a.indents with
    | true =>
        simp only [hindents, if_true] at hdepth hstanding
        exact ⟨by omega, fun _ => .inl rfl⟩
    | false =>
        simp only [hindents, Bool.false_eq_true, if_false] at hdepth hstanding
        exact ⟨by omega, fun h => by omega⟩
  · have hkind := hk.introduces.kind_comment ha
    have hlevel := hk.level_eq
    simp only [hcomments a (List.mem_of_getElem? ha) hkind, Bool.false_eq_true, if_false]
      at hdepth hstanding
    refine ⟨by omega, fun h => .inr ⟨k, hk, Nat.lt_of_not_le fun hle => ?_⟩⟩
    -- Up to the splitter the level stays as it is.
    have := hk.level_later he hcomments hij hle he'
    omega

/-- The level falls by one at a closer, a splitter or a comment that is aligned. -/
theorem level_falls :
    e.level ≤ e'.level + 1 ∧
      (e'.level < e.level →
        (b.kind.traits.closes = true ∨ b.kind.traits.middle = true) ∨
          ∃ k, e'.AlignedAt as j k) := by
  have hdepth := depth_neighbours hij ha hb he he' hbetween
  have hleaving : e.level ≤ if a.indents then e.depth + 1 else e.depth := by
    have := level_le_depth hcomments he
    split <;> omega
  rcases at?_cases hcomments he' with hnone | ⟨k, hk⟩
  · have hlevel' := level_eq_depth hnone
    rcases b.standing_cases (if a.indents then e.depth + 1 else e.depth) with
      hstays | ⟨hcloses, hfalls⟩
    · exact ⟨by omega, fun h => by omega⟩
    · exact ⟨by omega, fun _ => .inl hcloses⟩
  · have hlevel' := hk.level_eq
    rw [Aspect.standing_of_comment (hk.introduces.kind_comment hb)] at hdepth
    exact ⟨by omega, fun _ => .inr ⟨k, hk⟩⟩

end Neighbours

end Stage

/-- Where nothing is detached, the depth of a stage is the running depth. -/
theorem getElem?_depthsFrom_eq
    {as : List Aspect} (hattached : ∀ a ∈ as, a.detached = false) (s : Stage) (n : Nat) :
    (depthsFrom s.depth as)[n]? = (s.at? as n).map Stage.depth := by
  induction as generalizing s n with
  | nil => rfl
  | cons a rest ih =>
      have ha := hattached a (by simp)
      cases n with
      | zero => simp [depthsFrom, Stage.at?, ha, Stage.enter]
      | succ n =>
          have hrest := ih (fun b hb => hattached b (List.mem_cons_of_mem _ hb)) (s.pass a rest) n
          have hdepth : (s.pass a rest).depth = a.leaving s.depth := by simp [Stage.pass, ha]
          rw [depthsFrom, List.getElem?_cons_succ, ← hdepth, hrest]
          rfl

/-- The stage in which the statement at a position is entered. -/
def stage? (raws : List RawStatement) (i : Nat) : Option Stage :=
  ({} : Stage).at? (aspectsAhead none raws) i

end Level

theorem getElem?_levels (raws : List RawStatement) (i : Nat) :
    (levels raws)[i]? = raws[i]?.map fun _ => (stage? raws i).map Stage.level := by
  have hlevels := getElem?_levelsFrom {} (aspectsAhead none raws) i
  rw [levels, aspects_eq_aspectsAhead, hlevels, getElem?_aspectsAhead, Option.map_map]
  rfl

theorem level_eq_some_iff {raws : List RawStatement} {i n : Nat} :
    (levels raws)[i]? = some (some n) ↔ ∃ e, stage? raws i = some e ∧ e.level = n := by
  rw [getElem?_levels]
  cases hr : raws[i]? with
  | none => simp [stage?, Stage.at?, getElem?_aspectsAhead, hr]
  | some r => simp

theorem level_eq_none_iff {raws : List RawStatement} {i : Nat} {r : RawStatement}
    (hr : raws[i]? = some r) :
    (levels raws)[i]? = some none ↔ r.detached = true := by
  rw [getElem?_levels, hr]
  simp [stage?, Stage.at?, getElem?_aspectsAhead, hr]

/-! ## Neighbours -/

/-- The statement at a position opens a block or a branch; a `SELECT` does if an `ENDSELECT` closes
it. -/
def OpensAt (raws : List RawStatement) (i : Nat) : Prop :=
  ∃ r, raws[i]? = some r ∧ r.kind.traits.opens = true ∧
    (r.kind = .select → ∃ closer, (i, closer) ∈ selectPairs (raws.map (·.kind)))

def ClosesAt (raws : List RawStatement) (i : Nat) : Prop :=
  ∃ r, raws[i]? = some r ∧ (r.kind.traits.closes = true ∨ r.kind.traits.middle = true)

/-- The comment at position `i` introduces the splitter at the position `target` and has its level,
if it has one. -/
def AlignedWith (raws : List RawStatement) (i target : Nat) : Prop :=
  IntroducesSplitter raws i target ∧
    ∀ n, (levels raws)[target]? = some (some n) → (levels raws)[i]? = some (some n)

theorem opensAt_of_indents
    {raws : List RawStatement} {i : Nat} {a : Aspect} (ha : (aspectsAhead none raws)[i]? = some a)
    (hindents : a.indents = true) :
    OpensAt raws i := by
  rw [getElem?_aspectsAhead, Option.map_eq_some_iff] at ha
  obtain ⟨r, hr, rfl⟩ := ha
  obtain ⟨hlt, hget⟩ := List.getElem?_eq_some_iff.mp hr
  have hsplit : raws.map (·.kind) =
      (raws.take i).map (·.kind) ++ r.kind :: (raws.drop (i + 1)).map (·.kind) := by
    rw [← hget, ← List.map_cons, ← List.drop_eq_getElem_cons hlt, ← List.map_append,
      List.take_append_drop]
  have hlength : ((raws.take i).map (·.kind)).length = i := by
    simp [Nat.min_eq_left (Nat.le_of_lt hlt)]
  have hopens := indentsAfter_selectPairs ((raws.take i).map (·.kind)) r.kind
    ((raws.drop (i + 1)).map (·.kind))
  rw [← hsplit, hlength, show opensBlock r.kind _ = true from hindents, indentsAfter,
    Bool.and_eq_true] at hopens
  refine ⟨r, hr, hopens.1, fun hselect => ?_⟩
  have hpaired := hopens.2
  rw [hselect] at hpaired
  simpa [Kind.traits] using hpaired

theorem alignedWith_of_alignedAt
    {raws : List RawStatement} {i k : Nat} {e : Stage} (he : stage? raws i = some e)
    (h : e.AlignedAt (aspectsAhead none raws) i k) :
    AlignedWith raws i (i + k) := by
  refine ⟨introduces_iff.mp h.introduces, fun n hn => ?_⟩
  obtain ⟨e', he', rfl⟩ := level_eq_some_iff.mp hn
  have hahead := h.ahead
  have hsame := h.level_later he (commentsOpenNothing_aspectsAhead none raws) (by omega)
    (Nat.le_refl _) he'
  exact level_eq_some_iff.mpr ⟨e, he, hsame.symm⟩

/-- How the level changes between two statements with detached ones between them. -/
theorem levels_apart
    {raws : List RawStatement} {i j m n : Nat} (hij : i < j)
    (hbetween : ∀ k, i < k → k < j → (levels raws)[k]? = some none)
    (hm : (levels raws)[i]? = some (some m)) (hn : (levels raws)[j]? = some (some n)) :
    (m ≤ n + 1 ∧ n ≤ m + 1) ∧
    (m < n → OpensAt raws i ∨ ∃ target, AlignedWith raws i target ∧ target < j) ∧
    (n < m → ClosesAt raws j ∨ ∃ target, AlignedWith raws j target) := by
  obtain ⟨e, he, rfl⟩ := level_eq_some_iff.mp hm
  obtain ⟨e', he', rfl⟩ := level_eq_some_iff.mp hn
  obtain ⟨a, ha, -⟩ := Stage.at?_eq_some_iff.mp he
  obtain ⟨b, hb, -⟩ := Stage.at?_eq_some_iff.mp he'
  have hcomments := commentsOpenNothing_aspectsAhead none raws
  have hdetached : ∀ k, i < k → k < j →
      ∃ c, (aspectsAhead none raws)[k]? = some c ∧ c.detached = true := by
    intro k hk hlt
    have hnone := hbetween k hk hlt
    obtain ⟨r, hr⟩ : ∃ r, raws[k]? = some r := by
      cases hr : raws[k]? with
      | none => simp [getElem?_levels, hr] at hnone
      | some r => exact ⟨r, rfl⟩
    rw [getElem?_aspectsAhead, hr]
    exact ⟨_, rfl, (level_eq_none_iff hr).mp hnone⟩
  obtain ⟨hup, hrises⟩ := Stage.level_rises hcomments hij ha hb he he' hdetached
  obtain ⟨hdown, hfalls⟩ := Stage.level_falls hcomments hij ha hb he he' hdetached
  refine ⟨⟨hdown, hup⟩, fun hlt => ?_, fun hlt => ?_⟩
  · rcases hrises hlt with hindents | ⟨k, hk, htarget⟩
    · exact .inl (opensAt_of_indents ha hindents)
    · exact .inr ⟨i + k, alignedWith_of_alignedAt he hk, htarget⟩
  · rcases hfalls hlt with hcloses | ⟨k, hk⟩
    · rw [getElem?_aspectsAhead, Option.map_eq_some_iff] at hb
      obtain ⟨r, hr, rfl⟩ := hb
      exact .inl ⟨r, hr, hcloses⟩
    · exact .inr ⟨j + k, alignedWith_of_alignedAt he' hk⟩

/-- Every statement that is not detached has a level, whether the blocks are balanced or not.
Between neighbours it changes by at most one: it rises behind an opener, and it falls at a closer, at
a splitter and at a comment that is aligned with its splitter.  Across detached statements this is so
too, but for comments whose splitter is one of these: behind it the level may rise as well. -/
theorem levels_neighbours (raws : List RawStatement) :
    (levels raws).length = raws.length ∧
    (∀ (i : Nat) (r : RawStatement), raws[i]? = some r →
      ((levels raws)[i]? = some none ↔ r.detached = true)) ∧
    (∀ i m n, (levels raws)[i]? = some (some m) → (levels raws)[i + 1]? = some (some n) →
      (m ≤ n + 1 ∧ n ≤ m + 1) ∧ (m < n → OpensAt raws i) ∧
      (n < m → ClosesAt raws (i + 1) ∨ ∃ target, AlignedWith raws (i + 1) target)) ∧
    ∀ i j m n, i < j → (∀ k, i < k → k < j → (levels raws)[k]? = some none) →
      (levels raws)[i]? = some (some m) → (levels raws)[j]? = some (some n) →
      (m ≤ n + 1 ∧ n ≤ m + 1) ∧
      (m < n → OpensAt raws i ∨ ∃ target, AlignedWith raws i target ∧ target < j) ∧
      (n < m → ClosesAt raws j ∨ ∃ target, AlignedWith raws j target) := by
  refine ⟨by simp [levels, aspects_eq_aspectsAhead], fun i r hr => level_eq_none_iff hr,
    fun i m n hm hn => ?_, fun i j m n hij hbetween hm hn => levels_apart hij hbetween hm hn⟩
  obtain ⟨hclose, hrises, hfalls⟩ :=
    levels_apart (Nat.lt_succ_self i) (fun k hk hlt => by omega) hm hn
  refine ⟨hclose, fun hlt => ?_, hfalls⟩
  -- The splitter of a comment stands behind it, not between neighbours.
  rcases hrises hlt with hopens | ⟨target, haligned, htarget⟩
  · exact hopens
  · obtain ⟨first, -, hi, -⟩ := haligned.1
    omega

/-- `ENDIF`s that close nothing around an `IF`, a detached comment among those that introduce its
first `ELSE`, and a second `ELSE` that is detached itself. -/
def unbalancedStatements : List RawStatement :=
  [.onLine 1 .endIf, .onLine 2 .ifBlock, .onLine 3 .other, .onLine 5 .comment,
    { RawStatement.onLine 6 .comment with detached := true }, .onLine 7 .elseBranch,
    .onLine 8 .other, .onLine 10 .comment,
    { RawStatement.onLine 11 .elseBranch with detached := true }, .onLine 12 .other,
    .onLine 13 .endIf, .onLine 14 .endIf]

theorem levels_neighbours_unbalanced :
    levels unbalancedStatements =
        [some 0, some 0, some 1, some 0, none, some 0, some 1, some 0, none, some 1, some 0,
          some 0] ∧
      OpensAt unbalancedStatements 1 ∧
      (ClosesAt unbalancedStatements 3 ∨ ∃ target, AlignedWith unbalancedStatements 3 target) ∧
      (OpensAt unbalancedStatements 7 ∨
        ∃ target, AlignedWith unbalancedStatements 7 target ∧ target < 9) := by
  obtain ⟨-, -, hneighbours, hacross⟩ := levels_neighbours unbalancedStatements
  have hlevels : levels unbalancedStatements =
      [some 0, some 0, some 1, some 0, none, some 0, some 1, some 0, none, some 1, some 0,
        some 0] := by decide
  have hdetached : ∀ k, 7 < k → k < 9 → (levels unbalancedStatements)[k]? = some none := by
    intro k hk hlt
    obtain rfl : k = 8 := by omega
    rw [hlevels]
    rfl
  refine ⟨hlevels, (hneighbours 1 0 1 ?_ ?_).2.1 (by omega),
    (hneighbours 2 1 0 ?_ ?_).2.2 (by omega),
    (hacross 7 9 0 1 (by omega) hdetached ?_ ?_).2.1 (by omega)⟩
  all_goals rw [hlevels]; rfl

/-! ## Aligned comments -/

theorem not_introduces_of_middle
    {as : List Aspect} {n t : Nat} {a : Aspect} (ha : as[n]? = some a)
    (hmiddle : a.kind.traits.middle = true) :
    ¬Introduces as n t := by
  intro h
  rw [h.kind_comment ha] at hmiddle
  simp [Kind.traits] at hmiddle

/-- A comment that introduces a splitter and the splitter are both one level further out than the
blocks that are open around the comment. -/
theorem levels_of_introducesSplitter
    {raws : List RawStatement} (hattached : ∀ r ∈ raws, r.detached = false) {i target : Nat}
    {e : Stage} (he : stage? raws i = some e) (h : IntroducesSplitter raws i target) :
    (levels raws)[i]? = some (some (e.depth - 1)) ∧
      (levels raws)[target]? = some (some (e.depth - 1)) := by
  have haspects := attached_aspectsAhead none hattached
  have hintroduces := introduces_iff.mpr h
  have hdepth : (depthsFrom 0 (aspectsAhead none raws))[i]? = some e.depth := by
    have hstage := getElem?_depthsFrom_eq (fun a ha => (haspects a ha).1) {} i
    rw [stage?] at he
    rwa [he] at hstage
  have hbelow : (depthsFrom 0 (aspectsAhead none raws))[target]? = some (e.depth - 1) := by
    obtain ⟨first, hfirst, hi, hheads⟩ := hintroduces
    obtain ⟨n, hn, hbelow⟩ := hheads.depth_splitter 0 haspects hfirst hi
    obtain rfl : e.depth = n := by rwa [hdepth, Option.some.injEq] at hn
    exact hbelow
  have hother : ∀ t, ¬Introduces (aspectsAhead none raws) target t := by
    obtain ⟨first, -, -, hheads⟩ := hintroduces
    obtain ⟨m, hm, hmiddle⟩ := hheads.splitter
    exact fun t => not_introduces_of_middle hm hmiddle
  rw [levels, aspects_eq_aspectsAhead, (levelsFrom_spec 0 haspects i).introducing target hintroduces,
    (levelsFrom_spec 0 haspects target).other hother, hbelow]
  exact ⟨rfl, rfl⟩

/-- Where no statement is detached, a comment has another level than the running depth exactly if
it belongs to a group below a blank line in front of a splitter and a block is open; every comment of
such a group has the level of the splitter.  Other statements are entered without an alignment. -/
theorem levels_aligned
    {raws : List RawStatement} (hattached : ∀ r ∈ raws, r.detached = false) {i : Nat}
    {r : RawStatement} (hr : raws[i]? = some r) :
    ∃ e, stage? raws i = some e ∧ (levels raws)[i]? = some (some e.level) ∧
      (r.kind ≠ .comment → e.alignment = none) ∧
      (e.level ≠ e.depth ↔ 0 < e.depth ∧ ∃ target, IntroducesSplitter raws i target) ∧
      ∀ target, IntroducesSplitter raws i target →
        (levels raws)[i]? = (levels raws)[target]? := by
  obtain ⟨a, ha, hkind⟩ : ∃ a, (aspectsAhead none raws)[i]? = some a ∧ a.kind = r.kind := by
    rw [getElem?_aspectsAhead, hr]
    exact ⟨_, rfl, rfl⟩
  have haspects := attached_aspectsAhead none hattached
  obtain ⟨e, he⟩ : ∃ e, stage? raws i = some e :=
    ⟨_, Stage.at?_of_attached ha (haspects a (List.mem_of_getElem? ha)).1⟩
  have hlevel : (levels raws)[i]? = some (some e.level) := level_eq_some_iff.mpr ⟨e, he, rfl⟩
  have hcases := Stage.at?_cases (commentsOpenNothing_aspectsAhead none raws) he
  refine ⟨e, he, hlevel, fun hother => ?_, ⟨fun hne => ?_, fun ⟨hopen, target, htarget⟩ => ?_⟩,
    fun target htarget => ?_⟩
  · rcases hcases with hnone | ⟨k, hk⟩
    · exact hnone
    · exact absurd (hkind ▸ hk.introduces.kind_comment ha) hother
  · rcases hcases with hnone | ⟨k, hk⟩
    · exact absurd (Stage.level_eq_depth hnone) hne
    · exact ⟨hk.open_block, i + k, introduces_iff.mp hk.introduces⟩
  · have hbelow := (levels_of_introducesSplitter hattached he htarget).1
    rw [hlevel, Option.some.injEq, Option.some.injEq] at hbelow
    omega
  · obtain ⟨hhere, hsplitter⟩ := levels_of_introducesSplitter hattached he htarget
    exact hhere.trans hsplitter.symm

theorem levels_aligned_branched :
    (∀ r ∈ branchedStatements, r.detached = false) ∧
      (levels branchedStatements)[6]? = some (some 0) ∧
      ∃ target, IntroducesSplitter branchedStatements 6 target ∧
        (levels branchedStatements)[target]? = some (some 0) := by
  have hattached : ∀ r ∈ branchedStatements, r.detached = false := by decide
  have hlevel : (levels branchedStatements)[6]? = some (some 0) := by decide
  have hstage : (stage? branchedStatements 6).map (·.depth) = some 1 := by decide
  obtain ⟨e, he, hlevel', -, hiff, hgroup⟩ :=
    levels_aligned hattached (i := 6) (show branchedStatements[6]? = some _ from rfl)
  have hne : e.level ≠ e.depth := by
    rw [hlevel, Option.some.injEq, Option.some.injEq] at hlevel'
    rw [he, Option.map_some, Option.some.injEq] at hstage
    omega
  obtain ⟨-, target, htarget⟩ := hiff.mp hne
  exact ⟨hattached, hlevel, target, htarget, (hgroup target htarget).symm.trans hlevel⟩

end AbapLayout
