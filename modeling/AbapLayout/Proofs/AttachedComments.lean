import AbapLayout.Proofs.Faults
import AbapLayout.Proofs.FullLines
import Mathlib.Data.List.Forall2

/-!
# Comments behind the tokens of a line

A printed line is made of its tokens, each in its column, and of the comments that are put behind
them; a full-line comment stands on a line without tokens.  `Line.Composed` says of a line which
comments it is made of.  Some lines share comments among them (`Distributed`) if each is made of its
own and all of them together are these comments; lines are put together, indented and glued so that
no comment is lost and none is printed twice (`Line.distributed_glue`).

A token is put behind another one only if that one is no comment, so on every line a comment is the
last token.
-/

namespace AbapLayout

open Text

/-! ## What a line is made of -/

namespace Line

/-- Comments one behind the other, as they are printed behind a line. -/
inductive Trail (o : Options) : List Comment → Text → Prop where
  | nil : Trail o [] []
  | cons {c : Comment} {cs : List Comment} {tail : Text} (n : Nat) :
      c.IsSigned → Trail o cs tail →
        Trail o (c :: cs) (blanks n ++ (CommentText.normalize o c.value ++ tail))

/-- A line with its tokens and some comments behind them; only a hollow line has neither. -/
def Made (o : Options) (hollow : Prop) (cs : List Comment) (l : Line) : Prop :=
  (∃ tail, l.Shows tail ∧ Trail o cs tail ∧ (l.placements = [] → cs ≠ [])) ∨
    hollow ∧ cs = [] ∧ l.placements = [] ∧ ∃ n, l.text = blanks n

/-- A line with its tokens and some comments behind them, where no token stands behind a comment. -/
structure Holds (o : Options) (hollow : Prop) (cs : List Comment) (l : Line) : Prop where
  made : l.Made o hollow cs
  last : ∀ p ∈ l.placements.dropLast, p.token.isComment = false

/-- A full-line comment and the comments behind it. -/
def StandsAlone (o : Options) (cs : List Comment) (l : Line) : Prop :=
  l.placements = [] ∧ ∃ c rest tail, cs = c :: rest ∧ Comment.isStarText c.value = true ∧
    Trail o rest tail ∧ l.text = trimRight c.value ++ tail

/-- A line that is made of its tokens and some comments. -/
def Composed (o : Options) (hollow : Prop) (cs : List Comment) (l : Line) : Prop :=
  l.Holds o hollow cs ∨ l.StandsAlone o cs

/-- A line of a statement in the making: tokens may still come behind it unless it ends in a
comment. -/
structure Growing (o : Options) (hollow : Prop) (cs : List Comment) (l : Line) : Prop
    extends l.Holds o hollow cs where
  code : l.endsInComment = false → cs = [] ∧ ∀ p ∈ l.placements, p.token.isComment = false

/-- A line to which others may be glued unless it ends in a comment. -/
def Gluable (o : Options) (hollow : Prop) (cs : List Comment) (l : Line) : Prop :=
  l.Growing o hollow cs ∨ l.endsInComment = true ∧ l.StandsAlone o cs

variable {o : Options} {hollow : Prop} {cs : List Comment} {l other : Line}

theorem Trail.append
    {tail : Text} (h : Trail o cs tail) (n : Nat) {c : Comment} (hc : c.IsSigned) :
    Trail o (cs ++ [c]) (tail ++ (blanks n ++ CommentText.normalize o c.value)) := by
  induction h with
  | nil => simpa using Trail.cons n hc .nil
  | cons m hd _ ih => simpa [List.append_assoc] using Trail.cons m hd ih

theorem Trail.blanks_append
    {tail : Text} (h : Trail o cs tail) (hne : cs ≠ []) (n : Nat) :
    Trail o cs (blanks n ++ tail) := by
  cases h with
  | nil => exact absurd rfl hne
  | cons m hc hrest =>
      rw [← List.append_assoc, blanks_append_blanks]
      exact .cons (n + m) hc hrest

/-- A comment has its sign in print, with no blank in front of it. -/
theorem Trail.trimLeft
    {tail : Text} (h : Trail o cs tail) (hne : cs ≠ []) :
    Trail o cs (trimLeft tail) := by
  cases h with
  | nil => exact absurd rfl hne
  | @cons c rest more m hc hrest =>
      obtain ⟨text, hline, hvalue⟩ := hc
      obtain ⟨comment, -, heq⟩ := CommentText.normalize_sign o hline
      rw [trimLeft_blanks_append, hvalue, heq, List.cons_append, trimLeft_cons (by decide),
        ← List.cons_append, ← heq, ← hvalue]
      exact .cons 0 ⟨text, hline, hvalue⟩ hrest

theorem Made.mono {hollow' : Prop} (h : l.Made o hollow cs) (himp : hollow → hollow') :
    l.Made o hollow' cs :=
  h.imp_right (And.imp_left himp)

theorem Growing.mono {hollow' : Prop} (h : l.Growing o hollow cs) (himp : hollow → hollow') :
    l.Growing o hollow' cs where
  made := h.made.mono himp
  last := h.last
  code := h.code

/-- A line that is not hollow has tokens or comments. -/
theorem Made.full (h : l.Made o False cs) (hnone : l.placements = []) : cs ≠ [] := by
  rcases h with ⟨-, -, -, hfull⟩ | ⟨hhollow, -⟩
  · exact hfull hnone
  · exact hhollow.elim

/-- Without comments there is nothing behind the tokens. -/
theorem Made.isOpen (h : l.Made o hollow []) : l.Open := by
  rcases h with ⟨tail, hshows, htrail, -⟩ | ⟨-, -, hnone, n, htext⟩
  · cases htrail
    exact ⟨0, hshows⟩
  · exact ⟨n, [], htext, hnone ▸ .nil 0⟩

/-! ## Lines in the making -/

/-- A token behind code, or at the front of a line. -/
theorem growing_put
    (h : l.Open) (hcode : ∀ p ∈ l.placements, p.token.isComment = false) (a : Address) (t : Token)
    {printed : Text} (spaces : Nat) (hsolid : printed.Solid) :
    (l.put a t printed spaces).Growing o hollow [] where
  made := by
    obtain ⟨n, h⟩ := h
    exact .inl ⟨[], h.put a t spaces hsolid, .nil, by simp [put]⟩
  last := by simpa [put] using hcode
  code := by
    intro hends
    refine ⟨rfl, fun p hp => ?_⟩
    simp only [put, List.mem_append, List.mem_singleton] at hp
    rcases hp with hp | rfl
    · exact hcode p hp
    · exact hends

/-- A token at the front of a line. -/
theorem growing_first
    (a : Address) (t : Token) {printed : Text} (fixed : Bool) (hsolid : printed.Solid) :
    ({ ({} : Line).put a t printed 0 with fixed } : Line).Growing o hollow [] := by
  have hput := @growing_put o hollow {} Open.empty (by simp) a t printed 0 hsolid
  exact ⟨⟨hput.made, hput.last⟩, hput.code⟩

theorem Growing.indent (h : l.Growing o hollow cs) (n : Nat) :
    (l.indent n).Growing o hollow cs where
  made := by
    rcases h.made with ⟨tail, hshows, htrail, hne⟩ | ⟨hhollow, hcs, hnone, m, htext⟩
    · by_cases hps : l.placements = []
      · obtain ⟨m, hmoved⟩ := hshows.indent n
        exact .inl ⟨_, hmoved, htrail.blanks_append (hne hps) m, fun _ => hne hps⟩
      · exact .inl ⟨tail, hshows.indent_of_ne_nil hps n, htrail, by simpa [Line.indent] using hne⟩
    · exact .inr ⟨hhollow, hcs, by simp [Line.indent, hnone], n + m,
        by simp [Line.indent, htext, blanks_append_blanks]⟩
  last := by
    intro p hp
    simp only [Line.indent, ← List.map_dropLast, List.mem_map] at hp
    obtain ⟨q, hq, rfl⟩ := hp
    exact h.last q hq
  code := by
    intro hends
    refine ⟨(h.code hends).1, fun p hp => ?_⟩
    simp only [Line.indent, List.mem_map] at hp
    obtain ⟨q, hq, rfl⟩ := hp
    exact (h.code hends).2 q hq

/-- A line that ends in code absorbs another one that is not hollow. -/
theorem Growing.absorb
    {hollow' : Prop} (h : l.Growing o hollow []) (hends : l.endsInComment = false)
    (h' : other.Growing o hollow' cs) (hfull : other.placements = [] → cs ≠ []) (k : Nat) :
    (l.absorb other (blanks k)).Growing o hollow cs where
  made := by
    have hopen := h.made.isOpen
    rcases h'.made with ⟨tail, hshows, htrail, -⟩ | ⟨-, hcs, hnone, -⟩
    · by_cases hps : other.placements = []
      · obtain ⟨m, hboth⟩ := hshows.absorb hopen k
        rw [if_pos hps] at hboth
        exact .inl ⟨_, hboth, (htrail.trimLeft (hfull hps)).blanks_append (hfull hps) m,
          fun _ => hfull hps⟩
      · exact .inl ⟨tail, hshows.absorb_of_ne_nil hopen hps k, htrail,
          by simp [Line.absorb, hps]⟩
    · exact absurd hcs (hfull hnone)
  last := by
    have hcode := (h.code hends).2
    have hlast := h'.last
    intro p hp
    simp only [Line.absorb] at hp
    rcases List.eq_nil_or_concat other.placements with hnone | ⟨init, q, hps⟩
    · rw [hnone, List.map_nil, List.append_nil] at hp
      exact hcode p (List.dropLast_subset _ hp)
    · rw [hps, List.concat_eq_append] at hp hlast
      simp only [List.dropLast_concat] at hlast
      rw [List.map_append, ← List.append_assoc, List.map_singleton, List.dropLast_concat,
        List.mem_append] at hp
      rcases hp with hp | hp
      · exact hcode p hp
      · obtain ⟨r, hr, rfl⟩ := List.mem_map.mp hp
        exact hlast r hr
  code := by
    intro hother
    refine ⟨(h'.code hother).1, fun p hp => ?_⟩
    simp only [Line.absorb, List.mem_append, List.mem_map] at hp
    rcases hp with hp | ⟨q, hq, rfl⟩
    · exact (h.code hends).2 p hp
    · exact (h'.code hother).2 q hq

end Line

/-! ## Comments are put behind lines -/

theorem CommentText.exists_attach_eq (o : Options) (line value : Text) :
    ∃ n, attach o line value = line ++ (blanks n ++ normalize o value) := by
  unfold attach
  dsimp only
  split
  · exact ⟨0, rfl⟩
  · exact ⟨1, rfl⟩

namespace Line

open Rendering

variable {o : Options} {hollow : Prop} {cs : List Comment} {l other : Line}

/-- With a comment behind it a line is not hollow. -/
theorem Holds.attachComment
    (h : l.Holds o hollow cs) {c : Comment} (hc : c.IsSigned) :
    (attachComment o c l).Holds o False (cs ++ [c]) where
  made := by
    obtain ⟨m, hattach⟩ := CommentText.exists_attach_eq o l.text c.value
    rcases h.made with ⟨tail, ⟨body, htext, hspread⟩, htrail, -⟩ | ⟨-, rfl, hnone, n, htext⟩
    · refine .inl ⟨_, ⟨body, ?_, hspread⟩, htrail.append m hc, by simp⟩
      rw [Rendering.attachComment, hattach, htext, List.append_assoc]
    · refine .inl ⟨_, ⟨[], ?_, ?_⟩, .cons (n + m) hc .nil, by simp⟩
      · rw [Rendering.attachComment, hattach, htext, ← blanks_append_blanks]
        simp
      · rw [Rendering.attachComment, hnone]
        exact .nil 0
  last := h.last

theorem Composed.attachComment
    (h : l.Composed o hollow cs) {c : Comment} (hc : c.IsSigned) :
    (attachComment o c l).Composed o hollow (cs ++ [c]) := by
  rcases h with h | ⟨hnone, first, rest, tail, rfl, hstar, htrail, htext⟩
  · have hlonger := h.attachComment hc
    exact .inl ⟨hlonger.made.mono False.elim, hlonger.last⟩
  · obtain ⟨m, hattach⟩ := CommentText.exists_attach_eq o l.text c.value
    refine .inr ⟨hnone, first, rest ++ [c], _, rfl, hstar, htrail.append m hc, ?_⟩
    rw [Rendering.attachComment, hattach, htext, List.append_assoc]

/-- A comment behind a line of a member ends it. -/
theorem Growing.attachComment
    (h : l.Growing o hollow cs) {c : Comment} (hc : c.IsSigned) :
    ({ attachComment o c l with endsInComment := true } : Line).Growing o False (cs ++ [c]) where
  made := (h.toHolds.attachComment hc).made
  last := h.last
  code := by simp

/-- A comment on a line of its own. -/
theorem composed_standing
    {indent : Nat} {c : Comment} (hc : c.IsMarked) (hnone : l.placements = [])
    (htext : l.text = CommentText.standing o indent c.value) :
    l.Holds o False [c] ∨ l.StandsAlone o [c] := by
  rcases hc with hsigned | ⟨text, -, hvalue⟩
  · obtain ⟨m, hattach⟩ := CommentText.exists_attach_eq o (blanks indent) c.value
    rw [CommentText.standing, if_neg (by simp [hsigned.isStarText]), hattach] at htext
    refine .inl ⟨.inl ⟨_, ⟨[], ?_, hnone ▸ .nil 0⟩, .cons (indent + m) hsigned .nil, by simp⟩,
      by simp [hnone]⟩
    rw [htext, ← blanks_append_blanks]
    simp
  · have hstar : Comment.isStarText c.value = true := by simp [Comment.isStarText, hvalue]
    rw [CommentText.standing, if_pos hstar] at htext
    exact .inr ⟨hnone, c, [], [], rfl, hstar, .nil, by simp [htext]⟩

theorem Gluable.composed (h : l.Gluable o hollow cs) : l.Composed o hollow cs :=
  h.imp Growing.toHolds And.right

end Line

/-! ## Comments shared out among lines -/

/-- Some lines share comments among them, each line having what it needs of its share. -/
def Distributed (P : List Comment → Line → Prop) (cs : List Comment) (lines : List Line) : Prop :=
  ∃ shares : List (List Comment), List.Forall₂ P shares lines ∧ shares.flatten.Perm cs

namespace Distributed

variable {P Q : List Comment → Line → Prop} {cs ds share : List Comment} {l : Line}
  {lines more : List Line}

theorem nil : Distributed P [] [] :=
  ⟨[], .nil, .refl _⟩

theorem cons (hl : P share l) (h : Distributed P cs lines) :
    Distributed P (share ++ cs) (l :: lines) := by
  obtain ⟨shares, hall, hperm⟩ := h
  exact ⟨share :: shares, .cons hl hall, by simpa using hperm.append_left share⟩

theorem cons_of_nil (hl : P [] l) (h : Distributed P cs lines) : Distributed P cs (l :: lines) :=
  cons hl h

theorem singleton (hl : P share l) : Distributed P share [l] := by
  simpa using cons hl nil

theorem append (h : Distributed P cs lines) (h' : Distributed P ds more) :
    Distributed P (cs ++ ds) (lines ++ more) := by
  obtain ⟨shares, hall, hperm⟩ := h
  obtain ⟨others, hothers, hperm'⟩ := h'
  exact ⟨shares ++ others, List.rel_append hall hothers, by simpa using hperm.append hperm'⟩

/-- Lines that need no comment. -/
theorem of_forall (h : ∀ l ∈ lines, P [] l) : Distributed P [] lines := by
  induction lines with
  | nil => exact nil
  | cons l rest ih => exact cons_of_nil (h l (by simp)) (ih fun k hk => h k (by simp [hk]))

theorem flatMap
    {α : Type} {comments : α → List Comment} {lines : α → List Line} {as : List α}
    (h : ∀ a ∈ as, Distributed P (comments a) (lines a)) :
    Distributed P (as.flatMap comments) (as.flatMap lines) := by
  induction as with
  | nil => exact nil
  | cons a rest ih =>
      exact append (h a (by simp)) (ih fun b hb => h b (by simp [hb]))

theorem map
    {f : Line → Line} (h : Distributed P cs lines) (hf : ∀ share l, P share l → Q share (f l)) :
    Distributed Q cs (lines.map f) := by
  obtain ⟨shares, hall, hperm⟩ := h
  exact ⟨shares, List.forall₂_map_right_iff.mpr (hall.imp hf), hperm⟩

theorem imp (h : Distributed P cs lines) (himp : ∀ share l, P share l → Q share l) :
    Distributed Q cs lines := by
  obtain ⟨shares, hall, hperm⟩ := h
  exact ⟨shares, hall.imp himp, hperm⟩

theorem of_cons (h : Distributed P cs (l :: lines)) :
    ∃ share rest, P share l ∧ Distributed P rest lines ∧ (share ++ rest).Perm cs := by
  obtain ⟨shares, hall, hperm⟩ := h
  cases hall with
  | cons hl hrest => exact ⟨_, _, hl, ⟨_, hrest, .refl _⟩, by simpa using hperm⟩

theorem exists_of_mem (h : Distributed P cs lines) (hl : l ∈ lines) :
    ∃ share, P share l ∧ ∀ c ∈ share, c ∈ cs := by
  obtain ⟨shares, hall, hperm⟩ := h
  obtain ⟨i, hi, rfl⟩ := List.getElem_of_mem hl
  have hlength := hall.length_eq
  refine ⟨shares[i], hall.get (by omega) hi, fun c hc => hperm.mem_iff.mp ?_⟩
  exact List.mem_flatten.mpr ⟨_, List.getElem_mem _, hc⟩

theorem perm (h : Distributed P cs lines) (hperm : cs.Perm ds) : Distributed P ds lines := by
  obtain ⟨shares, hall, hshares⟩ := h
  exact ⟨shares, hall, hshares.trans hperm⟩

/-- A comment put behind one of the lines. -/
theorem modify
    {f : Line → Line} {c : Comment} {i : Nat} (h : Distributed P cs lines)
    (hf : ∀ share l, P share l → P (share ++ [c]) (f l)) (hi : i < lines.length) :
    Distributed P (cs ++ [c]) (lines.modify i f) := by
  induction lines generalizing cs i with
  | nil => simp at hi
  | cons l rest ih =>
      obtain ⟨share, others, hl, hrest, hperm⟩ := h.of_cons
      cases i with
      | zero =>
          rw [List.modify_zero_cons]
          refine (cons (hf share l hl) hrest).perm ?_
          have hswap : (share ++ [c] ++ others).Perm (share ++ others ++ [c]) := by
            rw [List.append_assoc, List.append_assoc]
            exact List.perm_append_comm.append_left share
          exact hswap.trans (hperm.append_right [c])
      | succ i =>
          rw [List.modify_succ_cons]
          refine (cons hl (ih hrest (by simpa using hi))).perm ?_
          rw [← List.append_assoc]
          exact hperm.append_right [c]

end Distributed

/-! ## Lines are glued -/

namespace Line

variable {o : Options} {hollow : Prop} {cs : List Comment} {l other : Line}

/-- A line that begins with a period or comma has that to show. -/
theorem Gluable.growing_of_beginsWithTerminator
    (h : l.Gluable o hollow cs) (hbegins : l.beginsWithTerminator = true) :
    l.Growing o hollow cs ∧ (l.placements = [] → cs ≠ []) := by
  rcases h with h | ⟨-, hnone, c, rest, tail, -, hstar, -, htext⟩
  · refine ⟨h, ?_⟩
    rcases h.made with ⟨-, -, -, hfull⟩ | ⟨-, -, -, n, hblank⟩
    · exact hfull
    · have htrim : trimLeft l.text = [] := by
        rw [hblank, ← List.append_nil (blanks n), trimLeft_blanks_append]
        rfl
      simp [beginsWithTerminator, htrim] at hbegins
  · exfalso
    have hstarred : ∃ text, trimRight c.value = '*' :: text := by
      rw [← Rendering.isStarText_trimRight, Comment.isStarText, beq_iff_eq] at hstar
      exact List.head?_eq_some_iff.mp hstar
    obtain ⟨text, hstarred⟩ := hstarred
    rw [beginsWithTerminator, htext, hstarred, List.cons_append,
      trimLeft_cons (by decide)] at hbegins
    simp at hbegins

/-- Gluing lines loses and doubles no comment. -/
theorem distributed_glueFrom
    {above : Line} {lines : List Line} {share : List Comment} (k : Nat) (keepLast : Bool)
    (habove : above.Gluable o hollow share) (hlines : Distributed (Gluable o hollow) cs lines) :
    Distributed (Gluable o hollow) (share ++ cs) (glueFrom (blanks k) keepLast above lines) := by
  induction lines generalizing above share cs with
  | nil =>
      rw [glueFrom]
      exact (Distributed.singleton habove).append hlines
  | cons next rest ih =>
      obtain ⟨own, others, hnext, hrest, hperm⟩ := hlines.of_cons
      rw [glueFrom]
      split
      next hglue =>
        simp only [Bool.and_eq_true, Bool.not_eq_true'] at hglue
        have hends := hglue.1.2
        have hcode : above.Growing o hollow share := by
          rcases habove with habove | ⟨hcomment, -⟩
          · exact habove
          · simp [hends] at hcomment
        obtain ⟨hgrowing, hfull⟩ := hnext.growing_of_beginsWithTerminator hglue.1.1
        have hnone := (hcode.code hends).1
        subst hnone
        have hboth := hcode.absorb hends hgrowing hfull k
        exact (ih (.inl hboth) hrest).perm (by simpa using hperm)
      next =>
        exact (Distributed.cons habove (ih hnext hrest)).perm (hperm.append_left share)

theorem distributed_glue
    {lines : List Line} (k : Nat) (keepLast : Bool)
    (h : Distributed (Gluable o hollow) cs lines) :
    Distributed (Gluable o hollow) cs (glue (blanks k) keepLast lines) := by
  cases lines with
  | nil => exact h
  | cons l rest =>
      obtain ⟨share, others, hl, hrest, hperm⟩ := h.of_cons
      exact (distributed_glueFrom k keepLast hl hrest).perm hperm

end Line

namespace Rendering

open Line

variable {o : Options} {wanted : WantedBlanks} {ordinal indent : Nat}

/-! ## The lines of tokens -/

theorem growing_beginLine
    (indent startColumn : Nat) (a : Address) {t : Token} (previous before : Option Token)
    (h : IsSolid o t) :
    (beginLine o indent startColumn a t previous before).Growing o False [] := by
  unfold beginLine
  dsimp only
  split
  · exact growing_first a t _ (h previous before)
  · exact growing_put Open.empty (by simp) a t _ (h previous before)

/-- In a plain statement the line ends after every comment, so no token stands behind one. -/
theorem growing_cellLines
    {startColumn : Nat} {previous before : Option Token} {current : Option Line}
    {cells : List (Address × Cell)}
    (hcurrent : ∀ l ∈ current, l.Growing o False [] ∧ l.endsInComment = false)
    (hcells : ∀ c ∈ cells, IsSolid o c.2.token)
    (hbreaks : ∀ c ∈ cells, c.2.token.isComment = true → c.2.breakAfter = true) :
    ∀ l ∈ cellLines o wanted indent startColumn previous before current cells,
      l.Growing o False [] := by
  induction cells generalizing previous before current with
  | nil =>
      intro l hl
      exact (hcurrent l (by simpa [cellLines] using hl)).1
  | cons head rest ih =>
      obtain ⟨a, cell⟩ := head
      have hcell := hcells (a, cell) (by simp)
      have hbreak := hbreaks (a, cell) (by simp)
      have hrest : ∀ c ∈ rest, IsSolid o c.2.token := fun c hc => hcells c (by simp [hc])
      have hbreaksRest := fun c (hc : c ∈ rest) => hbreaks c (by simp [hc])
      obtain ⟨line, hgrown, heq⟩ := @cellLines_cons o wanted indent startColumn previous before
        current a cell rest
      have hline : line.Growing o False [] ∧ line.endsInComment = cell.token.isComment := by
        rcases hgrown with ⟨-, rfl⟩ | ⟨l, rfl, rfl⟩
        · refine ⟨growing_beginLine indent startColumn a previous before hcell, ?_⟩
          unfold beginLine
          dsimp only
          split
          all_goals rfl
        · obtain ⟨hl, hends⟩ := hcurrent l (by simp)
          exact ⟨growing_put hl.made.isOpen (hl.code hends).2 a _ _ (hcell previous before), rfl⟩
      rw [heq]
      split
      · exact List.forall_mem_cons.mpr ⟨hline.1, ih (by simp) hrest hbreaksRest⟩
      next hgoes =>
        have hcode : cell.token.isComment = false := by
          cases hcomment : cell.token.isComment with
          | false => rfl
          | true => exact absurd (hbreak hcomment) hgoes
        exact ih (by simpa [hline.2] using ⟨hline.1, hcode⟩) hrest hbreaksRest

/-- Tokens that stand behind one another; a comment among them ends its line. -/
theorem growing_sequenceLines
    {previous before : Option Token} {current : Option Line} {tokens : List (Address × Token)}
    (hcurrent : ∀ l ∈ current,
      l.Growing o False [] ∧ l.endsInComment = previous.any Token.isComment)
    (htokens : ∀ t ∈ tokens, IsSolid o t.2) :
    ∀ l ∈ sequenceLines o wanted previous before current tokens, l.Growing o False [] := by
  induction tokens generalizing previous before current with
  | nil =>
      intro l hl
      exact (hcurrent l (by simpa [sequenceLines] using hl)).1
  | cons head rest ih =>
      obtain ⟨a, t⟩ := head
      have ht := htokens (a, t) (by simp)
      have hrest : ∀ t ∈ rest, IsSolid o t.2 := fun t ht => htokens t (by simp [ht])
      have hfresh : ({ ({} : Line).put a t (tokenText o t previous before) 0 with
          fixed := t.isStarComment } : Line).Growing o False [] :=
        growing_first a t _ (ht previous before)
      cases current with
      | none =>
          rw [sequenceLines]
          exact ih (by simpa using ⟨hfresh, rfl⟩) hrest
      | some l =>
          obtain ⟨hl, hends⟩ := hcurrent l (by simp)
          simp only [sequenceLines]
          split
          · exact List.forall_mem_cons.mpr ⟨hl, ih (by simpa using ⟨hfresh, rfl⟩) hrest⟩
          next hcode =>
            rw [Bool.not_eq_true] at hcode
            rw [hcode] at hends
            have hlonger := @growing_put o False l hl.made.isOpen (hl.code hends).2 a t _
              (Spacing.printed o (wanted a) t previous) (ht previous before)
            exact ih (by simpa using ⟨hlonger, rfl⟩) hrest

/-- Code is printed on lines that end in code. -/
theorem endsInComment_sequenceLines
    {previous before : Option Token} {current : Option Line} {tokens : List (Address × Token)}
    (hcurrent : ∀ l ∈ current, l.endsInComment = false)
    (htokens : ∀ t ∈ tokens, t.2.isComment = false) :
    ∀ l ∈ sequenceLines o wanted previous before current tokens, l.endsInComment = false := by
  induction tokens generalizing previous before current with
  | nil =>
      intro l hl
      exact hcurrent l (by simpa [sequenceLines] using hl)
  | cons head rest ih =>
      obtain ⟨a, t⟩ := head
      have ht : t.isComment = false := htokens (a, t) (by simp)
      have hrest : ∀ t ∈ rest, t.2.isComment = false := fun t ht => htokens t (by simp [ht])
      cases current with
      | none =>
          rw [sequenceLines]
          exact ih (by simpa [put] using ht) hrest
      | some l =>
          simp only [sequenceLines]
          split
          · exact List.forall_mem_cons.mpr
              ⟨hcurrent l (by simp), ih (by simpa [put] using ht) hrest⟩
          · exact ih (by simpa [put] using ht) hrest

theorem growing_foldl_absorb
    {first : Line} {rest : List Line} (hfirst : first.Growing o False [])
    (hends : first.endsInComment = false)
    (hrest : ∀ l ∈ rest, l.Growing o False [] ∧ l.endsInComment = false) :
    (rest.foldl (fun l extra => l.absorb extra [' ']) first).Growing o False [] ∧
      (rest.foldl (fun l extra => l.absorb extra [' ']) first).endsInComment = false := by
  induction rest generalizing first with
  | nil => exact ⟨hfirst, hends⟩
  | cons l rest ih =>
      obtain ⟨hl, hcode⟩ := hrest l (by simp)
      exact ih (hfirst.absorb hends hl hl.made.full 1) hcode fun k hk => hrest k (by simp [hk])

/-- The shared words and the colon of a chain stand on a line without comments. -/
theorem growing_keywordLine
    {c : Chain} (hwords : ∀ t ∈ c.words, IsSolid o t)
    (hcode : ∀ t ∈ c.words, t.isComment = false) (hcolon : c.colon.isComment = false) :
    (keywordLine o wanted ordinal indent c).Growing o False [] ∧
      (keywordLine o wanted ordinal indent c).endsInComment = false := by
  have hlines : ∀ l ∈ sequenceLines o wanted none none none (addressed ordinal 0 c.words),
      l.Growing o False [] ∧ l.endsInComment = false := fun l hl =>
    ⟨growing_sequenceLines (by simp) (fun t ht => hwords t.2 (mem_of_mem_addressed ht)) l hl,
      endsInComment_sequenceLines (by simp) (fun t ht => hcode t.2 (mem_of_mem_addressed ht)) l hl⟩
  refine ⟨?_, hcolon⟩
  unfold keywordLine
  dsimp only
  split
  · exact growing_put (Open.empty.indent indent) (by simp [Line.indent]) _ _ 0 solid_colon
  next first rest hsome =>
    rw [hsome, List.forall_mem_cons] at hlines
    obtain ⟨hjoined, hends⟩ := growing_foldl_absorb hlines.1.1 hlines.1.2 hlines.2
    have hmoved := hjoined.indent indent
    exact growing_put hmoved.made.isOpen (hmoved.code hends).2 _ _ 0 solid_colon

end Rendering
end AbapLayout
