import AbapLayout.Proofs.AttachedComments
import AbapLayout.Proofs.KeptComments
import AbapLayout.Proofs.TokenOrder

/-!
# Comments of statements in print

The comments that a statement holds beside its tokens are printed behind its lines, or on lines of
their own: each stands on exactly one line, once (`distributed_statementLines`,
`distributed_render`).  This needs that no member of a chain is without tokens and that the comment
behind the period on a line of its own belongs to a statement with more than that period
(`Statement.Filled`); all statements that are arranged are like this (`Layout.filled_arrange`).

A line stays blank in one case only: the last member of a chain is nothing but the period that is
printed apart (`Statement.leavesHollow`).
-/

namespace AbapLayout

open Text

/-- The comments of an entry that are not among its tokens. -/
def Entry.attached : Entry → List Comment
  | .member _ trailing => trailing.toList
  | .remark comment => [comment]

/-- The comments of a body and of the note with it that are not among its tokens.  A note is printed
only if no member of a chain holds the comment behind it. -/
def Body.attached (b : Body) (note : Option Comment) : List Comment :=
  match b with
  | .plain _ => note.toList
  | .chain c => c.entries.flatMap Entry.attached ++
      (match c.entries.getLast? with
        | some (.member _ _) => none
        | _ => note).toList

namespace Statement

def attached (s : Statement) : List Comment :=
  s.body.attached s.note ++ s.post.toList

/-- There is something on every line of a statement. -/
structure Filled (s : Statement) : Prop where
  members : ∀ c, s.body = .chain c → ∀ cells trailing, .member cells trailing ∈ c.entries →
    cells ≠ []
  post : s.post.isSome = true → 2 ≤ s.cells.length

/-- Whether the last member of a chain is nothing but the period that is printed apart. -/
def leavesHollow (s : Statement) : Bool :=
  s.post.isSome && match s.body with
    | .plain _ => false
    | .chain c =>
      match (c.entries.filter fun e => !e.isRemark).getLast? with
      | some (.member [cell] none) => cell.token.isPeriod
      | _ => false

end Statement

namespace Rendering

open Line

variable {o : Options} {wanted : WantedBlanks} {ordinal indent : Nat} {hollow : Prop}

/-! ## Members -/

/-- All tokens of a member are left out. -/
def LeftOut (ordinal slot : Nat) (skip : Option Nat) (cells : List Cell) : Prop :=
  (addressed ordinal slot (cells.map (·.token))).filter (fun p => some p.1.slot != skip) = []

/-- Of a member with several tokens some are printed. -/
theorem LeftOut.eq_singleton
    {slot : Nat} {skip : Option Nat} {cells : List Cell} (h : LeftOut ordinal slot skip cells)
    (hne : cells ≠ []) :
    skip = some slot ∧ ∃ cell, cells = [cell] := by
  rw [LeftOut, List.filter_eq_nil_iff] at h
  match cells, hne with
  | [a], _ =>
      have hfirst := h (⟨ordinal, slot⟩, a.token) (by simp [addressed])
      simp only [bne_iff_ne, ne_eq, Decidable.not_not] at hfirst
      exact ⟨hfirst.symm, a, rfl⟩
  | a :: b :: rest, _ =>
      have hfirst := h (⟨ordinal, slot⟩, a.token) (by simp [addressed])
      have hsecond := h (⟨ordinal, slot + 1⟩, b.token) (by simp [addressed])
      simp only [bne_iff_ne, ne_eq, Decidable.not_not] at hfirst hsecond
      rw [← hfirst, Option.some.injEq] at hsecond
      omega

/-- A member prints its comment behind its first line. -/
theorem distributed_memberLines
    {slot : Nat} {skip : Option Nat} {cells : List Cell} {trailing : Option Comment}
    (hcells : ∀ cell ∈ cells, IsSolid o cell.token)
    (htrailing : ∀ c, trailing = some c → c.IsSigned)
    (hhollow : trailing = none → LeftOut ordinal slot skip cells → hollow) :
    Distributed (Growing o hollow) trailing.toList
      (memberLines o wanted ordinal slot skip cells trailing) := by
  have hsequence := @growing_sequenceLines o wanted none none none
    ((addressed ordinal slot (cells.map (·.token))).filter fun p => some p.1.slot != skip)
    (by simp) (by
      intro t ht
      obtain ⟨cell, hcell, heq⟩ := List.mem_map.mp
        (mem_of_mem_addressed (List.mem_filter.mp ht).1)
      exact heq ▸ hcells cell hcell)
  have hblank : ({} : Line).Growing o True [] :=
    ⟨⟨.inr ⟨trivial, rfl, rfl, 0, rfl⟩, by simp⟩, by simp⟩
  unfold memberLines
  dsimp only
  cases hlines : sequenceLines o wanted none none none
      ((addressed ordinal slot (cells.map (·.token))).filter fun p => some p.1.slot != skip) with
  | nil =>
      have hnone : LeftOut ordinal slot skip cells := by
        by_contra hne
        exact sequenceLines_ne_nil o wanted none none (.inr hne) hlines
      cases trailing with
      | none => exact .singleton (hblank.mono fun _ => hhollow rfl hnone)
      | some c =>
          have hcomment := hblank.attachComment (htrailing c rfl)
          exact .singleton (hcomment.mono False.elim)
  | cons first rest =>
      rw [hlines, List.forall_mem_cons] at hsequence
      have hrest : Distributed (Growing o hollow) [] rest :=
        .of_forall fun l hl => (hsequence.2 l hl).mono False.elim
      cases trailing with
      | none => exact .cons_of_nil (hsequence.1.mono False.elim) hrest
      | some c =>
          have hcomment := hsequence.1.attachComment (htrailing c rfl)
          exact .cons (hcomment.mono False.elim) hrest

theorem growing_placeMember
    {l : Line} {cs : List Comment} (indent : Nat) (h : l.Growing o hollow cs) :
    (placeMember indent l).Growing o hollow cs := by
  unfold placeMember
  split
  · exact h
  · exact h.indent indent

theorem distributed_entryLines
    {skip : Option Nat} {e : Nat × Entry}
    (hcells : ∀ cell ∈ e.2.cells, IsSolid o cell.token) (hsound : e.2.Sound)
    (hhollow : ∀ cells, e.2 = .member cells none → LeftOut ordinal e.1 skip cells → hollow) :
    Distributed (Gluable o hollow) e.2.attached (entryLines o wanted ordinal indent skip e) := by
  obtain ⟨slot, e⟩ := e
  cases e with
  | remark comment =>
      refine .singleton ?_
      let l : Line :=
        { text := CommentText.standing o indent comment.value, endsInComment := true }
      rcases composed_standing (l := l) hsound rfl rfl with hholds | halone
      · exact .inl ⟨⟨hholds.made.mono False.elim, hholds.last⟩, by simp⟩
      · exact .inr ⟨rfl, halone⟩
  | member cells trailing =>
      have hlines := @distributed_memberLines o wanted ordinal hollow slot skip cells trailing
        hcells hsound fun hnone => hhollow cells (hnone ▸ rfl)
      exact hlines.map fun share l hl => .inl (growing_placeMember indent hl)

/-- The entries of a chain share out their comments among their lines, also if the first member
stands behind the colon. -/
theorem distributed_entriesLines
    {skip : Option Nat} {inlineFirst : Bool} {keyword : Line} {entries : List (Nat × Entry)}
    (hkeyword : keyword.Growing o False []) (hends : keyword.endsInComment = false)
    (hcells : ∀ e ∈ entries, ∀ cell ∈ e.2.cells, IsSolid o cell.token)
    (hsound : ∀ e ∈ entries, e.2.Sound)
    (hhollow : ∀ e ∈ entries, ∀ cells, e.2 = .member cells none →
      LeftOut ordinal e.1 skip cells → hollow)
    (hfirst : ∀ e ∈ entries.head?, ∀ cells, e.2 = .member cells none →
      ¬ LeftOut ordinal e.1 skip cells) :
    Distributed (Gluable o hollow) (entries.flatMap fun e => e.2.attached)
      (entriesLines o wanted ordinal indent skip inlineFirst keyword entries) := by
  have hbelow (es : List (Nat × Entry)) (hes : ∀ e ∈ es, e ∈ entries) :
      Distributed (Gluable o hollow) (es.flatMap fun e => e.2.attached)
        (es.flatMap (entryLines o wanted ordinal indent skip)) :=
    .flatMap fun e he => distributed_entryLines (hcells e (hes e he)) (hsound e (hes e he))
      (hhollow e (hes e he))
  have hline : keyword.Gluable o hollow [] := .inl (hkeyword.mono False.elim)
  unfold entriesLines
  dsimp only
  split
  next slot cells trailing rest =>
    have hmember := @distributed_memberLines o wanted ordinal False slot skip cells trailing
      (hcells _ (List.mem_cons_self ..)) (hsound _ (List.mem_cons_self ..))
      fun hnone hleft => hfirst _ rfl cells (hnone ▸ rfl) hleft
    have hrest := hbelow rest fun e he => List.mem_cons_of_mem _ he
    rw [List.flatMap_cons]
    split
    next hlines => exact absurd hlines (memberLines_ne_nil o wanted ordinal slot skip cells trailing)
    next first more hlines =>
      rw [hlines] at hmember
      obtain ⟨share, others, hl, hmore, hperm⟩ := hmember.of_cons
      have hboth := hkeyword.absorb hends hl hl.made.full 1
      have hplaced : Distributed (Gluable o hollow) others (more.map (placeMember indent)) :=
        hmore.map fun share l hl => .inl ((growing_placeMember indent hl).mono False.elim)
      refine ((Distributed.cons (.inl (hboth.mono False.elim)) hplaced).append hrest).perm ?_
      exact hperm.append_right _
  next => exact .cons_of_nil hline (hbelow entries fun e he => he)

/-- An entry in its place among the others. -/
theorem exists_split_of_mem_slotted
    {slot n : Nat} {entries : List Entry} {e : Entry} (h : (n, e) ∈ slotted slot entries) :
    ∃ front back, entries = front ++ e :: back ∧ n = slot + (front.flatMap Entry.cells).length := by
  induction entries generalizing slot with
  | nil => simp [slotted] at h
  | cons d rest ih =>
      rw [slotted, List.mem_cons] at h
      rcases h with heq | h
      · obtain ⟨rfl, rfl⟩ := Prod.mk.inj heq
        exact ⟨[], rest, rfl, rfl⟩
      · obtain ⟨front, back, rfl, rfl⟩ := ih h
        refine ⟨d :: front, back, rfl, ?_⟩
        rw [List.flatMap_cons, List.length_append, Nat.add_assoc]

theorem fst_of_mem_head?_slotted
    {slot : Nat} {entries : List Entry} {e : Nat × Entry} (h : e ∈ (slotted slot entries).head?) :
    e.1 = slot := by
  cases entries with
  | nil => simp [slotted] at h
  | cons d rest =>
      rw [slotted, List.head?_cons, Option.mem_some_iff] at h
      rw [← h]

/-- If all of a member is left out, it is the last one, and more than this stands in front of it. -/
theorem LeftOut.leavesHollow
    {s : Statement} {c : Chain} {n : Nat} {cells : List Cell}
    (h : LeftOut ordinal n ((closing? s c).map (·.1)) cells) (hfilled : s.Filled)
    (hbody : s.body = .chain c)
    (hmem : (n, .member cells none) ∈ slotted (c.words.length + 1) c.entries) :
    s.leavesHollow = true ∧ c.words.length + 1 < n := by
  obtain ⟨front, back, hentries, hslot⟩ := exists_split_of_mem_slotted hmem
  have hne : cells ≠ [] := hfilled.members c hbody cells none (by simp [hentries])
  obtain ⟨hskip, cell, rfl⟩ := h.eq_singleton hne
  obtain ⟨period, hclosing, hperiod⟩ := Option.map_eq_some_iff.mp hskip
  obtain ⟨last, final, hlast, hfinal, hisPeriod, -, hk⟩ := closing?_eq_some
    (k := period.1) (t := period.2) hclosing
  have hpost : s.post.isSome = true := by
    cases hpost : s.post with
    | some d => rfl
    | none => simp [closing?, hpost] at hclosing
  have htotal := hfilled.post hpost
  rw [Statement.cells, hbody, Body.cells] at htotal
  have hlength : (c.entries.flatMap Entry.cells).length =
      (front.flatMap Entry.cells).length + 1 + (back.flatMap Entry.cells).length := by
    simp [hentries, Entry.cells]
    omega
  -- Nothing stands behind the member but comments, for they have no tokens.
  have hback : (back.filter fun e => !e.isRemark) = [] := by
    rw [List.filter_eq_nil_iff]
    intro e he hmember
    cases e with
    | remark comment => simp [Entry.isRemark] at hmember
    | member own trailing =>
        have hown := hfilled.members c hbody own trailing (by simp [hentries, he])
        have hpos : 0 < (back.flatMap Entry.cells).length := by
          obtain ⟨d, hd⟩ := List.exists_mem_of_ne_nil own hown
          exact List.length_pos_of_mem (List.mem_flatMap.mpr ⟨_, he, hd⟩)
        omega
  have hmember : (c.entries.filter fun e => !e.isRemark).getLast? = some (.member [cell] none) := by
    rw [hentries, List.filter_append, List.filter_cons_of_pos (by rfl), hback]
    exact List.getLast?_concat ..
  rw [hmember, Option.some.injEq] at hlast
  rw [← hlast, Entry.cells, List.getLast?_singleton, Option.some.injEq] at hfinal
  refine ⟨?_, by omega⟩
  simp only [Statement.leavesHollow, hpost, hbody, hmember, hfinal, hisPeriod, Bool.and_true]

/-! ## Comments behind the lines of a statement -/

theorem distributed_attachToLast
    {comment : Option Comment} {cs : List Comment} {lines : List Line} (hne : lines ≠ [])
    (hcomment : ∀ c, comment = some c → c.IsSigned)
    (hlines : Distributed (Composed o hollow) cs lines) :
    Distributed (Composed o hollow) (cs ++ comment.toList) (attachToLast o comment lines) := by
  cases comment with
  | none => simpa [attachToLast] using hlines
  | some c =>
      have hpos := List.length_pos_iff.mpr hne
      exact hlines.modify (fun share l hl => hl.attachComment (hcomment c rfl)) (by omega)

theorem distributed_attachTrailing
    {comment : Option Comment} {cs : List Comment} {lines : List Line} (hne : lines ≠ [])
    (hcomment : ∀ c, comment = some c → c.IsSigned)
    (hlines : Distributed (Composed o hollow) cs lines) :
    Distributed (Composed o hollow) (cs ++ comment.toList) (attachTrailing o comment lines) := by
  cases comment with
  | none => simpa [attachTrailing] using hlines
  | some c =>
      unfold attachTrailing
      dsimp only
      split
      next i hi =>
        have hindex := (List.findIdx?_eq_some_iff_getElem.mp hi).1
        exact hlines.modify (fun share l hl => hl.attachComment (hcomment c rfl)) hindex
      next => exact distributed_attachToLast hne hcomment hlines

theorem growing_trimRight
    {l : Line} (h : l.Growing o False []) :
    ({ l with text := Text.trimRight l.text } : Line).Growing o False [] where
  made := by
    rcases h.made with ⟨tail, ⟨body, htext, hspread⟩, htrail, hfull⟩ | ⟨hhollow, -⟩
    · cases htrail
      have htrim := hspread.trimRight_append_blanks 0
      exact .inl ⟨[], ⟨body, by simpa [htext] using htrim, hspread⟩, .nil, hfull⟩
    · exact hhollow.elim
  last := h.last
  code := h.code

/-- A plain statement prints the comment behind it on the line where it stands in the source. -/
theorem distributed_plainLines
    {s : Statement} {cells : List Cell} (hne : cells ≠ [])
    (hcells : ∀ cell ∈ cells, IsSolid o cell.token)
    (hbreaks : ∀ cell ∈ cells, cell.token.isComment = true → cell.breakAfter = true)
    (hnote : ∀ c, s.note = some c → c.IsSigned) (hpost : ∀ c, s.post = some c → c.IsSigned) :
    Distributed (Composed o hollow) (s.note.toList ++ s.post.toList)
      (plainLines o wanted ordinal s cells) := by
  obtain ⟨k, hk⟩ := joiner_eq_blanks o
  unfold plainLines
  rw [hk]
  extract_lets indent startColumn lines trimmed glued
  have hlines : ∀ l ∈ lines, l.Growing o False [] :=
    growing_cellLines (by simp) (fun c hc => hcells c.2 (mem_of_mem_addressed hc))
      fun c hc => hbreaks c.2 (mem_of_mem_addressed hc)
  have hlinesNe : lines ≠ [] := by
    obtain ⟨cell, rest, rfl⟩ := List.exists_cons_of_ne_nil hne
    exact cellLines_ne_nil o wanted indent startColumn none none (.inr (by simp [addressed]))
  have hglued : Distributed (Gluable o hollow) [] glued :=
    distributed_glue k _ (.of_forall (List.forall_mem_map.mpr fun l hl =>
      .inl ((growing_trimRight (hlines l hl)).mono False.elim)))
  have hgluedNe : glued ≠ [] := glue_ne_nil _ _ (by simpa [trimmed] using hlinesNe)
  have hnoted := distributed_attachTrailing hgluedNe hnote
    (hglued.imp fun share l hl => hl.composed)
  exact distributed_attachToLast (attachTrailing_ne_nil o _ hgluedNe) hpost hnoted

theorem entriesLines_ne_nil
    (o : Options) (wanted : WantedBlanks) (ordinal indent : Nat) (skip : Option Nat)
    (inlineFirst : Bool) (keyword : Line) (entries : List (Nat × Entry)) :
    entriesLines o wanted ordinal indent skip inlineFirst keyword entries ≠ [] := by
  unfold entriesLines
  dsimp only
  repeat' split
  all_goals simp

/-- A chain prints the comments of its entries where they stand, and those of the statement behind
its last line. -/
theorem distributed_chainLines
    {s : Statement} {c : Chain} (hsound : s.Sound) (hfilled : s.Filled) (hbody : s.body = .chain c)
    (hsolid : ∀ row ∈ s.rows, ∀ t ∈ row, IsSolid o t) (hhollow : s.leavesHollow = true → hollow) :
    Distributed (Composed o hollow) s.attached (chainLines o wanted ordinal s c) := by
  obtain ⟨k, hk⟩ := joiner_eq_blanks o
  rw [Statement.rows, hbody] at hsolid
  have hcells : ∀ e ∈ c.entries, ∀ cell ∈ e.cells, IsSolid o cell.token := by
    intro e he cell hcell
    obtain ⟨row, hrow, hmem⟩ := mem_rows_of_mem_cells he hcell
    exact hsolid row hrow _ hmem
  have hnote : ∀ d, s.note = some d → d.IsSigned :=
    fun d hd => hsound.isSigned_note (by simp [hbody]) hd
  -- All of a member is left out only if the statement leaves a line blank, and never in front.
  have hleft : ∀ e ∈ slotted (c.words.length + 1) c.entries, ∀ cells, e.2 = .member cells none →
      LeftOut ordinal e.1 ((closing? s c).map (·.1)) cells →
      s.leavesHollow = true ∧ c.words.length + 1 < e.1 := by
    intro e he cells hmember hnil
    rw [← Prod.eta e, hmember] at he
    exact hnil.leavesHollow hfilled hbody he
  unfold chainLines
  rw [hk]
  extract_lets indent keyword inlineFirst memberIndent closing entries skip lines period glued own
  have hkeyword : keyword.Growing o False [] ∧ keyword.endsInComment = false :=
    growing_keywordLine (hsolid c.words (by simp [Body.rows])) (hsound.words c hbody)
      (by simp [Token.isComment, hsound.colon c hbody])
  have hfirst : ∀ e ∈ entries.head?, ∀ cells, e.2 = .member cells none →
      ¬ LeftOut ordinal e.1 skip cells := by
    intro e he cells hmember hnil
    have hafter := (hleft e (List.mem_of_mem_head? he) cells hmember hnil).2
    rw [fst_of_mem_head?_slotted he] at hafter
    omega
  have hlines : Distributed (Gluable o hollow) (c.entries.flatMap Entry.attached) lines := by
    rw [← map_snd_slotted (c.words.length + 1) c.entries, List.flatMap_map]
    exact distributed_entriesLines hkeyword.1 hkeyword.2
      (fun e he => hcells e.2 (mem_of_mem_slotted he))
      (fun e he => hsound.entries c hbody e.2 (mem_of_mem_slotted he))
      (fun e he cells hmember hnil => hhollow (hleft e he cells hmember hnil).1) hfirst
  have hperiod : Distributed (Gluable o hollow) [] period := by
    refine .of_forall (List.forall_mem_map.mpr fun p hp => ?_)
    obtain ⟨e, he, cell, hcell, htoken⟩ := mem_cells_of_closing? (k := p.1) (t := p.2)
      (Option.mem_toList.mp hp)
    exact .inl (growing_put Open.empty (by simp) _ _ _ (htoken ▸ hcells e he cell hcell none none))
  have hglued : Distributed (Composed o hollow) (c.entries.flatMap Entry.attached) glued := by
    have hall := distributed_glue k closing.isSome (hlines.append hperiod)
    rw [List.append_nil] at hall
    exact hall.imp fun share l hl => hl.composed
  have hgluedNe : glued ≠ [] :=
    glue_ne_nil _ _ (List.append_ne_nil_of_left_ne_nil
      (entriesLines_ne_nil o wanted ordinal memberIndent skip inlineFirst keyword entries) _)
  have hown : ∀ d, own = some d → d.IsSigned := by
    intro d hd
    simp only [own] at hd
    split at hd
    · simp at hd
    · exact hnote d hd
  have hattached : s.attached =
      c.entries.flatMap Entry.attached ++ own.toList ++ s.post.toList := by
    rw [Statement.attached, hbody]
    rfl
  rw [hattached]
  exact distributed_attachToLast (attachToLast_ne_nil o _ hgluedNe) hsound.post
    (distributed_attachToLast hgluedNe hown hglued)

/-! ## Documents -/

/-- The lines of a statement share out its comments, each once. -/
theorem distributed_statementLines
    {s : Statement} (hsound : s.Sound) (hfilled : s.Filled)
    (hsolid : ∀ row ∈ s.rows, ∀ t ∈ row, IsSolid o t) (hhollow : s.leavesHollow = true → hollow) :
    Distributed (Composed o hollow) s.attached (statementLines o wanted ordinal s) := by
  cases hbody : s.body with
  | chain c =>
      rw [statementLines_chain hbody]
      exact distributed_chainLines hsound hfilled hbody hsolid hhollow
  | plain cells =>
      have hattached : s.attached = s.note.toList ++ s.post.toList := by
        simp [Statement.attached, hbody, Body.attached]
      rw [hattached]
      cases cells with
      | nil =>
          have hpost : s.post = none := by
            cases hpost : s.post with
            | none => rfl
            | some c =>
                have hcells := hfilled.post (by simp [hpost])
                simp [Statement.cells, hbody, Body.cells] at hcells
          rw [statementLines_comment hbody, hpost]
          cases hnote : s.note with
          | none => exact .nil
          | some c =>
              have hmarked := hsound.isMarked_note hnote
              refine .singleton ?_
              let l : Line := { text := CommentText.standing o (baseIndent o s) c.value }
              rcases composed_standing (l := l) hmarked rfl rfl with hholds | halone
              · exact .inl ⟨hholds.made.mono False.elim, hholds.last⟩
              · exact .inr halone
      | cons cell cells =>
          rw [statementLines_plain hbody]
          rw [Statement.rows, hbody, Body.rows] at hsolid
          refine distributed_plainLines (by simp) ?_ (hsound.breaks _ hbody) ?_ hsound.post
          · intro d hd
            exact hsolid _ (by simp) d.token (List.mem_map_of_mem hd)
          · exact fun d hd => hsound.isSigned_note (by simp [hbody]) hd

/-- A line of a document: a blank one between statements, or one that is made of its tokens and some
comments. -/
def Printed (o : Options) (hollow : Prop) (cs : List Comment) (l : Line) : Prop :=
  l = {} ∧ cs = [] ∨ l.Composed o hollow cs

theorem distributed_linesFrom
    {previous : Option Statement} {statements : List Statement}
    (hsound : ∀ s ∈ statements, s.Sound) (hfilled : ∀ s ∈ statements, s.Filled)
    (hsolid : ∀ s ∈ statements, ∀ row ∈ s.rows, ∀ t ∈ row, IsSolid o t)
    (hhollow : ∀ s ∈ statements, s.leavesHollow = true → hollow) :
    Distributed (Printed o hollow) (statements.flatMap Statement.attached)
      (linesFrom o wanted ordinal previous statements) := by
  induction statements generalizing ordinal previous with
  | nil => exact .nil
  | cons s rest ih =>
      have hs := @distributed_statementLines o wanted ordinal hollow s (hsound s (by simp))
        (hfilled s (by simp)) (hsolid s (by simp)) (hhollow s (by simp))
      have hrest := fun ordinal previous => @ih ordinal previous
        (fun t ht => hsound t (by simp [ht])) (fun t ht => hfilled t (by simp [ht]))
        (fun t ht => hsolid t (by simp [ht])) (fun t ht => hhollow t (by simp [ht]))
      rw [linesFrom_cons]
      have hblank (n : Nat) : Distributed (Printed o hollow) [] (List.replicate n {}) :=
        .of_forall fun l hl => .inl ⟨(List.mem_replicate.mp hl).2, rfl⟩
      exact (hblank _).append ((hs.imp fun share l hl => .inr hl).append (hrest _ _))

/-- The lines of a document share out the comments of its statements, each once. -/
theorem distributed_render
    {statements : List Statement} (hsound : ∀ s ∈ statements, s.Sound)
    (hfilled : ∀ s ∈ statements, s.Filled)
    (hsolid : ∀ s ∈ statements, ∀ row ∈ s.rows, ∀ t ∈ row, IsSolid o t) :
    Distributed (Printed o (∃ s ∈ statements, s.leavesHollow = true))
      (statements.flatMap Statement.attached) (render o wanted statements) :=
  distributed_linesFrom hsound hfilled hsolid fun s hs hleaves => ⟨s, hs, hleaves⟩

end Rendering

/-! ## Arranged statements -/

/-- Cells dealt out to as many places are all cells. -/
theorem Entry.flatMap_cells_deal
    {cells : List Cell} {entries : List Entry}
    (h : cells.length = (entries.flatMap Entry.cells).length) :
    (Entry.deal cells entries).flatMap Entry.cells = cells := by
  induction entries generalizing cells with
  | nil => simpa [Entry.deal, eq_comm] using h
  | cons e rest ih =>
      rw [List.flatMap_cons, List.length_append] at h
      cases e with
      | remark comment => exact ih (by simpa [Entry.cells] using h)
      | member own trailing =>
          have hrest : (cells.drop own.length).length = (rest.flatMap Entry.cells).length := by
            rw [List.length_drop, h]
            simp [Entry.cells]
          rw [Entry.deal, List.flatMap_cons, ih hrest, Entry.cells, List.take_append_drop]

theorem Body.cells_withCells
    {b : Body} {cells : List Cell} (h : cells.length = b.cells.length) :
    (b.withCells cells).cells = cells := by
  cases b with
  | plain own => rfl
  | chain c => exact Entry.flatMap_cells_deal h

@[simp] theorem Statement.cells_setTrailing (s : Statement) (comment : Option Comment) :
    (s.setTrailing comment).cells = s.cells := by
  unfold setTrailing
  split
  next hbody => simp [cells, hbody]
  next c hbody =>
    split
    next own trailing hlast =>
      obtain ⟨init, hinit⟩ := List.getLast?_eq_some_iff.mp hlast
      simp [cells, hbody, Body.cells, hinit, Entry.cells]
    next => simp [cells, hbody]

namespace Bracket

theorem length_sweep (cells : List Cell) : (sweep cells).length = cells.length := by
  simpa using congrArg List.length (map_token_sweep cells)

theorem length_breakBeforePeriod (cells : List Cell) :
    (breakBeforePeriod cells).length = cells.length := by
  simpa using congrArg List.length (map_token_breakBeforePeriod cells)

theorem cells_sweepStatement (s : Statement) : (sweepStatement s).cells = sweep s.cells :=
  Body.cells_withCells (length_sweep s.cells)

theorem cells_forcePeriodLine (s : Statement) :
    (forcePeriodLine s).cells = (breakBeforePeriod s.cells.reverse).reverse :=
  Body.cells_withCells (by
    rw [List.length_reverse, length_breakBeforePeriod, List.length_reverse, Statement.cells])

/-- Where a bracket moves up, there is a token in front of it. -/
theorem two_le_length_of_moves {cells : List Cell} (h : moves cells = true) : 2 ≤ cells.length := by
  match cells with
  | [] => simp [moves] at h
  | [c] => simp [moves, movesFrom] at h
  | c :: next :: rest => simp

/-- A comment is printed behind a period on a line of its own only if a bracket has moved up. -/
theorem two_le_length_of_post
    {statements : List Statement} (hpost : ∀ s ∈ statements, s.post = none) :
    ∀ s ∈ reposition statements, s.post.isSome = true → 2 ≤ s.cells.length := by
  refine forall_reposition
    (P := fun s => s.post = none ∧ (s.touched = true → 2 ≤ s.cells.length)) ?_ ?_ ?_ ?_
  · intro s hs
    refine ⟨hpost s hs, fun htouched => ?_⟩
    rw [cells_sweepStatement, length_sweep]
    exact two_le_length_of_moves htouched
  · intro s hs
    rwa [s.post_setTrailing, s.touched_setTrailing, s.cells_setTrailing]
  · intro s next c hs hnext hincoming hreceived
    have htwo := hs.2 (touched_of_incoming? hincoming).1
    unfold receive at hreceived ⊢
    dsimp only at hreceived ⊢
    split
    next hpseudo =>
      rw [cells_forcePeriodLine, List.length_reverse, length_breakBeforePeriod,
        List.length_reverse]
      exact htwo
    next => simpa using htwo
  · intro s hs hsome
    simp [hs.1] at hsome

end Bracket

namespace Assembly

/-- No row of a statement is empty. -/
theorem rows_ne_nil_of_assemble
    {raws : List RawStatement} {statements : List Statement} (hgrouped : Grouped none raws)
    (h : assemble raws = .ok statements) :
    ∀ s ∈ statements, ∀ row ∈ s.rows, row ≠ [] := by
  refine forall_assemble hgrouped ?_ ?_ ?_ ?_ h
  · intro index shared colon first rest s hopening hall hs
    unfold ofChain at hs
    rw [hopening] at hs
    dsimp only at hs
    split at hs
    · simp at hs
    next keyword others hwords =>
      obtain ⟨draft, hdraft, rfl⟩ := map_eq_ok_iff.mp hs
      have hrows := Draft.rows_of_members hopening (fun r hr => (hall r hr).2) hdraft
      intro row hrow
      simp only [Statement.rows, Body.rows, List.mem_cons] at hrow
      rcases hrow with rfl | rfl | hrow
      · simp [Chain.words]
      · simp
      · have hmem : row ∈ memberRows (first :: rest) :=
          hrows ▸ ((perm_sortEntries draft.entries).filterMap _).mem_iff.mp hrow
        obtain ⟨r, hr, rfl⟩ := List.mem_map.mp hmem
        obtain ⟨hr, hcolon⟩ := List.mem_filter.mp hr
        exact ((hall r hr).2.member hcolon).2
  · intro index body pragmas hends hmem row hrow
    rw [rows_ofSingle index pragmas hends, List.mem_singleton] at hrow
    obtain ⟨init, last, rfl, hrole, -⟩ := hends
    rw [hrow, RawStatement.row_ofTokens _ init pragmas hrole]
    simp
  · intro index t inline ht hmem row hrow
    simp [ofComment, Statement.rows, Body.rows] at hrow
  · intro s t inline hs hsign hmem
    rwa [s.rows_setTrailing]

end Assembly

theorem Layout.filled_arrange
    {raws : List RawStatement} {statements : List Statement} (hgrouped : Grouped none raws)
    (h : arrange raws = .ok statements) :
    ∀ s ∈ statements, s.Filled := by
  obtain ⟨assembled, hassembled, rfl⟩ := map_eq_ok_iff.mp h
  have hrows : ∀ s ∈ Bracket.reposition (assignLevels (levels raws) assembled),
      ∀ row ∈ s.rows, row ≠ [] := by
    intro s hs
    have hmem := List.mem_map_of_mem (f := Statement.rows) hs
    rw [Bracket.map_reposition Bracket.rows_sweepStatement Bracket.rows_receive
      Statement.rows_setTrailing] at hmem
    obtain ⟨placed, hplaced, heq⟩ := List.mem_map.mp hmem
    obtain ⟨t, ht, rfl⟩ := List.mem_map.mp hplaced
    rw [← heq]
    exact Assembly.rows_ne_nil_of_assemble hgrouped hassembled t ht
  have hplaced : ∀ s ∈ assignLevels (levels raws) assembled, s.post = none :=
    List.forall_mem_map.mpr fun s hs => Assembly.post_assemble hgrouped hassembled s hs
  have hpost := Bracket.two_le_length_of_post hplaced
  intro s hs
  refine ⟨fun c hbody cells trailing hmem hnil => ?_, hpost s hs⟩
  refine hrows s hs [] ?_ rfl
  rw [Statement.rows, hbody, Body.rows]
  exact List.mem_cons_of_mem _ (List.mem_cons_of_mem _
    (List.mem_filterMap.mpr ⟨_, hmem, by simp [hnil]⟩))

/-- The lines that are printed for a source share out the comments of its statements, each once. -/
theorem Layout.distributed_render
    {source : Text} {filename : Option String} {raws : List RawStatement}
    {statements : List Statement} (hsplit : Source.split source filename = .ok raws)
    (harrange : arrange raws = .ok statements) (o : Options) (wanted : WantedBlanks) :
    Distributed (Rendering.Printed o (∃ s ∈ statements, s.leavesHollow = true))
      (statements.flatMap Statement.attached) (Rendering.render o wanted statements) := by
  obtain ⟨hgrouped, hsound, hlexed⟩ := sound_of_split hsplit harrange
  exact Rendering.distributed_render hsound (filled_arrange hgrouped harrange)
    (isSolid_rows hlexed o)

end AbapLayout
