import AbapLayout.Proofs.StatementRows
import AbapLayout.Proofs.UnitText

/-!
# What the layout relies on in statements

`Statement.Sound` collects it: the colon of a chain is one, the comments that are kept apart have
their sign, and in a plain statement the line ends after every comment that stays among the tokens.
The statements put together from a source are sound (`sound_assemble`), and moving brackets up keeps
them so (`sound_reposition`).
-/

namespace AbapLayout

/-- An entry of a chain whose comments have their sign. -/
def Entry.Sound : Entry → Prop
  | .member _ trailing => ∀ c, trailing = some c → c.IsSigned
  | .remark comment => comment.IsMarked

/-- What the layout relies on in a statement. -/
structure Statement.Sound (s : Statement) : Prop where
  colon : ∀ c, s.body = .chain c → c.colon.role = .colon
  words : ∀ c, s.body = .chain c → ∀ t ∈ c.words, t.isComment = false
  entries : ∀ c, s.body = .chain c → ∀ e ∈ c.entries, e.Sound
  note : ∀ c, s.note = some c → c.IsSigned ∨ s.body = .plain [] ∧ c.IsMarked
  post : ∀ c, s.post = some c → c.IsSigned
  breaks : ∀ cells, s.body = .plain cells →
    ∀ cell ∈ cells, cell.token.isComment = true → cell.breakAfter = true

/-- What statements rely on in a raw statement. -/
structure RawStatement.Sound (r : RawStatement) : Prop where
  lexed : ∀ t ∈ r.body, t.Lexed
  ordered : r.body.Pairwise Token.ComesBefore
  colon : ∀ colon, r.colon? = some colon → colon.role = .colon
  pragmas : ∀ t ∈ r.pragmas, t.isPragma = true

/-- The tokens of a raw statement behind its opening come from the source in their order. -/
theorem body_sublist_of_statements
    {ts : List Token} {raws : List RawStatement}
    (hlexed : ∀ t ∈ ts, t.Lexed) (h : ({} : Unfinished).statements ts = .ok raws) :
    ∀ r ∈ raws, r.body.Sublist ts := by
  intro r hr
  have hdraws := (Unfinished.run_of_statements hlexed h).draws r hr
  refine List.Sublist.trans ?_ (List.filter_sublist (p := fun t => !t.isPragma))
  simpa using hdraws.body

/-- The raw statements of a source are sound. -/
theorem sound_of_statements
    {ts : List Token} {raws : List RawStatement}
    (hlexed : ∀ t ∈ ts, t.Lexed) (hordered : ts.Pairwise Token.ComesBefore)
    (h : ({} : Unfinished).statements ts = .ok raws) :
    ∀ r ∈ raws, r.Sound := by
  intro r hr
  have hrun := Unfinished.run_of_statements hlexed h
  have hbody := body_sublist_of_statements hlexed h r hr
  exact
    { lexed := fun t ht => hlexed t (hbody.subset ht)
      ordered := hordered.sublist hbody
      colon := hrun.role_colon (by simp [Unfinished.opening, Opening.colon?]) r hr
      pragmas := by
        intro t ht
        have hmem : t ∈ ts.filter Token.isPragma := by simpa using (hrun.draws r hr).pragmas ht
        exact (List.mem_filter.mp hmem).2 }

/-! ## Comments -/

theorem Token.text_of_isSignComment
    {t : Token} (h : t.isSignComment = true) :
    ∃ text, t.text = Comment.sign :: text := by
  rw [Token.isSignComment, Bool.and_eq_true, beq_iff_eq] at h
  exact List.head?_eq_some_iff.mp h.2

/-- A comment token begins with one of the two signs. -/
theorem Token.Lexed.text_of_isComment
    {t : Token} (h : t.Lexed) (hcomment : t.isComment = true) :
    (∃ text, t.text = Comment.sign :: text) ∨ ∃ text, t.text = '*' :: text := by
  rcases h.unit with ⟨c, cs, rest, htext, -, hmeasure⟩ | ⟨hstar, -⟩
  · have hrole : t.role = .comment := by simpa [Token.isComment] using hcomment
    rw [hrole] at hmeasure
    exact .inl ⟨cs, by rw [htext, (Lexeme.measure_comment hmeasure).1]; rfl⟩
  · rw [Token.isStarComment, Bool.and_eq_true, beq_iff_eq] at hstar
    exact .inr (List.head?_eq_some_iff.mp hstar.2)

theorem Comment.isMarked_of_token
    {t : Token} (h : t.Lexed) (hcomment : t.isComment = true) (inline : Bool) :
    Comment.IsMarked { value := t.text, inline, span := t.span } := by
  have hline := h.oneLine
  rcases h.text_of_isComment hcomment with ⟨text, htext⟩ | ⟨text, htext⟩ <;>
    rw [htext, Text.oneLine_cons] at hline
  · exact .inl ⟨text, hline.2, htext⟩
  · exact .inr ⟨text, hline.2, htext⟩

theorem Comment.isSigned_of_token
    {t : Token} (h : t.Lexed) (hsign : t.isSignComment = true) (inline : Bool) :
    Comment.IsSigned { value := t.text, inline, span := t.span } := by
  obtain ⟨text, htext⟩ := t.text_of_isSignComment hsign
  have hline := h.oneLine
  rw [htext, Text.oneLine_cons] at hline
  exact ⟨text, hline.2, htext⟩

theorem Comment.IsSigned.isStarText {c : Comment} (h : c.IsSigned) :
    Comment.isStarText c.value = false := by
  obtain ⟨text, -, hvalue⟩ := h
  rw [hvalue]
  rfl

/-- A comment with a sign stands on one line. -/
theorem Comment.IsMarked.oneLine
    {c : Comment} (h : c.IsMarked) :
    c.value.OneLine := by
  rcases h with ⟨text, htext, hvalue⟩ | ⟨text, htext, hvalue⟩ <;> rw [hvalue]
  · exact Text.oneLine_cons.mpr ⟨by decide, htext⟩
  · exact Text.oneLine_cons.mpr ⟨by decide, htext⟩

/-- The text of a comment without its sign stands on one line. -/
theorem Comment.IsMarked.oneLine_body
    {c : Comment} (h : c.IsMarked) :
    c.body.OneLine := by
  have htrim : ∀ t : Text, t.OneLine → (Text.trim t).OneLine := fun t ht =>
    (ht.subset fun c hc => (List.dropWhile_sublist _).subset hc).trimRight
  unfold Comment.body
  split
  · exact Text.OneLine.nil
  next first rest heq =>
    have hall := htrim _ h.oneLine
    rw [heq] at hall
    split
    · exact htrim rest (Text.oneLine_cons.mp hall).2
    · exact htrim _ hall

namespace Assembly

theorem isSignComment_of_takeSignComment
    {ts : List Token} {t : Token} (h : (takeSignComment ts).1 = some t) :
    t ∈ ts ∧ t.isSignComment = true := by
  induction ts with
  | nil => simp [takeSignComment] at h
  | cons u us ih =>
      rw [takeSignComment] at h
      split at h
      next hsign =>
        injection h with h
        exact ⟨by simp [h], h ▸ hsign⟩
      next => exact ⟨List.mem_cons_of_mem u (ih h).1, (ih h).2⟩

/-- The comment taken out of a statement or member has its sign. -/
theorem isSigned_of_finish
    {tokens pragmas : List Token} {c : Comment} (hlexed : ∀ t ∈ tokens, t.Lexed)
    (h : (finish tokens pragmas).2 = some c) :
    c.IsSigned := by
  obtain ⟨t, ht, rfl⟩ := Option.map_eq_some_iff.mp h
  obtain ⟨hmem, hsign⟩ := isSignComment_of_takeSignComment ht
  exact Comment.isSigned_of_token (hlexed t hmem) hsign true

/-! ## Lines end after comments -/

/-- The line ends after every comment but the last token. -/
theorem breakAfter_link
    {ts : List Token} (h : ts.Pairwise Token.ComesBefore) :
    ∀ cell ∈ (link ts).dropLast, cell.token.isComment = true → cell.breakAfter = true := by
  fun_induction link ts with
  | case1 => simp
  | case2 t => simp
  | case3 t u rest ih =>
      obtain ⟨hfirst, hrest⟩ := List.pairwise_cons.mp h
      have hne : link (u :: rest) ≠ [] := by
        intro hnil
        have := congrArg (List.map Cell.token) hnil
        rw [map_token_link] at this
        simp at this
      intro cell hcell hcomment
      rw [List.dropLast_cons_of_ne_nil hne, List.mem_cons] at hcell
      rcases hcell with rfl | hcell
      · have := (hfirst u (by simp)).2 hcomment
        simpa using this
      · exact ih hrest cell hcell hcomment

theorem mem_of_mem_placePragmas
    {pragmas : List Token} {cells : List Cell} {cell : Cell}
    (h : cell ∈ placePragmas pragmas cells) :
    cell ∈ cells ∨ cell.token ∈ pragmas := by
  have hextra : cell ∈ pragmas.map (fun t => ({ token := t } : Cell)) → cell.token ∈ pragmas := by
    intro hcell
    obtain ⟨t, ht, rfl⟩ := List.mem_map.mp hcell
    exact ht
  unfold placePragmas at h
  dsimp only at h
  split at h
  next last hlast =>
    split at h
    · simp only [List.mem_append, List.mem_singleton] at h
      rcases h with (h | h) | rfl
      · exact .inl (List.dropLast_subset _ h)
      · exact .inr (hextra h)
      · exact .inl (List.mem_of_getLast? hlast)
    · rcases List.mem_append.mp h with h | h
      · exact .inl h
      · exact .inr (hextra h)
  next => exact .inr (hextra h)

/-- In a finished statement the line ends after every comment. -/
theorem breakAfter_finish
    {sign : Char} {body pragmas : List Token} (hends : EndsIn sign body)
    (hordered : body.Pairwise Token.ComesBefore) (hpragmas : ∀ t ∈ pragmas, t.isPragma = true) :
    ∀ cell ∈ (finish body pragmas).1, cell.token.isComment = true → cell.breakAfter = true := by
  obtain ⟨init, last, rfl, hrole, -⟩ := hends
  have hlast := Token.isComment_eq_false_of_punctuation hrole
  have hsub := (takeSignComment_sublist (init ++ [last]))
  have hlink := breakAfter_link (hordered.sublist hsub)
  have htokens := map_token_link (takeSignComment (init ++ [last])).2
  rw [takeSignComment_append_singleton init hlast] at htokens hlink
  obtain ⟨front, back, hsplit, -, hback⟩ := List.map_eq_append_iff.mp htokens
  obtain ⟨final, rfl, hfinal⟩ := List.map_eq_singleton_iff.mp hback
  rw [hsplit, List.dropLast_concat] at hlink
  intro cell hcell hcomment
  rw [finish] at hcell
  dsimp only at hcell
  rw [takeSignComment_append_singleton init hlast, hsplit] at hcell
  rcases mem_of_mem_placePragmas hcell with hmem | hmem
  · rw [List.mem_append, List.mem_singleton] at hmem
    rcases hmem with hmem | rfl
    · exact hlink cell hmem hcomment
    · rw [hfinal, hlast] at hcomment
      simp at hcomment
  · have := Unfinished.isPragma_eq_false_of_isComment hcomment
    rw [hpragmas _ hmem] at this
    simp at this

/-! ## Statements put together -/

theorem InChain.isComment_of_none
    {shared : List Token} {colon : Token} {r : RawStatement}
    (h : InChain shared colon r) (hnone : r.opening = .none) :
    ∃ t, t.isComment = true ∧ r = RawStatement.ofComment t := by
  rcases h with h | ⟨sign, body, pragmas, -, -, rfl⟩
  · exact h
  · simp [RawStatement.ofTokens] at hnone

theorem sound_start
    {before : List Entry} {r : RawStatement} (hr : r.Sound) (h : ∀ e ∈ before, e.Sound) :
    ∀ e ∈ (Draft.start before r).entries, e.Sound := by
  intro e he
  simp only [Draft.entries, Draft.start, List.mem_append, List.mem_singleton] at he
  rcases he with he | rfl
  · exact h e he
  · exact fun c hc => isSigned_of_finish hr.lexed hc

theorem sound_addComment
    {d : Draft} {t : Token} (ht : t.Lexed) (hcomment : t.isComment = true)
    (h : ∀ e ∈ d.entries, e.Sound) :
    ∀ e ∈ (d.addComment t).entries, e.Sound := by
  have hbefore : ∀ e ∈ d.before, e.Sound := fun e he => h e (by simp [Draft.entries, he])
  have hmember : (Entry.member d.cells d.trailing).Sound := h _ (by simp [Draft.entries])
  have hremarks : ∀ e ∈ d.remarks, e.Sound := fun e he => h e (by simp [Draft.entries, he])
  intro e he
  unfold Draft.addComment at he
  dsimp only at he
  split at he
  next hplace =>
    simp only [Draft.entries, List.mem_append, List.mem_cons] at he
    rcases he with he | rfl | he
    · exact hbefore e he
    · intro c hc
      injection hc with hc
      exact hc ▸ Comment.isSigned_of_token ht hplace.2.1 _
    · exact hremarks e he
  next =>
    simp only [Draft.entries, List.mem_append, List.mem_cons, List.not_mem_nil, or_false] at he
    rcases he with he | rfl | he | rfl
    · exact hbefore e he
    · exact hmember
    · exact hremarks e he
    · exact Comment.isMarked_of_token ht hcomment _

/-- Adding members and comments keeps the entries of a draft sound. -/
theorem sound_addAll
    {shared : List Token} {colon : Token} {d d' : Draft} {raws : List RawStatement}
    (hall : ∀ r ∈ raws, InChain shared colon r) (hsound : ∀ r ∈ raws, r.Sound)
    (hd : ∀ e ∈ d.entries, e.Sound) (h : d.addAll raws = .ok d') :
    ∀ e ∈ d'.entries, e.Sound := by
  induction raws generalizing d with
  | nil =>
      injection h with h
      exact h ▸ hd
  | cons r rest ih =>
      rw [Draft.addAll] at h
      split at h
      · simp at h
      next next hadd =>
        refine ih (fun s hs => hall s (by simp [hs])) (fun s hs => hsound s (by simp [hs])) ?_ h
        unfold Draft.add at hadd
        split at hadd
        · simp at hadd
        · injection hadd with hadd
          exact hadd ▸ sound_start (hsound r (by simp)) hd
        next hnone =>
          obtain ⟨t, ht, rfl⟩ := (hall r (by simp)).isComment_of_none hnone
          have hlexed : t.Lexed :=
            (hsound (RawStatement.ofComment t) (by simp)).lexed t (by simp [RawStatement.ofComment])
          injection hadd with hadd
          exact hadd ▸ sound_addComment hlexed ht hd

theorem sound_ofChain
    {index : Nat} {shared : List Token} {colon : Token} {first : RawStatement}
    {rest : List RawStatement} {s : Statement}
    (hopening : first.opening = .shared shared colon)
    (hall : ∀ r ∈ first :: rest, InChain shared colon r)
    (hsound : ∀ r ∈ first :: rest, r.Sound) (h : ofChain index first rest = .ok s) :
    s.Sound := by
  have hcolon : colon.role = .colon :=
    (hsound first (by simp)).colon colon (by simp [RawStatement.colon?, hopening, Opening.colon?])
  unfold ofChain at h
  rw [hopening] at h
  dsimp only at h
  split at h
  · simp at h
  next keyword others hwords =>
    obtain ⟨draft, hdraft, rfl⟩ := map_eq_ok_iff.mp h
    have hentries := sound_addAll (fun r hr => hall r (by simp [hr]))
      (fun r hr => hsound r (by simp [hr])) (sound_start (hsound first (by simp)) (by simp)) hdraft
    constructor
    · intro c hc
      injection hc with hc
      exact hc ▸ hcolon
    · intro c hc t ht
      injection hc with hc
      rw [← hc, Chain.words, ← hwords, List.mem_filter] at ht
      simpa using ht.2
    · intro c hc e he
      injection hc with hc
      rw [← hc] at he
      exact hentries e ((perm_sortEntries _).mem_iff.mp he)
    · intro c hc
      simp at hc
    · intro c hc
      simp at hc
    · intro cells hcells
      simp at hcells

theorem sound_ofSingle
    (index : Nat) {r : RawStatement} {sign : Char} (hends : EndsIn sign r.body) (h : r.Sound) :
    (ofSingle index r).Sound where
  colon := by simp [ofSingle]
  words := by simp [ofSingle]
  entries := by simp [ofSingle]
  note := by
    intro c hc
    exact .inl (@isSigned_of_finish r.body r.pragmas c h.lexed hc)
  post := by simp [ofSingle]
  breaks := by
    intro cells hcells
    injection hcells with hcells
    rw [← hcells]
    exact breakAfter_finish hends h.ordered h.pragmas

theorem sound_ofComment
    (index : Nat) (r : RawStatement) {c : Comment} (h : c.IsMarked) :
    (ofComment index r c).Sound where
  colon := by simp [ofComment]
  words := by simp [ofComment]
  entries := by simp [ofComment]
  note := by
    intro d hd
    injection hd with hd
    exact .inr ⟨rfl, hd ▸ h⟩
  post := by simp [ofComment]
  breaks := by
    intro cells hcells
    injection hcells with hcells
    simp [← hcells]

end Assembly

/-- The comment noted with a statement that has tokens has the sign of comments behind code. -/
theorem Statement.Sound.isSigned_note
    {s : Statement} (h : s.Sound) (hbody : s.body ≠ .plain []) {c : Comment}
    (hc : s.note = some c) : c.IsSigned :=
  (h.note c hc).resolve_right fun halone => hbody halone.1

/-- The comment noted with a statement has a sign. -/
theorem Statement.Sound.isMarked_note
    {s : Statement} (h : s.Sound) {c : Comment} (hc : s.note = some c) : c.IsMarked :=
  (h.note c hc).elim .inl And.right

/-- A sound statement stays so with another sign comment behind it, or with none. -/
theorem Statement.Sound.setTrailing
    {s : Statement} (h : s.Sound) {comment : Option Comment}
    (hcomment : ∀ c, comment = some c → c.IsSigned) :
    (s.setTrailing comment).Sound := by
  unfold Statement.setTrailing
  split
  next cells hbody =>
    exact
      { colon := h.colon
        words := h.words
        entries := h.entries
        note := fun c hc => .inl (hcomment c hc)
        post := h.post
        breaks := h.breaks }
  next c hbody =>
    split
    next cells trailing hlast =>
      obtain ⟨init, hinit⟩ := List.getLast?_eq_some_iff.mp hlast
      constructor
      · intro d hd
        injection hd with hd
        exact hd ▸ h.colon c hbody
      · intro d hd
        injection hd with hd
        exact hd ▸ h.words c hbody
      · intro d hd e he
        injection hd with hd
        subst hd
        simp only [hinit, List.dropLast_concat, List.mem_append, List.mem_singleton] at he
        rcases he with he | rfl
        · exact h.entries c hbody e (by simp [hinit, he])
        · exact hcomment
      · exact fun d hd => .inl (h.isSigned_note (by simp [hbody]) hd)
      · exact h.post
      · intro cells hcells
        simp at hcells
    next =>
      exact
        { colon := h.colon
          words := h.words
          entries := h.entries
          note := fun c hc => .inl (hcomment c hc)
          post := h.post
          breaks := h.breaks }

/-- The comment behind a sound statement has the sign of comments behind code, unless the statement
is nothing but this comment. -/
theorem Statement.Sound.isSigned_or_alone
    {s : Statement} (h : s.Sound) {c : Comment} (hc : s.trailing? = some c) :
    c.IsSigned ∨ s.body = .plain [] ∧ c.IsMarked := by
  unfold Statement.trailing? at hc
  split at hc
  · exact h.note c hc
  next chain hbody =>
    split at hc
    next cells trailing hlast =>
      exact .inl (h.entries chain hbody _ (List.mem_of_getLast? hlast) c hc)
    next => exact h.note c hc

/-- The comment behind a sound statement has a sign. -/
theorem Statement.Sound.isMarked_of_trailing
    {s : Statement} (h : s.Sound) {c : Comment} (hc : s.trailing? = some c) :
    c.IsMarked := by
  rcases h.isSigned_or_alone hc with hsigned | ⟨-, hmarked⟩
  · exact .inl hsigned
  · exact hmarked

namespace Assembly

/-- What holds of chains, of statements up to a period and of comments that stand alone, and still
holds when a comment is put behind them, holds of all statements that are put together. -/
theorem forall_assemble
    {P : Statement → Prop} {raws : List RawStatement} {statements : List Statement}
    (hgrouped : Grouped none raws)
    (hchain : ∀ index shared colon first rest s, first.opening = .shared shared colon →
      (∀ r ∈ first :: rest, r ∈ raws ∧ InChain shared colon r) →
      ofChain index first rest = .ok s → P s)
    (hsingle : ∀ index body pragmas, EndsIn '.' body →
      RawStatement.ofTokens .none body pragmas ∈ raws →
      P (ofSingle index (RawStatement.ofTokens .none body pragmas)))
    (hcomment : ∀ index t inline, t.isComment = true → RawStatement.ofComment t ∈ raws →
      P (ofComment index (RawStatement.ofComment t) { value := t.text, inline, span := t.span }))
    (htrailing : ∀ s t inline, P s → t.isSignComment = true → RawStatement.ofComment t ∈ raws →
      P (s.setTrailing (some { value := t.text, inline, span := t.span })))
    (h : assemble raws = .ok statements) :
    ∀ s ∈ statements, P s := by
  suffices hfrom : ∀ index previous left statements, Grouped none left → (∀ r ∈ left, r ∈ raws) →
      (∀ p ∈ previous, P p) → buildFrom index previous left = .ok statements →
      ∀ s ∈ statements, P s from
    hfrom 0 none raws statements hgrouped (fun _ hr => hr) (by simp) h
  intro index previous left statements hgrouped hleft hprevious h
  fun_induction buildFrom index previous left generalizing statements with
  | case1 index previous =>
      injection h with h
      simpa [← h] using hprevious
  | case2 => simp at h
  | case3 => simp at h
  | case4 index previous r rest colon hcolon n hextent s hbuilt ih =>
      obtain ⟨more, hmore, rfl⟩ := map_eq_ok_iff.mp h
      obtain ⟨shared, hopening, hall, hback, -⟩ := chainExtent_spec hgrouped hcolon hextent
      have hs : P s := by
        refine hchain index shared colon r (rest.take n) s hopening (fun q hq => ?_) hbuilt
        refine ⟨hleft q ?_, hall q hq⟩
        rcases List.mem_cons.mp hq with rfl | hq
        · exact List.mem_cons_self
        · exact List.mem_cons_of_mem _ (List.mem_of_mem_take hq)
      exact List.forall_mem_append.mpr ⟨by simpa using hprevious,
        ih more hback (fun q hq => hleft q (by simp [List.mem_of_mem_drop hq])) (by simpa using hs)
          hmore⟩
  | case5 => simp at h
  | case6 index previous r rest hcolon hkind finished s hadd ih =>
      obtain ⟨more, hmore, rfl⟩ := map_eq_ok_iff.mp h
      obtain ⟨t, ht, rfl, hrest⟩ := Grouped.of_comment hgrouped hkind
      have hmem := hleft (RawStatement.ofComment t) (by simp)
      have hparts : (∀ p ∈ finished, P p) ∧ P s := by
        unfold addComment at hadd
        simp only [RawStatement.ofComment] at hadd
        obtain ⟨inline, -, hsplit⟩ := map_eq_ok_iff.mp hadd
        split at hsplit
        next p =>
          split at hsplit
          next haccepts =>
            injection hsplit with hfinished hs
            subst hfinished hs
            simp only [acceptsTrailing, Bool.and_eq_true] at haccepts
            exact ⟨by simp, htrailing p t inline (hprevious p rfl) haccepts.1.1.2 hmem⟩
          next =>
            injection hsplit with hfinished hs
            subst hfinished hs
            exact ⟨hprevious, hcomment index t inline ht hmem⟩
        next =>
          injection hsplit with hfinished hs
          subst hfinished hs
          exact ⟨by simp, hcomment index t inline ht hmem⟩
      exact List.forall_mem_append.mpr ⟨by simpa using hparts.1,
        ih more hrest (fun q hq => hleft q (by simp [hq])) (by simpa using hparts.2) hmore⟩
  | case7 index previous r rest hcolon hkind ih =>
      obtain ⟨more, hmore, rfl⟩ := map_eq_ok_iff.mp h
      obtain ⟨body, pragmas, hends, rfl, hrest⟩ := Grouped.of_plain hgrouped hcolon hkind
      have hs := hsingle index body pragmas hends (hleft _ (by simp))
      exact List.forall_mem_append.mpr ⟨by simpa using hprevious,
        ih more hrest (fun q hq => hleft q (by simp [hq])) (by simpa using hs) hmore⟩

end Assembly

/-- Sound raw statements give sound statements. -/
theorem sound_assemble
    {raws : List RawStatement} {statements : List Statement}
    (hgrouped : Grouped none raws) (hsound : ∀ r ∈ raws, r.Sound)
    (h : assemble raws = .ok statements) :
    ∀ s ∈ statements, s.Sound := by
  have hlexed {t : Token} (hmem : RawStatement.ofComment t ∈ raws) : t.Lexed :=
    (hsound _ hmem).lexed t (by simp [RawStatement.ofComment])
  refine Assembly.forall_assemble hgrouped ?_ ?_ ?_ ?_ h
  · intro index shared colon first rest s hopening hall hs
    exact Assembly.sound_ofChain hopening (fun r hr => (hall r hr).2)
      (fun r hr => hsound r (hall r hr).1) hs
  · intro index body pragmas hends hmem
    exact Assembly.sound_ofSingle index hends (hsound _ hmem)
  · intro index t inline hcomment hmem
    exact Assembly.sound_ofComment index _
      (Comment.isMarked_of_token (hlexed hmem) hcomment inline)
  · intro s t inline hs hsign hmem
    refine hs.setTrailing fun c hc => ?_
    injection hc with hc
    exact hc ▸ Comment.isSigned_of_token (hlexed hmem) hsign inline

/-! ## Moving brackets up -/

namespace Bracket

/-- Brackets and periods move up to code only, so lines still end after comments. -/
theorem breakAfter_sweepFrom
    {c : Cell} {cells : List Cell}
    (hc : c.token.isComment = true → c.breakAfter = true)
    (hcells : ∀ cell ∈ cells, cell.token.isComment = true → cell.breakAfter = true) :
    ∀ cell ∈ sweepFrom c cells, cell.token.isComment = true → cell.breakAfter = true := by
  induction cells generalizing c with
  | nil => simpa [sweepFrom] using hc
  | cons next rest ih =>
      have hrest : ∀ cell ∈ rest, cell.token.isComment = true → cell.breakAfter = true :=
        fun cell hcell => hcells cell (by simp [hcell])
      have hnext := hcells next (by simp)
      rw [sweepFrom]
      split
      next hpulls =>
        have hcode : c.token.isComment = false := by
          simp only [pullsUp, Bool.and_eq_true, Bool.not_eq_true'] at hpulls
          exact hpulls.1.2
        intro cell hcell hcomment
        rw [List.mem_cons] at hcell
        rcases hcell with rfl | hcell
        · simp [hcode] at hcomment
        · refine ih ?_ hrest cell hcell hcomment
          split
          next hbracket =>
            intro hbad
            rw [token_settle] at hbad
            simp only [Token.isClosingBracket, Token.isComment, Bool.and_eq_true,
              beq_iff_eq] at hbracket hbad
            simp [hbracket.1] at hbad
          next => exact hnext
      next =>
        intro cell hcell hcomment
        rw [List.mem_cons] at hcell
        rcases hcell with rfl | hcell
        · exact hc hcomment
        · exact ih hnext hrest cell hcell hcomment

theorem breakAfter_sweep
    {cells : List Cell}
    (h : ∀ cell ∈ cells, cell.token.isComment = true → cell.breakAfter = true) :
    ∀ cell ∈ sweep cells, cell.token.isComment = true → cell.breakAfter = true := by
  cases cells with
  | nil => simp [sweep]
  | cons c rest =>
      exact breakAfter_sweepFrom (h c (by simp)) fun cell hcell => h cell (by simp [hcell])

theorem breakAfter_breakBeforePeriod
    {cells : List Cell}
    (h : ∀ cell ∈ cells, cell.token.isComment = true → cell.breakAfter = true) :
    ∀ cell ∈ breakBeforePeriod cells, cell.token.isComment = true → cell.breakAfter = true := by
  fun_induction breakBeforePeriod cells with
  | case1 c previous rest _ =>
      intro cell hcell hcomment
      simp only [List.mem_cons] at hcell
      rcases hcell with rfl | rfl | hcell
      · exact h _ (by simp) hcomment
      · rfl
      · exact h cell (by simp [hcell]) hcomment
  | case2 c previous rest _ ih =>
      intro cell hcell hcomment
      rw [List.mem_cons] at hcell
      rcases hcell with rfl | hcell
      · exact h _ (by simp) hcomment
      · exact ih (fun d hd => h d (by simp [hd])) cell hcell hcomment
  | case3 => exact h

theorem sound_deal
    {entries : List Entry} (h : ∀ e ∈ entries, e.Sound) (cells : List Cell) :
    ∀ e ∈ Entry.deal cells entries, e.Sound := by
  induction entries generalizing cells with
  | nil => simp [Entry.deal]
  | cons e rest ih =>
      have hrest : ∀ e ∈ rest, e.Sound := fun e he => h e (by simp [he])
      have he := h e (by simp)
      cases e with
      | member own trailing =>
          intro d hd
          rw [Entry.deal, List.mem_cons] at hd
          rcases hd with rfl | hd
          · exact he
          · exact ih hrest _ d hd
      | remark comment =>
          intro d hd
          rw [Entry.deal, List.mem_cons] at hd
          rcases hd with rfl | hd
          · exact he
          · exact ih hrest _ d hd

/-- A statement with other cells, the line ending after comments, and with other marks. -/
theorem sound_withCells
    {s s' : Statement} {cells : List Cell} (h : s.Sound)
    (hbody : s'.body = s.body.withCells cells) (hnote : s'.note = s.note)
    (hpost : ∀ c, s'.post = some c → c.IsSigned) (hnil : s.cells = [] → cells = [])
    (hcells : ∀ own, s.body = .plain own →
      ∀ cell ∈ cells, cell.token.isComment = true → cell.breakAfter = true) :
    s'.Sound := by
  cases hold : s.body with
  | plain own =>
      rw [hold, Body.withCells] at hbody
      constructor
      · simp [hbody]
      · simp [hbody]
      · simp [hbody]
      · intro c hc
        rcases h.note c (hnote ▸ hc) with hsigned | ⟨hempty, hmarked⟩
        · exact .inl hsigned
        · refine .inr ⟨?_, hmarked⟩
          rw [hbody, hnil (by simp [Statement.cells, hempty, Body.cells])]
      · exact hpost
      · intro cells' hcells'
        rw [hbody, Body.plain.injEq] at hcells'
        exact hcells' ▸ hcells own hold
  | chain c =>
      rw [hold, Body.withCells] at hbody
      constructor
      · intro d hd
        rw [hbody, Body.chain.injEq] at hd
        exact hd ▸ h.colon c hold
      · intro d hd
        rw [hbody, Body.chain.injEq] at hd
        exact hd ▸ h.words c hold
      · intro d hd
        rw [hbody, Body.chain.injEq] at hd
        exact hd ▸ sound_deal (h.entries c hold) cells
      · exact fun d hd => .inl (h.isSigned_note (by simp [hold]) (hnote ▸ hd))
      · exact hpost
      · intro cells' hcells'
        simp [hbody] at hcells'

theorem sound_sweepStatement {s : Statement} (h : s.Sound) : (sweepStatement s).Sound := by
  refine sound_withCells h rfl rfl h.post ?_ ?_
  · intro hnil
    rw [hnil]
    rfl
  · intro own hown
    refine breakAfter_sweep ?_
    simpa [Statement.cells, hown, Body.cells] using h.breaks own hown

theorem sound_forcePeriodLine
    {s : Statement} (h : s.Sound) : (forcePeriodLine s).Sound := by
  refine sound_withCells h rfl rfl h.post ?_ ?_
  · intro hnil
    rw [hnil]
    rfl
  · intro own hown cell hcell
    rw [List.mem_reverse] at hcell
    refine breakAfter_breakBeforePeriod ?_ cell hcell
    intro d hd
    rw [List.mem_reverse] at hd
    simp only [Statement.cells, hown, Body.cells] at hd
    exact h.breaks own hown d hd

/-- The comment that moves to the statement in front has the sign of comments behind code. -/
theorem isSigned_of_incoming?
    {s next : Statement} {c : Comment} (h : next.Sound) (hc : incoming? s next = some c) :
    c.IsSigned := by
  unfold incoming? at hc
  split at hc
  next comment span htrailing _ =>
    split at hc
    next hmoves =>
      injection hc with hc
      subst hc
      rcases h.isMarked_of_trailing htrailing with hsigned | ⟨text, -, hvalue⟩
      · exact hsigned
      · obtain ⟨-, -, -, hhead⟩ := hmoves
        rw [hvalue, Text.trimLeft_cons (by decide)] at hhead
        simp [Comment.sign] at hhead
    next => simp at hc
  next => simp at hc

/-- Two comments in one have the sign of comments behind code. -/
theorem isSigned_mergeComments
    {existing : Option Comment} {incoming : Comment} (hincoming : incoming.IsMarked)
    (hexisting : ∀ c, existing = some c → c.IsMarked) :
    (mergeComments existing incoming).IsSigned := by
  have hbody := hincoming.oneLine_body
  cases existing with
  | none => exact ⟨_, Text.oneLine_cons.mpr ⟨by decide, hbody⟩, rfl⟩
  | some c =>
      refine ⟨_, Text.oneLine_cons.mpr ⟨by decide, ?_⟩, rfl⟩
      simp only [Text.oneLine_append, Text.oneLine_cons]
      exact ⟨⟨(hexisting c rfl).oneLine_body, by decide, by decide, Text.OneLine.nil⟩, hbody⟩

theorem sound_receive
    {s : Statement} (h : s.Sound) {incoming : Comment} (hincoming : incoming.IsSigned) :
    (receive s incoming).Sound := by
  unfold receive
  dsimp only
  split
  · refine sound_forcePeriodLine ?_
    exact
      { colon := h.colon
        words := h.words
        entries := h.entries
        note := h.note
        post := by
          intro c hc
          injection hc with hc
          exact hc ▸ hincoming
        breaks := h.breaks }
  · refine h.setTrailing ?_
    intro c hc
    injection hc with hc
    exact hc ▸ isSigned_mergeComments (.inl hincoming) fun d hd => h.isMarked_of_trailing hd

/-- What holds of every statement once its brackets have moved up, and still holds when its comment
has moved away, gives what holds of all statements in the end, if this holds of the statements that
take over a comment as well. -/
theorem forall_reposition
    {P Q : Statement → Prop} {statements : List Statement}
    (hswept : ∀ s ∈ statements, P (sweepStatement s))
    (hgives : ∀ s : Statement, P s → P (s.setTrailing none))
    (hreceives : ∀ s next c, P s → P next → incoming? s next = some c → Q (receive s c))
    (hkeeps : ∀ s, P s → Q s) :
    ∀ s ∈ reposition statements, Q s := by
  have hmerged : ∀ rest s, P s → (∀ t ∈ rest, P t) → ∀ t ∈ mergeFrom s rest, Q t := by
    intro rest
    induction rest with
    | nil => exact fun s hs _ => List.forall_mem_singleton.mpr (hkeeps s hs)
    | cons next rest ih =>
        intro s hs hrest
        rw [List.forall_mem_cons] at hrest
        rw [mergeFrom]
        split
        next c hincoming =>
          exact List.forall_mem_cons.mpr ⟨hreceives s next c hs hrest.1 hincoming,
            ih _ (hgives next hrest.1) hrest.2⟩
        next => exact List.forall_mem_cons.mpr ⟨hkeeps s hs, ih next hrest.1 hrest.2⟩
  cases statements with
  | nil => simp [reposition, mergeAll]
  | cons s rest =>
      rw [List.forall_mem_cons] at hswept
      exact hmerged _ _ hswept.1 (List.forall_mem_map.mpr hswept.2)

/-- Moving brackets up and merging comments keeps statements sound. -/
theorem sound_reposition
    {statements : List Statement} (h : ∀ s ∈ statements, s.Sound) :
    ∀ s ∈ reposition statements, s.Sound := by
  refine forall_reposition (P := Statement.Sound) (fun s hs => sound_sweepStatement (h s hs)) ?_ ?_
    fun s hs => hs
  · exact fun s hs => hs.setTrailing (by simp)
  · exact fun s next c hs hnext hincoming =>
      sound_receive hs (isSigned_of_incoming? hnext hincoming)

end Bracket

/-- A sound statement is sound on every level. -/
theorem Layout.sound_assignLevels
    {statements : List Statement} (h : ∀ s ∈ statements, s.Sound) (levels : List (Option Nat)) :
    ∀ s ∈ assignLevels levels statements, s.Sound := by
  refine List.forall_mem_map.mpr fun s hs => ?_
  exact
    { colon := (h s hs).colon
      words := (h s hs).words
      entries := (h s hs).entries
      note := (h s hs).note
      post := (h s hs).post
      breaks := (h s hs).breaks }

theorem Layout.sound_arrange
    {raws : List RawStatement} {statements : List Statement}
    (hgrouped : Grouped none raws) (hsound : ∀ r ∈ raws, r.Sound)
    (h : Layout.arrange raws = .ok statements) :
    ∀ s ∈ statements, s.Sound := by
  obtain ⟨assembled, hassembled, rfl⟩ := map_eq_ok_iff.mp h
  exact Bracket.sound_reposition
    (sound_assignLevels (sound_assemble hgrouped hsound hassembled) _)

end AbapLayout
