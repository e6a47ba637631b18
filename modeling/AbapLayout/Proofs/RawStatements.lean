import AbapLayout.Proofs.Rows
import AbapLayout.Proofs.TokenPlaces

/-!
# What a source is cut into

The raw statements of a source hold its tokens, each once.  The words and the colon that the members
of a chain share come with every member, so they count where the colon comes for the first time
(`RawStatement.unrolled`).  Comments between statements may overtake tokens that are held; all other
tokens keep their order.

Statements end in a period, members of a chain in a comma as long as another member follows.  The
members of a chain stand behind one another, with nothing but comments in between
(`Source.split_divides`).
-/

namespace AbapLayout

/-- The tokens of an opening, unless its colon is among the given ones. -/
def Opening.fresh (begun : List Token) (o : Opening) : List Token :=
  if o.colon?.any (· ∈ begun) then [] else o.tokens

namespace RawStatement

/-- The tokens of raw statements behind one another.  What the members of a chain share counts for
the first of them: `begun` holds the colons of the chains that have begun. -/
def unrolled (begun : List Token) : List RawStatement → List Token
  | [] => []
  | r :: rest => r.opening.fresh begun ++ r.body ++ unrolled (r.colon?.toList ++ begun) rest

/-- A comment that stands alone. -/
def IsRemark (r : RawStatement) : Prop :=
  r.kind = .comment ∧ r.opening = .none ∧ ∃ t, t.isComment = true ∧ r.body = [t]

/-- A statement up to its period, or a member of a chain up to its comma or period. -/
structure IsClause (r : RawStatement) : Prop where
  kind : r.kind ≠ .comment
  ends : EndsIn '.' r.tokens ∨ EndsIn ',' r.tokens ∧ ∃ words colon, r.opening = .shared words colon
  /-- A period is the last token. -/
  periods : ∀ t ∈ r.tokens.dropLast, t.isPeriod = false

/-- What comes behind a member of a chain.  Behind a comma comes the next member, with the same words
and the same colon, and nothing but comments in front of it; behind a period comes no member. -/
def IsMemberOf (words : List Token) (colon : Token) (r : RawStatement)
    (back : List RawStatement) : Prop :=
  (EndsIn ',' r.tokens ∧ ∃ between next rest, back = between ++ next :: rest ∧
    next.opening = .shared words colon ∧ ∀ s ∈ between, s.kind = .comment) ∨
  (EndsIn '.' r.tokens ∧ ∀ s ∈ back, s.colon? ≠ some colon)

end RawStatement

/-- Raw statements into which tokens are cut. -/
structure Divides (ts : List Token) (raws : List RawStatement) : Prop where
  /-- Every token but the pragmas stands in the raw statements once. -/
  tokens : (RawStatement.unrolled [] raws).Perm (ts.filter fun t => !t.isPragma)
  nodup : (RawStatement.unrolled [] raws).Nodup
  /-- All but the comments keep their order. -/
  code : (RawStatement.unrolled [] raws).filter (fun t => !t.isComment) = ts.filter Token.isCode
  pragmas : raws.flatMap (·.pragmas) = ts.filter Token.isPragma
  shape : ∀ r ∈ raws, r.IsRemark ∨ r.IsClause
  chains : ∀ front r back, raws = front ++ r :: back →
    ∀ words colon, r.opening = .shared words colon → r.IsMemberOf words colon back

/-! ## The same tokens -/

/-- The same tokens, those of code in the same order. -/
structure SameTokens (ts us : List Token) : Prop where
  perm : ts.Perm us
  code : ts.filter Token.isCode = us.filter Token.isCode

namespace SameTokens

theorem refl (ts : List Token) : SameTokens ts ts :=
  ⟨.refl ts, rfl⟩

theorem append_left {ts us : List Token} (h : SameTokens ts us) (front : List Token) :
    SameTokens (front ++ ts) (front ++ us) where
  perm := h.perm.append_left front
  code := by rw [List.filter_append, List.filter_append, h.code]

/-- A comment may stand anywhere. -/
theorem comment
    {t : Token} (ht : t.isComment = true) {ts front back : List Token}
    (h : SameTokens ts (front ++ back)) :
    SameTokens (t :: ts) (front ++ t :: back) where
  perm := (h.perm.cons t).trans List.perm_middle.symm
  code := by
    have hno := t.isCode_eq_false_of_isComment ht
    rw [List.filter_cons_of_neg (by simp [hno]), h.code, List.filter_append, List.filter_append,
      List.filter_cons_of_neg (by simp [hno])]

end SameTokens

namespace Unfinished

open RawStatement

/-! ## No token is lost -/

/-- The tokens to come differ from one another and from the colon of the chain that is going on. -/
structure ComesNew (u : Unfinished) (ts : List Token) : Prop where
  nodup : ts.Nodup
  colon : ∀ colon ∈ u.opening.colon?, colon ∉ ts

theorem comesNew_of_nodup {ts : List Token} (h : ts.Nodup) : ({} : Unfinished).ComesNew ts :=
  ⟨h, by simp [opening, Opening.colon?]⟩

theorem ComesNew.tail
    {u v : Unfinished} {t : Token} {ts : List Token} (h : u.ComesNew (t :: ts))
    (hchain : v.chain = u.chain) :
    v.ComesNew ts where
  nodup := (List.nodup_cons.mp h.nodup).2
  colon := by
    rw [opening_congr hchain]
    exact fun colon hc hmem => h.colon colon hc (List.mem_cons_of_mem t hmem)

/-- A colon that opens a chain does not come again. -/
theorem ComesNew.opens
    {u : Unfinished} {t : Token} {ts : List Token} (h : u.ComesNew (t :: ts)) :
    { u with chain := some (u.pending, t), pending := [] }.ComesNew ts where
  nodup := (List.nodup_cons.mp h.nodup).2
  colon := by simpa [opening, Opening.colon?] using (List.nodup_cons.mp h.nodup).1

theorem fresh_opening_of_mem
    {u : Unfinished} {shared begun : List Token} {colon : Token}
    (hchain : u.chain = some (shared, colon)) (hbegun : colon ∈ begun) :
    u.opening.fresh begun = [] := by
  simp [Opening.fresh, opening_of_chain hchain, Opening.colon?, hbegun]

/-- The raw statements hold the tokens that were held and those that came, but for pragmas.  The
opening of the chain that is going on is among them unless its colon has been seen. -/
theorem Run.sameTokens
    {u : Unfinished} {ts begun : List Token} {raws : List RawStatement} (h : Run u ts raws)
    (hnew : u.ComesNew ts) (hbegun : ∀ t ∈ ts, t ∉ begun) :
    SameTokens (unrolled begun raws)
      (u.opening.fresh begun ++ (u.pending ++ ts.filter fun t => !t.isPragma)) := by
  have hseen {u : Unfinished} {t : Token} {ts begun : List Token} (hnew : u.ComesNew (t :: ts))
      (hbegun : ∀ v ∈ t :: ts, v ∉ begun) : ∀ v ∈ ts, v ∉ u.opening.colon?.toList ++ begun := by
    intro v hv hmem
    rcases List.mem_append.mp hmem with hmem | hmem
    · exact hnew.colon v (Option.mem_toList.mp hmem) (List.mem_cons_of_mem t hv)
    · exact hbegun v (List.mem_cons_of_mem t hv) hmem
  induction h generalizing begun with
  | done hpending hchain =>
      simp [unrolled, hpending, opening, hchain, Opening.fresh, Opening.tokens, SameTokens.refl]
  | @remark u t ts raws hcomment _ ih =>
      have hno := isPragma_eq_false_of_isComment hcomment
      have hrest := ih (hnew.tail rfl) fun v hv => hbegun v (by simp [hv])
      rw [← List.append_assoc] at hrest
      simpa [unrolled, ofComment, Opening.fresh, Opening.tokens, Opening.colon?,
        RawStatement.colon?, hno] using hrest.comment hcomment
  | @hold u v t ts raws hno hpending _ hchain _ ih =>
      rw [hpending, opening_congr hchain] at ih
      simpa [hno] using ih (hnew.tail hchain) fun w hw => hbegun w (by simp [hw])
  | @pragma u t ts raws hyes _ ih =>
      simpa [hyes, opening] using ih (hnew.tail rfl) fun w hw => hbegun w (by simp [hw])
  | @colon u t ts raws hrole hnone _ ih =>
      have hno := isPragma_eq_false_of_role hrole (by simp)
      have hfirst := hbegun t (by simp)
      have hrest := ih hnew.opens fun w hw => hbegun w (by simp [hw])
      simpa [opening, hnone, Opening.fresh, Opening.colon?, Opening.tokens, hfirst, hno] using hrest
  | @period u t ts raws hrole _ _ ih =>
      have hno := isPragma_eq_false_of_role hrole (by simp)
      have hnothing : ({} : Unfinished).opening.fresh (u.opening.colon?.toList ++ begun) = [] := by
        simp [opening, Opening.fresh, Opening.tokens]
      have hrest := ih (comesNew_of_nodup (List.nodup_cons.mp hnew.nodup).2) (hseen hnew hbegun)
      rw [hnothing, List.nil_append, List.nil_append] at hrest
      rw [unrolled]
      simpa [ofTokens, RawStatement.colon?, hno] using
        hrest.append_left (u.opening.fresh begun ++ (u.pending ++ [t]))
  | @comma u t ts raws shared colon depth hrole _ hchain _ ih =>
      have hno := isPragma_eq_false_of_role hrole (by simp)
      have hrest := ih (hnew.tail hchain.symm) (hseen hnew hbegun)
      rw [opening_of_chain hchain] at hrest ⊢
      rw [fresh_opening_of_mem rfl (by simp [Opening.colon?]), List.nil_append,
        List.nil_append] at hrest
      rw [unrolled]
      simpa [ofTokens, RawStatement.colon?, hno] using
        hrest.append_left ((Opening.shared shared colon).fresh begun ++ (u.pending ++ [t]))

theorem Run.sameTokens_of_nodup
    {ts : List Token} {raws : List RawStatement} (h : Run {} ts raws) (hnodup : ts.Nodup) :
    SameTokens (unrolled [] raws) (ts.filter fun t => !t.isPragma) := by
  simpa [opening, Opening.fresh, Opening.tokens, Opening.colon?] using
    h.sameTokens (comesNew_of_nodup hnodup) (by simp)

/-! ## Periods -/

def NoPeriod (u : Unfinished) : Prop :=
  ∀ t ∈ u.opening.tokens ++ u.pending, t.isPeriod = false

/-- What is held with one more token that is no period. -/
theorem NoPeriod.hold
    {u v : Unfinished} {t : Token} (h : u.NoPeriod) (ht : t.isPeriod = false)
    (hheld : v.opening.tokens ++ v.pending = u.opening.tokens ++ u.pending ++ [t]) :
    v.NoPeriod := by
  intro w hw
  rw [hheld, List.mem_append, List.mem_singleton] at hw
  rcases hw with hw | rfl
  · exact h w hw
  · exact ht

theorem isPeriod_eq_false_of_role
    {t : Token} {role : Role} (h : t.role = role) (hrole : role ≠ .punctuation) :
    t.isPeriod = false := by
  simp [Token.isPeriod, h, hrole]

theorem pushCode_noPeriod
    {u : Unfinished} {t : Token} (h : u.NoPeriod) :
    (u.pushCode t).2.NoPeriod ∧
      ∀ r ∈ (u.pushCode t).1, ∀ v ∈ r.tokens.dropLast, v.isPeriod = false := by
  unfold pushCode
  dsimp only
  split
  next hends =>
    have hcomplete : ∀ v ∈ (ofTokens u.opening (u.pending ++ [t]) u.pragmas).tokens.dropLast,
        v.isPeriod = false := by
      have hfront : (ofTokens u.opening (u.pending ++ [t]) u.pragmas).tokens.dropLast =
          u.opening.tokens ++ u.pending := by
        simp [RawStatement.tokens, ofTokens, ← List.append_assoc]
      rw [hfront]
      exact h
    split
    · exact ⟨by simp [NoPeriod, opening, Opening.tokens], by simpa using hcomplete⟩
    · refine ⟨fun v hv => h v ?_, by simpa using hcomplete⟩
      rw [List.append_nil] at hv
      exact List.mem_append.mpr (.inl hv)
  next hgoesOn =>
    have ht : t.isPeriod = false := by
      simp only [Token.isPeriod, Bool.and_eq_false_iff, beq_eq_false_iff_ne]
      by_cases hrole : t.role = .punctuation
      · exact .inr fun htext => hgoesOn ⟨hrole, .inl htext⟩
      · exact .inl hrole
    exact ⟨h.hold ht (by simp [opening]), by simp⟩

/-- A period is never held, so it is the last token of the statement it completes. -/
theorem push_noPeriod
    {u : Unfinished} {t : Token} (h : u.NoPeriod) :
    (u.push t).2.NoPeriod ∧
      ∀ r ∈ (u.push t).1, ∀ v ∈ r.tokens.dropLast, v.isPeriod = false := by
  unfold push
  split
  next hrole =>
    split
    · exact ⟨h, by simp [ofComment, RawStatement.tokens, Opening.tokens]⟩
    · exact ⟨h.hold (isPeriod_eq_false_of_role hrole (by simp)) (by simp [opening]), by simp⟩
  next => exact ⟨h, by simp⟩
  next hrole =>
    split
    next hopens =>
      refine ⟨h.hold (isPeriod_eq_false_of_role hrole (by simp)) ?_, by simp⟩
      have hnone : u.chain = none := by simpa using hopens.1
      simp [opening, hnone, Opening.tokens]
    next => exact pushCode_noPeriod h
  next => exact pushCode_noPeriod h

theorem statements_periods
    {u : Unfinished} {ts : List Token} {raws : List RawStatement} (hu : u.NoPeriod)
    (h : u.statements ts = .ok raws) :
    ∀ r ∈ raws, ∀ t ∈ r.tokens.dropLast, t.isPeriod = false := by
  induction ts generalizing u raws with
  | nil =>
      obtain ⟨rfl, -⟩ := statements_nil h
      simp
  | cons t ts ih =>
      obtain ⟨more, hmore, rfl⟩ := statements_cons h
      obtain ⟨hnext, hcomplete⟩ := push_noPeriod (t := t) hu
      intro r hr
      rw [List.mem_append, Option.mem_toList] at hr
      rcases hr with hr | hr
      · exact hcomplete r hr
      · exact ih hnext hmore r hr

/-! ## Chains -/

/-- Behind the last member of a chain no raw statement has its colon. -/
theorem Run.colons_apart
    {u : Unfinished} {ts : List Token} {raws : List RawStatement} (h : Run u ts raws)
    (hnew : u.ComesNew ts) :
    raws.Pairwise fun r s => EndsIn '.' r.body →
      ∀ colon ∈ r.colon?, colon ∉ s.opening.tokens := by
  induction h with
  | done => exact .nil
  | remark _ _ ih =>
      refine List.pairwise_cons.mpr ⟨?_, ih (hnew.tail rfl)⟩
      simp [ofComment, RawStatement.colon?, Opening.colon?]
  | hold _ _ _ hchain _ ih => exact ih (hnew.tail hchain)
  | pragma _ _ ih => exact ih (hnew.tail rfl)
  | colon _ _ _ ih => exact ih hnew.opens
  | @period u t ts raws _ _ hrest ih =>
      refine List.pairwise_cons.mpr
        ⟨?_, ih (comesNew_of_nodup (List.nodup_cons.mp hnew.nodup).2)⟩
      intro s hs _ colon hc hmem
      have hdraws : colon ∈ ts.filter fun t => !t.isPragma := by
        simpa [opening, Opening.tokens] using (hrest.draws s hs).opening hmem
      exact hnew.colon colon hc (List.mem_cons_of_mem t (List.mem_filter.mp hdraws).1)
  | @comma u t ts raws shared colon depth _ hcomma hchain _ ih =>
      refine List.pairwise_cons.mpr ⟨?_, ih (hnew.tail hchain.symm)⟩
      rintro s _ ⟨init, last, heq, -, htext⟩
      have hlast : t = last := by simpa using List.append_inj_right' heq rfl
      simp [← hlast, hcomma] at htext

end Unfinished

theorem EndsIn.append
    {sign : Char} {body : List Token} (h : EndsIn sign body) (front : List Token) :
    EndsIn sign (front ++ body) := by
  obtain ⟨init, last, rfl, hrole, htext⟩ := h
  exact ⟨front ++ init, last, by simp, hrole, htext⟩

namespace Grouped

open RawStatement

/-- What stands behind some raw statements is grouped as well. -/
theorem behind
    {chain : Option (List Token × Token)} {front back : List RawStatement}
    (h : Grouped chain (front ++ back)) :
    ∃ chain, Grouped chain back := by
  induction front generalizing chain with
  | nil => exact ⟨chain, h⟩
  | cons r front ih =>
      rw [List.cons_append] at h
      cases h with
      | comment _ _ hrest | plain _ hrest | member _ _ hrest | last _ _ hrest => exact ih hrest

/-- A chain that is going on has a next member. -/
theorem next
    {shared : List Token} {colon : Token} {raws : List RawStatement}
    (h : Grouped (some (shared, colon)) raws) :
    ∃ between next rest, raws = between ++ next :: rest ∧
      next.opening = .shared shared colon ∧ ∀ s ∈ between, s.kind = .comment := by
  generalize hchain : some (shared, colon) = chain at h
  induction h with
  | nil => simp at hchain
  | comment t _ _ ih =>
      obtain ⟨between, next, rest, rfl, hnext, hall⟩ := ih hchain
      exact ⟨ofComment t :: between, next, rest, rfl, hnext,
        List.forall_mem_cons.mpr ⟨rfl, hall⟩⟩
  | plain => simp at hchain
  | member hsame | last hsame =>
      obtain ⟨rfl, rfl⟩ : shared = _ ∧ colon = _ := by
        simpa [← hchain] using hsame
      exact ⟨[], _, _, rfl, rfl, by simp⟩

/-- The colon of a raw statement is one of its tokens. -/
theorem colon_mem
    {chain : Option (List Token × Token)} {raws : List RawStatement} (h : Grouped chain raws) :
    ∀ r ∈ raws, ∀ colon ∈ r.colon?, colon ∈ r.opening.tokens := by
  induction h with
  | nil => simp
  | comment t _ _ ih =>
      exact List.forall_mem_cons.mpr ⟨by simp [ofComment, colon?, Opening.colon?], ih⟩
  | plain _ _ ih =>
      exact List.forall_mem_cons.mpr ⟨by simp [ofTokens, colon?, Opening.colon?], ih⟩
  | member _ _ _ ih | last _ _ _ ih =>
      refine List.forall_mem_cons.mpr ⟨?_, ih⟩
      simp [ofTokens, colon?, Opening.colon?, Opening.tokens]

/-- Raw statements are comments, or they end in a period or, in a chain, in a comma. -/
theorem shape
    {chain : Option (List Token × Token)} {raws : List RawStatement} (h : Grouped chain raws)
    (hperiods : ∀ r ∈ raws, ∀ t ∈ r.tokens.dropLast, t.isPeriod = false) :
    ∀ r ∈ raws, r.IsRemark ∨ r.IsClause := by
  induction h with
  | nil => simp
  | comment t ht _ ih =>
      rw [List.forall_mem_cons] at hperiods
      exact List.forall_mem_cons.mpr ⟨.inl ⟨rfl, rfl, t, ht, rfl⟩, ih hperiods.2⟩
  | plain hends _ ih | last _ hends _ ih =>
      rw [List.forall_mem_cons] at hperiods
      exact List.forall_mem_cons.mpr ⟨.inr
        { kind := kind_ofTokens_ne_comment hends
          ends := .inl (hends.append _)
          periods := hperiods.1 }, ih hperiods.2⟩
  | member _ hends _ ih =>
      rw [List.forall_mem_cons] at hperiods
      exact List.forall_mem_cons.mpr ⟨.inr
        { kind := kind_ofTokens_ne_comment hends
          ends := .inr ⟨hends.append _, _, _, rfl⟩
          periods := hperiods.1 }, ih hperiods.2⟩

/-- Behind a comma a chain goes on, and behind a period no member of it comes. -/
theorem isMemberOf
    {chain : Option (List Token × Token)} {front back : List RawStatement} {r : RawStatement}
    (h : Grouped chain (front ++ r :: back))
    (hapart : (front ++ r :: back).Pairwise fun r s => EndsIn '.' r.body →
      ∀ colon ∈ r.colon?, colon ∉ s.opening.tokens)
    {words : List Token} {colon : Token} (hopening : r.opening = .shared words colon) :
    r.IsMemberOf words colon back := by
  obtain ⟨chain, hgrouped⟩ := h.behind
  have hcolon : colon ∈ r.colon? := by simp [colon?, hopening, Opening.colon?]
  have hlater := (List.pairwise_cons.mp (List.pairwise_append.mp hapart).2.1).1
  have hheld := hgrouped.colon_mem
  cases hgrouped with
  | comment => simp [ofComment] at hopening
  | plain => simp [ofTokens] at hopening
  | member _ hends hrest =>
      obtain ⟨rfl, rfl⟩ : _ = words ∧ _ = colon := by simpa [ofTokens] using hopening
      exact .inl ⟨hends.append _, hrest.next⟩
  | last _ hends _ =>
      refine .inr ⟨hends.append _, fun s hs heq => ?_⟩
      exact hlater s hs hends colon hcolon (hheld s (by simp [hs]) colon heq)

end Grouped

/-! ## Sources -/

namespace Source

/-- A source that is accepted is cut into raw statements that hold its tokens, each once, and that
end in a period or, in a chain that goes on, in a comma. -/
theorem split_divides
    {source : Text} {filename : Option String} {raws : List RawStatement}
    (h : split source filename = .ok raws) :
    ∃ ts, tokens source = .ok ts ∧ Divides ts raws := by
  obtain ⟨ts, hts, hraws⟩ := tokens_of_split h
  have hlexed := lexed_of_mem_tokens hts
  have hnodup := nodup_of_tokenizeLines hts
  have hrun := Unfinished.run_of_statements hlexed hraws
  have hgrouped := hrun.grouped (.inl rfl)
  have hsame := hrun.sameTokens_of_nodup hnodup
  have hcode (t : Token) (ht : t ∈ RawStatement.unrolled [] raws) :
      (!t.isComment) = t.isCode := by
    have hno := (List.mem_filter.mp (hsame.perm.mem_iff.mp ht)).2
    simp [Token.isCode, hno]
  refine ⟨ts, hts, ?_⟩
  exact
    { tokens := hsame.perm
      nodup := hsame.perm.nodup_iff.mpr (hnodup.filter _)
      code := by
        rw [List.filter_congr hcode, hsame.code, List.filter_filter]
        congr 1
        funext t
        simp [Token.isCode]
      pragmas := by simpa using Unfinished.statements_pragmas hraws
      shape := hgrouped.shape (Unfinished.statements_periods
        (by simp [Unfinished.NoPeriod, Unfinished.opening, Opening.tokens]) hraws)
      chains := by
        rintro front r back rfl words colon hopening
        exact hgrouped.isMemberOf
          (hrun.colons_apart (Unfinished.comesNew_of_nodup hnodup)) hopening }

/-- The case of a chain with comments in front of its colon, between its members and inside one, with
an open bracket, pragmas, and a statement behind it on the same line. -/
theorem split_divides_chain :
    ∃ raws, split "DATA \"p\n: a(1 ##X, 2), \"c\n* s\nb \"i\n ##Y\n. c.".toList none = .ok raws ∧
      raws.map (·.kind) = [.other, .comment, .comment, .other, .other] ∧
      ∃ ts, tokens "DATA \"p\n: a(1 ##X, 2), \"c\n* s\nb \"i\n ##Y\n. c.".toList = .ok ts ∧
        Divides ts raws := by
  have hkinds : (split "DATA \"p\n: a(1 ##X, 2), \"c\n* s\nb \"i\n ##Y\n. c.".toList none).map
      (List.map (·.kind)) = .ok [.other, .comment, .comment, .other, .other] :=
    eq_ok_of_toOption (by decide +kernel)
  obtain ⟨raws, hraws, hkind⟩ := map_eq_ok_iff.mp hkinds
  exact ⟨raws, hraws, hkind, split_divides hraws⟩

end Source
end AbapLayout
