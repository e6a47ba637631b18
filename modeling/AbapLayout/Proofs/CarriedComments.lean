import AbapLayout.Proofs.RawStatements
import AbapLayout.Proofs.StatementShape

/-!
# Where comments go

A comment of a source is carried by a statement: among its tokens, behind it or behind one of its
members, between its members, or as a statement of its own.  Putting raw statements together keeps
every comment, once, but for the comments among the words that the members of a chain share: these
are lost (`assemble_comments`).
-/

namespace AbapLayout

/-- The text of a comment and where it stands. -/
def Token.mark (t : Token) : Text × Span :=
  (t.text, t.span)

def Comment.mark (c : Comment) : Text × Span :=
  (c.value, c.span)

def commentMarks (ts : List Token) : List (Text × Span) :=
  (ts.filter Token.isComment).map Token.mark

@[simp] theorem commentMarks_nil : commentMarks [] = [] := rfl

@[simp] theorem commentMarks_append (ts us : List Token) :
    commentMarks (ts ++ us) = commentMarks ts ++ commentMarks us := by
  simp [commentMarks]

theorem commentMarks_cons_of_comment
    {t : Token} (h : t.isComment = true) (ts : List Token) :
    commentMarks (t :: ts) = t.mark :: commentMarks ts := by
  simp [commentMarks, h]

theorem commentMarks_cons_of_not_comment
    {t : Token} (h : t.isComment = false) (ts : List Token) :
    commentMarks (t :: ts) = commentMarks ts := by
  simp [commentMarks, h]

theorem commentMarks_eq_nil
    {ts : List Token} (h : ∀ t ∈ ts, t.isComment = false) :
    commentMarks ts = [] := by
  rw [commentMarks, List.map_eq_nil_iff, List.filter_eq_nil_iff]
  exact fun t ht => by simp [h t ht]

def Entry.comments : Entry → List (Text × Span)
  | .member cells trailing =>
    commentMarks (cells.map (·.token)) ++ trailing.toList.map Comment.mark
  | .remark comment => [comment.mark]

/-- The comments among the tokens of a statement or in the entries of a chain. -/
def Body.comments : Body → List (Text × Span)
  | .plain cells => commentMarks (cells.map (·.token))
  | .chain c => c.entries.flatMap Entry.comments

def Statement.comments (s : Statement) : List (Text × Span) :=
  s.body.comments ++ s.note.toList.map Comment.mark ++ s.post.toList.map Comment.mark

/-- The tokens that stand in front of the colons of chains, with the colons. -/
def RawStatement.openings (begun : List Token) : List RawStatement → List Token
  | [] => []
  | r :: rest => r.opening.fresh begun ++ openings (r.colon?.toList ++ begun) rest

/-! ## The comments of a statement or member -/

namespace Assembly

/-- The comment that is taken out is one of the comments there were. -/
theorem comments_takeSignComment (ts : List Token) :
    (commentMarks (takeSignComment ts).2 ++ (takeSignComment ts).1.toList.map Token.mark).Perm
      (commentMarks ts) := by
  induction ts with
  | nil => exact .refl _
  | cons t ts ih =>
      rw [takeSignComment]
      split
      next hsign =>
        have hcomment : t.isComment = true := by
          rw [Token.isSignComment, Bool.and_eq_true] at hsign
          exact hsign.1
        rw [commentMarks_cons_of_comment hcomment]
        exact List.perm_append_singleton _ _
      next =>
        cases hcomment : t.isComment with
        | true =>
            rw [commentMarks_cons_of_comment hcomment, commentMarks_cons_of_comment hcomment]
            exact ih.cons _
        | false =>
            rw [commentMarks_cons_of_not_comment hcomment,
              commentMarks_cons_of_not_comment hcomment]
            exact ih

/-- Pragmas are put among the cells, and no comment moves. -/
theorem comments_placePragmas
    {pragmas : List Token} (h : ∀ t ∈ pragmas, t.isComment = false) (cells : List Cell) :
    commentMarks ((placePragmas pragmas cells).map (·.token)) =
      commentMarks (cells.map (·.token)) := by
  have hextra : commentMarks ((pragmas.map fun t => ({ token := t } : Cell)).map (·.token)) = [] := by
    rw [List.map_map]
    exact commentMarks_eq_nil (by simpa using h)
  unfold placePragmas
  dsimp only
  split
  next last hlast =>
    obtain ⟨init, rfl⟩ := List.getLast?_eq_some_iff.mp hlast
    split
    · simp only [List.dropLast_concat, List.map_append, commentMarks_append, hextra,
        List.append_nil]
    · simp only [List.map_append, commentMarks_append, hextra, List.append_nil]
  next hnone =>
    rw [List.getLast?_eq_none_iff] at hnone
    rw [hnone, hextra]
    rfl

/-- A statement or member has the comments of its tokens, among its cells or behind it. -/
theorem comments_finish
    {tokens pragmas : List Token} (h : ∀ t ∈ pragmas, t.isComment = false) :
    (commentMarks ((finish tokens pragmas).1.map (·.token)) ++
      (finish tokens pragmas).2.toList.map Comment.mark).Perm (commentMarks tokens) := by
  have hmarks (sign : Option Token) : (sign.map inlineComment).toList.map Comment.mark =
      sign.toList.map Token.mark := by
    cases sign <;> rfl
  rw [finish]
  dsimp only
  rw [comments_placePragmas h, map_token_link, hmarks]
  exact comments_takeSignComment tokens

/-! ## Chains -/

theorem Draft.comments_start
    {before : List Entry} {r : RawStatement} (h : ∀ t ∈ r.pragmas, t.isComment = false) :
    ((Draft.start before r).entries.flatMap Entry.comments).Perm
      (before.flatMap Entry.comments ++ commentMarks r.body) := by
  rw [show (Draft.start before r).entries = before ++
    [.member (finish r.body r.pragmas).1 (finish r.body r.pragmas).2] from rfl]
  rw [List.flatMap_append, List.flatMap_singleton]
  exact (comments_finish h).append_left _

/-- A comment is added behind the latest member or as an entry of its own. -/
theorem Draft.comments_addComment (d : Draft) (t : Token) :
    ((d.addComment t).entries.flatMap Entry.comments).Perm
      (d.entries.flatMap Entry.comments ++ [t.mark]) := by
  rw [List.perm_iff_count]
  intro mark
  unfold Draft.addComment
  dsimp only
  split
  next hfree =>
    have hnone : d.trailing = none := by simpa using hfree.2.2
    simp [Draft.entries, Entry.comments, hnone, Comment.mark, Token.mark, List.count_cons]
  next =>
    simp [Draft.entries, Entry.comments, Comment.mark, Token.mark]

/-- A member or comment of a chain adds its comments. -/
theorem Draft.comments_add
    {shared : List Token} {colon : Token} {d d' : Draft} {r : RawStatement}
    (hr : InChain shared colon r) (hpragmas : ∀ t ∈ r.pragmas, t.isComment = false)
    (h : d.add r = .ok d') :
    (d'.entries.flatMap Entry.comments).Perm
      (d.entries.flatMap Entry.comments ++ commentMarks r.body) := by
  rcases hr with ⟨t, ht, rfl⟩ | ⟨sign, body, pragmas, -, -, rfl⟩
  · injection h with h
    rw [← h, RawStatement.ofComment, commentMarks_cons_of_comment ht]
    exact d.comments_addComment t
  · injection h with h
    rw [← h]
    exact Draft.comments_start hpragmas

theorem Draft.comments_addAll
    {shared : List Token} {colon : Token} {d d' : Draft} {raws : List RawStatement}
    (hall : ∀ r ∈ raws, InChain shared colon r)
    (hpragmas : ∀ r ∈ raws, ∀ t ∈ r.pragmas, t.isComment = false) (h : d.addAll raws = .ok d') :
    (d'.entries.flatMap Entry.comments).Perm
      (d.entries.flatMap Entry.comments ++ commentMarks (raws.flatMap (·.body))) := by
  induction raws generalizing d with
  | nil =>
      injection h with h
      simp [h]
  | cons r rest ih =>
      rw [Draft.addAll] at h
      split at h
      · simp at h
      next next hadd =>
        have hstep := Draft.comments_add (hall r (by simp)) (hpragmas r (by simp)) hadd
        have hmore := ih (fun s hs => hall s (by simp [hs])) (fun s hs => hpragmas s (by simp [hs])) h
        rw [List.flatMap_cons, commentMarks_append, ← List.append_assoc]
        exact hmore.trans (hstep.append_right _)

/-- A chain carries the comments of its members and those between and behind them. -/
theorem comments_ofChain
    {index : Nat} {shared : List Token} {colon : Token} {first : RawStatement}
    {rest : List RawStatement} {s : Statement}
    (hopening : first.opening = .shared shared colon)
    (hall : ∀ r ∈ first :: rest, InChain shared colon r)
    (hpragmas : ∀ r ∈ first :: rest, ∀ t ∈ r.pragmas, t.isComment = false)
    (h : ofChain index first rest = .ok s) :
    s.comments.Perm (commentMarks ((first :: rest).flatMap (·.body))) := by
  unfold ofChain at h
  rw [hopening] at h
  dsimp only at h
  split at h
  · simp at h
  next keyword others hwords =>
    obtain ⟨draft, hdraft, rfl⟩ := map_eq_ok_iff.mp h
    have hadded := Draft.comments_addAll (fun r hr => hall r (by simp [hr]))
      (fun r hr => hpragmas r (by simp [hr])) hdraft
    have hstart : ((Draft.start [] first).entries.flatMap Entry.comments).Perm
        (commentMarks first.body) := Draft.comments_start (hpragmas first (by simp))
    have hsorted := (perm_sortEntries draft.entries).flatMap_right Entry.comments
    simp only [Statement.comments, Body.comments, Option.toList_none, List.map_nil,
      List.append_nil, List.flatMap_cons, commentMarks_append]
    exact hsorted.trans (hadded.trans (hstart.append_right _))

/-! ## Statements put together -/

theorem comments_ofSingle
    (index : Nat) {r : RawStatement} (h : ∀ t ∈ r.pragmas, t.isComment = false) :
    (ofSingle index r).comments.Perm (commentMarks r.body) := by
  simpa [ofSingle, Statement.comments, Body.comments] using comments_finish h

end Assembly

/-- A statement that has another comment behind it carries that one instead. -/
theorem Statement.comments_setTrailing (s : Statement) (comment : Option Comment) :
    ((s.setTrailing comment).comments ++ s.trailing?.toList.map Comment.mark).Perm
      (s.comments ++ comment.toList.map Comment.mark) := by
  rw [List.perm_iff_count]
  intro mark
  unfold setTrailing trailing?
  cases hbody : s.body with
  | plain cells =>
      simp only [comments, hbody, Body.comments, List.count_append]
      omega
  | chain c =>
      cases hlast : c.entries.getLast? with
      | none =>
          simp only [hlast, comments, hbody, Body.comments, List.count_append]
          omega
      | some e =>
          obtain ⟨init, hinit⟩ := List.getLast?_eq_some_iff.mp hlast
          cases e with
          | remark remark =>
              simp only [hlast, comments, hbody, Body.comments, List.count_append]
              omega
          | member cells trailing =>
              simp only [hinit, List.getLast?_concat, List.dropLast_concat, comments, hbody,
                Body.comments, List.flatMap_append, List.flatMap_singleton, Entry.comments,
                List.count_append]
              omega

namespace Assembly

/-- A comment between statements is carried by the statement in front of it or by its own. -/
theorem comments_addComment
    {index : Nat} {previous finished : Option Statement} {s : Statement} {t : Token}
    (h : addComment index previous (RawStatement.ofComment t) = .ok (finished, s)) :
    (finished.toList.flatMap Statement.comments ++ s.comments).Perm
      (previous.toList.flatMap Statement.comments ++ [t.mark]) := by
  have halone (inline : Bool) :
      (ofComment index (RawStatement.ofComment t)
        { value := t.text, inline, span := t.span }).comments = [t.mark] := rfl
  unfold addComment at h
  simp only [RawStatement.ofComment] at h
  obtain ⟨inline, -, hsplit⟩ := map_eq_ok_iff.mp h
  split at hsplit
  next previous =>
    split at hsplit
    next haccepts =>
      injection hsplit with hfinished hs
      subst hfinished hs
      have hfree : previous.trailing? = none := by
        simp only [acceptsTrailing, Bool.and_eq_true, Option.isNone_iff_eq_none] at haccepts
        exact haccepts.1.2
      have hswap := previous.comments_setTrailing
        (some { value := t.text, inline, span := t.span })
      simpa [hfree, Comment.mark, Token.mark] using hswap
    next =>
      injection hsplit with hfinished hs
      subst hfinished hs
      simpa using .refl _
  next =>
    injection hsplit with hfinished hs
    subst hfinished hs
    simpa using .refl _

/-- Every comment of the raw statements is carried by a statement, once. -/
theorem comments_buildFrom
    {index : Nat} {previous : Option Statement} {raws : List RawStatement}
    {statements : List Statement}
    (hgrouped : Grouped none raws)
    (hpragmas : ∀ r ∈ raws, ∀ t ∈ r.pragmas, t.isComment = false)
    (h : buildFrom index previous raws = .ok statements) :
    (statements.flatMap Statement.comments).Perm
      (previous.toList.flatMap Statement.comments ++ commentMarks (raws.flatMap (·.body))) := by
  fun_induction buildFrom index previous raws generalizing statements with
  | case1 index previous =>
      injection h with h
      simp [← h]
  | case2 => simp at h
  | case3 => simp at h
  | case4 index previous r rest colon hcolon n hextent s hchain ih =>
      obtain ⟨more, hmore, rfl⟩ := map_eq_ok_iff.mp h
      obtain ⟨shared, hopening, hall, hback, -⟩ := chainExtent_spec hgrouped hcolon hextent
      have htaken : ∀ p ∈ r :: rest.take n, ∀ t ∈ p.pragmas, t.isComment = false :=
        List.forall_mem_cons.mpr ⟨hpragmas r (by simp), fun p hp =>
          hpragmas p (by simp [List.mem_of_mem_take hp])⟩
      have hs := comments_ofChain hopening hall htaken hchain
      have hrest := ih hback (fun p hp => hpragmas p (by simp [List.mem_of_mem_drop hp])) hmore
      rw [List.flatMap_append]
      refine List.Perm.append_left _ (hrest.trans ?_)
      rw [← List.take_append_drop n rest, ← List.cons_append, List.flatMap_append,
        commentMarks_append]
      simpa using hs.append_right _
  | case5 => simp at h
  | case6 index previous r rest hcolon hkind finished s hadd ih =>
      obtain ⟨more, hmore, rfl⟩ := map_eq_ok_iff.mp h
      obtain ⟨t, ht, rfl, hrest⟩ := Grouped.of_comment hgrouped hkind
      have hadded := comments_addComment hadd
      have hmore := ih hrest (fun p hp => hpragmas p (by simp [hp])) hmore
      rw [List.flatMap_append, List.flatMap_cons, commentMarks_append, ← List.append_assoc]
      refine (hmore.append_left _).trans ?_
      rw [← List.append_assoc]
      refine List.Perm.append_right _ ?_
      simpa [RawStatement.ofComment, commentMarks_cons_of_comment ht] using hadded
  | case7 index previous r rest hcolon hkind ih =>
      obtain ⟨more, hmore, rfl⟩ := map_eq_ok_iff.mp h
      obtain ⟨body, pragmas, -, rfl, hrest⟩ := Grouped.of_plain hgrouped hcolon hkind
      have hs := comments_ofSingle index
        (hpragmas (RawStatement.ofTokens .none body pragmas) (by simp))
      have hmore := ih hrest (fun p hp => hpragmas p (by simp [hp])) hmore
      rw [List.flatMap_append, List.flatMap_cons, commentMarks_append]
      refine List.Perm.append_left _ (hmore.trans ?_)
      simpa using hs.append_right _

end Assembly

/-! ## Comments of a source -/

/-- What raw statements hold is what stands in front of the colons of chains, and their bodies. -/
theorem RawStatement.perm_unrolled
    (begun : List Token) (raws : List RawStatement) :
    (unrolled begun raws).Perm (openings begun raws ++ raws.flatMap (·.body)) := by
  induction raws generalizing begun with
  | nil => exact .refl _
  | cons r rest ih =>
      rw [unrolled, openings, List.flatMap_cons, List.append_assoc, List.append_assoc]
      refine List.Perm.append_left _ (((ih _).append_left r.body).trans ?_)
      rw [← List.append_assoc, ← List.append_assoc]
      exact List.perm_append_comm.append_right _

theorem perm_commentMarks {ts us : List Token} (h : ts.Perm us) :
    (commentMarks ts).Perm (commentMarks us) :=
  (h.filter _).map _

/-- No pragma is a comment. -/
theorem commentMarks_filter_isPragma (ts : List Token) :
    commentMarks (ts.filter fun t => !t.isPragma) = commentMarks ts := by
  rw [commentMarks, commentMarks, List.filter_filter]
  congr 1
  refine List.filter_congr fun t _ => ?_
  cases hcomment : t.isComment with
  | true => simp [Unfinished.isPragma_eq_false_of_isComment hcomment]
  | false => rfl

/-- The statements of a source carry its comments, each once, but for those among the words that the
members of a chain share. -/
theorem assemble_comments
    {source : Text} {filename : Option String} {raws : List RawStatement}
    {statements : List Statement} (hsplit : Source.split source filename = .ok raws)
    (h : assemble raws = .ok statements) :
    ∃ ts, Source.tokens source = .ok ts ∧
      (commentMarks (RawStatement.openings [] raws) ++
        statements.flatMap Statement.comments).Perm (commentMarks ts) := by
  obtain ⟨ts, hts, hraws⟩ := Source.tokens_of_split hsplit
  have hlexed := Source.lexed_of_mem_tokens hts
  have hrun := Unfinished.run_of_statements hlexed hraws
  have hpragmas : ∀ r ∈ raws, ∀ t ∈ r.pragmas, t.isComment = false := by
    intro r hr t ht
    have hpragma := (pragmasApart_of_statements hlexed hraws r hr).2 t ht
    simp only [Token.isPragma, Token.isComment, beq_iff_eq, beq_eq_false_iff_ne] at hpragma ⊢
    simp [hpragma]
  have hcarried : (statements.flatMap Statement.comments).Perm
      (commentMarks (raws.flatMap (·.body))) := by
    simpa using Assembly.comments_buildFrom (hrun.grouped (.inl rfl)) hpragmas h
  have hunrolled := perm_commentMarks (RawStatement.perm_unrolled [] raws)
  rw [commentMarks_append] at hunrolled
  have hsame := perm_commentMarks (hrun.sameTokens_of_nodup (nodup_of_tokenizeLines hts)).perm
  rw [commentMarks_filter_isPragma] at hsame
  exact ⟨ts, hts, (hcarried.append_left _).trans (hunrolled.symm.trans hsame)⟩

end AbapLayout
