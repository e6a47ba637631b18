import AbapLayout.Layout.Document
import AbapLayout.Proofs.Rows

/-!
# The rows of statements

Putting raw statements together to statements moves comments about and nothing else: the rows of the
statements are the rows of the raw statements (`rows_assemble`).  Three things have to be seen for
this.  The raw statements that are taken for a chain are those that were cut as one
(`chainExtent_spec`); sorting the entries of a chain by line keeps the order of its members, because
their first tokens stand on ascending lines (`filterMap_row?_sortEntries`); and the comment behind a
statement is not part of a row.

Moving brackets up changes where lines end and merges comments, so it keeps the rows as well
(`rows_reposition`).
-/

namespace AbapLayout

/-- The row of an entry of a chain, if it is a member. -/
def Entry.row? : Entry → Option (List Token)
  | .member cells _ => some (cells.map (·.token))
  | .remark _ => none

@[simp] theorem Entry.row?_member (cells : List Cell) (trailing : Option Comment) :
    (Entry.member cells trailing).row? = some (cells.map (·.token)) := rfl

@[simp] theorem Entry.row?_remark (comment : Comment) : (Entry.remark comment).row? = none := rfl

/-- The rows of a statement; a comment that stands alone has none. -/
def Body.rows : Body → List (List Token)
  | .plain [] => []
  | .plain (cell :: cells) => [(cell :: cells).map (·.token)]
  | .chain c => c.words :: [c.colon] :: c.entries.filterMap Entry.row?

def Statement.rows (s : Statement) : List (List Token) :=
  s.body.rows

namespace Assembly

/-! ## The cells of a statement or member -/

theorem map_token_link (ts : List Token) : (link ts).map (·.token) = ts := by
  fun_induction link ts with
  | case1 => rfl
  | case2 t => rfl
  | case3 t u rest ih => simpa using ih

theorem map_token_placePragmas
    {cells : List Cell} {init : List Token} {last : Token} (pragmas : List Token)
    (hcells : cells.map (·.token) = init ++ [last]) (hlast : last.isTerminator = true) :
    (placePragmas pragmas cells).map (·.token) = init ++ pragmas ++ [last] := by
  obtain ⟨front, back, rfl, rfl, hback⟩ := List.map_eq_append_iff.mp hcells
  obtain ⟨cell, rfl, rfl⟩ := List.map_eq_singleton_iff.mp hback
  simp [placePragmas, hlast, List.map_map, Function.comp_def]

theorem isTerminator_of_endsIn
    {sign : Char} {last : Token} (hsign : sign = '.' ∨ sign = ',')
    (hrole : last.role = .punctuation) (htext : last.text = [sign]) :
    last.isTerminator = true := by
  rw [Token.isTerminator, Bool.and_eq_true, Token.isOneOf_iff]
  refine ⟨by simp [hrole], ?_⟩
  rcases hsign with rfl | rfl
  · exact ⟨".", by simp, by simp [htext]⟩
  · exact ⟨",", by simp, by simp [htext]⟩

/-- The cells of a statement or member hold its row. -/
theorem map_token_finish
    {sign : Char} {body : List Token} (opening : Opening) (pragmas : List Token)
    (hsign : sign = '.' ∨ sign = ',') (h : EndsIn sign body) :
    (finish body pragmas).1.map (·.token) = (RawStatement.ofTokens opening body pragmas).row := by
  obtain ⟨init, last, rfl, hrole, htext⟩ := h
  have hlast := Token.isComment_eq_false_of_punctuation hrole
  rw [RawStatement.row_ofTokens opening init pragmas hrole, finish]
  dsimp only
  rw [takeSignComment_append_singleton init hlast]
  exact map_token_placePragmas pragmas (map_token_link _)
    (isTerminator_of_endsIn hsign hrole htext)

/-! ## The raw statements of a chain -/

/-- A member of a chain or a comment between its members. -/
def InChain (shared : List Token) (colon : Token) (r : RawStatement) : Prop :=
  (∃ t, t.isComment = true ∧ r = RawStatement.ofComment t) ∨
    ∃ sign body pragmas, (sign = '.' ∨ sign = ',') ∧ EndsIn sign body ∧
      r = RawStatement.ofTokens (.shared shared colon) body pragmas

def memberRows (raws : List RawStatement) : List (List Token) :=
  (raws.filter fun r => r.colon?.isSome).map RawStatement.row

@[simp] theorem memberRows_nil : memberRows [] = [] := rfl

@[simp] theorem memberRows_append (raws more : List RawStatement) :
    memberRows (raws ++ more) = memberRows raws ++ memberRows more := by
  simp [memberRows]

@[simp] theorem memberRows_comment (t : Token) (raws : List RawStatement) :
    memberRows (RawStatement.ofComment t :: raws) = memberRows raws := by
  simp [memberRows, RawStatement.colon?, RawStatement.ofComment, Opening.colon?]

@[simp] theorem memberRows_member
    (shared : List Token) (colon : Token) (body pragmas : List Token) (raws : List RawStatement) :
    memberRows (RawStatement.ofTokens (.shared shared colon) body pragmas :: raws) =
      (RawStatement.ofTokens (.shared shared colon) body pragmas).row :: memberRows raws := by
  rw [memberRows, List.filter_cons_of_pos (by rfl)]
  rfl

theorem sharesColon_self
    (shared : List Token) (colon : Token) (body pragmas : List Token) :
    sharesColon colon (RawStatement.ofTokens (.shared shared colon) body pragmas) = true := by
  simp [sharesColon, RawStatement.colon?, RawStatement.ofTokens, Opening.colon?]

theorem eq_of_sameChain
    {chain : Option (List Token × Token)} {shared words : List Token} {colon other : Token}
    (h : some (shared, colon) = chain) (hsame : chain = none ∨ chain = some (words, other)) :
    shared = words ∧ colon = other := by
  subst h
  rcases hsame with hsame | hsame
  · simp at hsame
  · simp only [Option.some.injEq, Prod.mk.injEq] at hsame
    exact hsame

/-- An open chain goes up to the member that ends in a period, and up to there reach the candidates
for its members. -/
theorem candidates_of_grouped
    {shared : List Token} {colon : Token} {raws : List RawStatement}
    (h : Grouped (some (shared, colon)) raws) :
    ∃ init last back, raws = init ++ last :: back ∧
      candidates colon false raws = init ++ [last] ∧ last.colon?.isSome = true ∧
      (∀ r ∈ init ++ [last], InChain shared colon r) ∧ Grouped none back ∧
      RawStatement.rows true raws =
        memberRows (init ++ [last]) ++ RawStatement.rows false back := by
  generalize hchain : some (shared, colon) = chain at h
  induction h with
  | nil => simp at hchain
  | @comment chain raws t ht _ ih =>
      obtain ⟨init, last, back, rfl, hcand, hlast, hall, hback, hrows⟩ := ih hchain
      refine ⟨RawStatement.ofComment t :: init, last, back, rfl, ?_, hlast, ?_, hback, ?_⟩
      · simp [candidates, sharesColon, RawStatement.colon?, RawStatement.ofComment, Opening.colon?,
          hcand]
      · intro r hr
        rw [List.cons_append, List.mem_cons] at hr
        rcases hr with rfl | hr
        · exact .inl ⟨t, ht, rfl⟩
        · exact hall r hr
      · rw [RawStatement.rows_comment, hrows, List.cons_append, memberRows_comment]
  | plain => simp at hchain
  | @member chain words sign body pragmas raws hsame hends _ ih =>
      obtain ⟨rfl, rfl⟩ := eq_of_sameChain hchain hsame
      obtain ⟨init, last, back, rfl, hcand, hlast, hall, hback, hrows⟩ := ih rfl
      refine ⟨RawStatement.ofTokens (.shared shared colon) body pragmas :: init, last, back, rfl,
        ?_, hlast, ?_, hback, ?_⟩
      · rw [candidates, if_neg (by simp), if_pos (sharesColon_self shared colon body pragmas),
          RawStatement.endsInPeriod_ofTokens hends]
        simp [hcand]
      · intro r hr
        rw [List.cons_append, List.mem_cons] at hr
        rcases hr with rfl | hr
        · exact .inr ⟨',', body, pragmas, .inr rfl, hends, rfl⟩
        · exact hall r hr
      · rw [RawStatement.rows_ofTokens true hends, List.cons_append, memberRows_member]
        simpa [Opening.colon?] using hrows
  | @last chain words sign body pragmas raws hsame hends hrest ih =>
      obtain ⟨rfl, rfl⟩ := eq_of_sameChain hchain hsame
      refine ⟨[], RawStatement.ofTokens (.shared shared colon) body pragmas, raws, rfl, ?_, rfl, ?_,
        hrest, ?_⟩
      · rw [candidates, if_neg (by simp), if_pos (sharesColon_self shared colon body pragmas),
          RawStatement.endsInPeriod_ofTokens hends]
        cases raws <;> simp [candidates]
      · intro r hr
        rw [List.nil_append, List.mem_singleton] at hr
        exact .inr ⟨'.', body, pragmas, .inl rfl, hends, hr⟩
      · rw [RawStatement.rows_ofTokens true hends, List.nil_append, memberRows_member]
        simp

theorem dropComments_append_singleton
    (init : List RawStatement) {last : RawStatement} (h : last.colon?.isSome = true) :
    dropComments (init ++ [last]) = init ++ [last] := by
  have hno : last.colon?.isNone = false := by
    cases hcolon : last.colon? <;> simp_all
  simp [dropComments, hno]

/-- The raw statements of a chain stand in front of others: they make its members and the comments
between and behind them. -/
structure ChainAhead (shared : List Token) (colon : Token) (first : RawStatement)
    (front back : List RawStatement) : Prop where
  members : ∀ r ∈ first :: front, InChain shared colon r
  grouped : Grouped none back
  rows : RawStatement.rows false (first :: (front ++ back)) =
    [shared.filter fun t => !t.isComment, [colon]] ++ memberRows (first :: front) ++
      RawStatement.rows false back

/-- The raw statements of a chain are those that share the opening of the first one, with the
comments between them. -/
theorem members_of_grouped
    {colon : Token} {first : RawStatement} {rest : List RawStatement}
    (hgrouped : Grouped none (first :: rest)) (hcolon : first.colon? = some colon) :
    ∃ shared front back, first.opening = .shared shared colon ∧ rest = front ++ back ∧
      dropComments (candidates colon (endsInPeriod first) rest) = front ∧
      ChainAhead shared colon first front back := by
  cases hgrouped with
  | comment t _ _ => simp [RawStatement.colon?, RawStatement.ofComment, Opening.colon?] at hcolon
  | plain => simp [RawStatement.colon?, RawStatement.ofTokens, Opening.colon?] at hcolon
  | @member _ shared own body pragmas _ _ hends hrest =>
      have hown : own = colon := Option.some.inj hcolon
      subst hown
      obtain ⟨init, last, back, rfl, hcand, hlast, hall, hback, hrows⟩ :=
        candidates_of_grouped hrest
      refine ⟨shared, init ++ [last], back, rfl, by simp, ?_, ?_, hback, ?_⟩
      · rw [RawStatement.endsInPeriod_ofTokens hends, show (',' == '.') = false by decide, hcand,
          dropComments_append_singleton init hlast]
      · intro r hr
        rw [List.mem_cons] at hr
        rcases hr with rfl | hr
        · exact .inr ⟨',', body, pragmas, .inr rfl, hends, rfl⟩
        · exact hall r hr
      · rw [RawStatement.rows_ofTokens false hends, memberRows_member]
        simpa [Opening.colon?, Opening.rows] using hrows
  | @last _ shared own body pragmas _ _ hends hrest =>
      have hown : own = colon := Option.some.inj hcolon
      subst hown
      refine ⟨shared, [], rest, rfl, rfl, ?_, ?_, hrest, ?_⟩
      · rw [RawStatement.endsInPeriod_ofTokens hends]
        cases rest <;> simp [candidates, dropComments]
      · intro r hr
        rw [List.mem_singleton] at hr
        exact .inr ⟨'.', body, pragmas, .inl rfl, hends, hr⟩
      · rw [RawStatement.rows_ofTokens false hends, memberRows_member]
        simp [Opening.rows]

/-- A comment right behind a chain is a comment. -/
theorem kind_of_closesChain
    {last next : RawStatement} (h : closesChain last next = .ok true) :
    next.kind = .comment := by
  unfold closesChain at h
  split at h
  next hkind => exact hkind
  next => simp at h

theorem Grouped.of_comment
    {r : RawStatement} {raws : List RawStatement}
    (h : Grouped none (r :: raws)) (hkind : r.kind = .comment) :
    ∃ t, t.isComment = true ∧ r = RawStatement.ofComment t ∧ Grouped none raws := by
  cases h with
  | comment t ht hrest => exact ⟨t, ht, rfl, hrest⟩
  | plain hends _ | member _ hends _ | last _ hends _ =>
      exact absurd hkind (RawStatement.kind_ofTokens_ne_comment hends)

/-- A raw statement that is neither a comment nor a member of a chain goes up to a period. -/
theorem Grouped.of_plain
    {r : RawStatement} {raws : List RawStatement} (h : Grouped none (r :: raws))
    (hcolon : r.colon? = none) (hkind : r.kind ≠ .comment) :
    ∃ body pragmas, EndsIn '.' body ∧ r = RawStatement.ofTokens .none body pragmas ∧
      Grouped none raws := by
  cases h with
  | comment t _ _ => exact absurd rfl hkind
  | plain hends hrest => exact ⟨_, _, hends, rfl, hrest⟩
  | member | last => simp [RawStatement.colon?, RawStatement.ofTokens, Opening.colon?] at hcolon

/-- A comment right behind a chain may count as a part of it. -/
theorem ChainAhead.comment
    {shared : List Token} {colon t : Token} {first : RawStatement} {front more : List RawStatement}
    (h : ChainAhead shared colon first front (RawStatement.ofComment t :: more))
    (ht : t.isComment = true) (hmore : Grouped none more) :
    ChainAhead shared colon first (front ++ [RawStatement.ofComment t]) more where
  members := by
    intro r hr
    rw [← List.cons_append, List.mem_append, List.mem_singleton] at hr
    rcases hr with hr | rfl
    · exact h.members r hr
    · exact .inl ⟨t, ht, rfl⟩
  grouped := hmore
  rows := by
    rw [List.append_assoc, List.singleton_append, h.rows, RawStatement.rows_comment,
      ← List.cons_append, memberRows_append, memberRows_comment, memberRows_nil, List.append_nil]

/-- What is taken off the raw statements for a chain: its members with the comments between them,
and at most one comment behind them. -/
theorem chainExtent_spec
    {colon : Token} {first : RawStatement} {rest : List RawStatement} {n : Nat}
    (hgrouped : Grouped none (first :: rest)) (hcolon : first.colon? = some colon)
    (h : chainExtent colon first rest = .ok n) :
    ∃ shared, first.opening = .shared shared colon ∧
      ChainAhead shared colon first (rest.take n) (rest.drop n) := by
  obtain ⟨shared, front, back, hopening, rfl, hmembers, hahead⟩ :=
    members_of_grouped hgrouped hcolon
  unfold chainExtent at h
  rw [hmembers] at h
  dsimp only at h
  rw [List.drop_left] at h
  have hown : n = front.length →
      ChainAhead shared colon first ((front ++ back).take n) ((front ++ back).drop n) := by
    rintro rfl
    rwa [List.take_left, List.drop_left]
  refine ⟨shared, hopening, ?_⟩
  split at h
  next =>
    injection h with h
    exact hown h.symm
  next next more =>
    obtain ⟨closes, hcloses, hn⟩ := map_eq_ok_iff.mp h
    cases closes with
    | false => exact hown hn.symm
    | true =>
        obtain ⟨t, ht, rfl, hmore⟩ := Grouped.of_comment hahead.grouped (kind_of_closesChain hcloses)
        have hlength : n = (front ++ [RawStatement.ofComment t]).length := by simpa using hn.symm
        rw [List.append_cons front (RawStatement.ofComment t) more, hlength, List.take_left,
          List.drop_left]
        exact hahead.comment ht hmore

/-! ## The entries of a chain -/

theorem Draft.rows_start
    (before : List Entry) (r : RawStatement) :
    (Draft.start before r).entries.filterMap Entry.row? =
      before.filterMap Entry.row? ++ [(finish r.body r.pragmas).1.map (·.token)] := by
  simp [Draft.start, Draft.entries]

theorem Draft.rows_addComment
    (d : Draft) (t : Token) :
    (d.addComment t).entries.filterMap Entry.row? = d.entries.filterMap Entry.row? := by
  unfold Draft.addComment
  dsimp only
  split <;> simp [Draft.entries]

/-- A member adds its row to a draft, and a comment adds none. -/
theorem Draft.rows_add
    {shared : List Token} {colon : Token} {d d' : Draft} {r : RawStatement}
    (hr : InChain shared colon r) (h : d.add r = .ok d') :
    d'.entries.filterMap Entry.row? = d.entries.filterMap Entry.row? ++ memberRows [r] := by
  rcases hr with ⟨t, -, rfl⟩ | ⟨sign, body, pragmas, hsign, hends, rfl⟩
  · injection h with h
    rw [← h, memberRows_comment, memberRows_nil, List.append_nil]
    exact d.rows_addComment t
  · injection h with h
    rw [← h, memberRows_member, memberRows_nil]
    rw [Draft.rows_start, ← map_token_finish (.shared shared colon) pragmas hsign hends]
    rfl

theorem Draft.rows_addAll
    {shared : List Token} {colon : Token} {d d' : Draft} {raws : List RawStatement}
    (hall : ∀ r ∈ raws, InChain shared colon r) (h : d.addAll raws = .ok d') :
    d'.entries.filterMap Entry.row? = d.entries.filterMap Entry.row? ++ memberRows raws := by
  induction raws generalizing d with
  | nil =>
      injection h with h
      simp [h]
  | cons r rest ih =>
      rw [Draft.addAll] at h
      split at h
      · simp at h
      next next hadd =>
        have hstep := Draft.rows_add (hall r (by simp)) hadd
        have hmore := ih (fun s hs => hall s (by simp [hs])) h
        rw [hmore, hstep, List.append_assoc, ← memberRows_append, List.singleton_append]

/-- The line on which a row starts, zero if it is empty. -/
def headLine : List Token → Nat
  | [] => 0
  | t :: _ => t.span.startLine

theorem startLine_of_row?
    {e : Entry} {row : List Token} (h : e.row? = some row) :
    e.startLine = headLine row := by
  cases e with
  | remark comment => simp [Entry.row?] at h
  | member cells trailing =>
      injection h with h
      cases cells with
      | nil => simp [← h, Entry.startLine, headLine]
      | cons cell cells => simp [← h, Entry.startLine, headLine]

theorem perm_insertEntry (e : Entry) (entries : List Entry) :
    (insertEntry e entries).Perm (e :: entries) := by
  induction entries with
  | nil => exact .refl _
  | cons f rest ih =>
      rw [insertEntry]
      split
      · exact .refl _
      · exact (ih.cons f).trans (.swap e f rest)

/-- Sorting entries loses none and adds none. -/
theorem perm_sortEntries (entries : List Entry) : (sortEntries entries).Perm entries := by
  induction entries with
  | nil => exact .refl _
  | cons e rest ih => exact (perm_insertEntry e (sortEntries rest)).trans (ih.cons e)

/-- A member is put in front of all members that begin on its line or later. -/
theorem filterMap_row?_insertEntry
    {e : Entry} {entries : List Entry}
    (h : ∀ row, e.row? = some row → ∀ later ∈ entries.filterMap Entry.row?,
      headLine row ≤ headLine later) :
    (insertEntry e entries).filterMap Entry.row? = (e :: entries).filterMap Entry.row? := by
  induction entries with
  | nil => rfl
  | cons f rest ih =>
      rw [insertEntry]
      split
      · rfl
      next hlate =>
        have hrest := ih fun row hrow later hlater =>
          h row hrow later (List.mem_filterMap.mpr
            ((List.mem_filterMap.mp hlater).imp fun g hg => ⟨List.mem_cons_of_mem _ hg.1, hg.2⟩))
        rw [List.filterMap_cons, hrest]
        -- The entry passes `f`, which begins on an earlier line: one of the two is no member.
        cases he : e.row? with
        | none => simp [he, List.filterMap_cons]
        | some row =>
            cases hf : f.row? with
            | none => simp [he, hf]
            | some later =>
                have hle := h row he later (by simp [hf])
                rw [← startLine_of_row? he, ← startLine_of_row? hf] at hle
                exact absurd hle hlate

/-- Members whose rows start on ascending lines keep their order when entries are sorted. -/
theorem filterMap_row?_sortEntries
    {entries : List Entry}
    (h : (entries.filterMap Entry.row?).Pairwise fun a b => headLine a ≤ headLine b) :
    (sortEntries entries).filterMap Entry.row? = entries.filterMap Entry.row? := by
  induction entries with
  | nil => rfl
  | cons e rest ih =>
      rw [List.filterMap_cons] at h
      have hrest : (rest.filterMap Entry.row?).Pairwise fun a b => headLine a ≤ headLine b := by
        split at h
        · exact h
        · exact (List.pairwise_cons.mp h).2
      rw [sortEntries, List.foldr_cons, ← sortEntries, filterMap_row?_insertEntry,
        List.filterMap_cons, List.filterMap_cons, ih hrest]
      intro row hrow later hlater
      rw [ih hrest] at hlater
      rw [hrow] at h
      exact (List.pairwise_cons.mp h).1 later hlater

theorem mem_of_mem_row
    {r : RawStatement} {t : Token} (h : t ∈ r.row) :
    t ∈ r.body ++ r.pragmas := by
  have hsub := (takeSignComment_sublist r.body).subset
  simp only [RawStatement.row, List.mem_append, Option.mem_toList] at h ⊢
  rcases h with (h | h) | h
  · exact .inl (hsub (List.dropLast_subset _ h))
  · exact .inr h
  · exact .inl (hsub (List.mem_of_getLast? h))

/-- The rows of members that come in the order of the source start on ascending lines. -/
theorem memberRows_ascending
    {raws : List RawStatement}
    (hordered : raws.Pairwise Unfinished.Precedes)
    (hmembers : ∀ r ∈ raws, r.colon?.isSome = true → r.kind ≠ .comment ∧ r.row ≠ []) :
    (memberRows raws).Pairwise fun a b => headLine a ≤ headLine b := by
  rw [memberRows, List.pairwise_map, List.pairwise_filter]
  refine hordered.imp_of_mem ?_
  intro r s hr hs hprecedes hcolon hcolon'
  obtain ⟨hkind, hrow⟩ := hmembers r hr hcolon
  obtain ⟨-, hrow'⟩ := hmembers s hs hcolon'
  obtain ⟨t, ts, hrow⟩ := List.exists_cons_of_ne_nil hrow
  obtain ⟨v, vs, hrow'⟩ := List.exists_cons_of_ne_nil hrow'
  rw [hrow, hrow']
  exact hprecedes hkind t (mem_of_mem_row (by simp [hrow])) v (mem_of_mem_row (by simp [hrow']))

theorem InChain.member
    {shared : List Token} {colon : Token} {r : RawStatement}
    (h : InChain shared colon r) (hcolon : r.colon?.isSome = true) :
    r.kind ≠ .comment ∧ r.row ≠ [] := by
  rcases h with ⟨t, -, rfl⟩ | ⟨sign, body, pragmas, -, hends, rfl⟩
  · simp [RawStatement.colon?, RawStatement.ofComment, Opening.colon?] at hcolon
  · refine ⟨RawStatement.kind_ofTokens_ne_comment hends, ?_⟩
    obtain ⟨init, last, rfl, hrole, -⟩ := hends
    rw [RawStatement.row_ofTokens _ init pragmas hrole]
    simp

/-- The members of a draft are those among its raw statements, in their order. -/
theorem Draft.rows_of_members
    {shared : List Token} {colon : Token} {first : RawStatement} {rest : List RawStatement}
    {d : Draft} (hopening : first.opening = .shared shared colon)
    (hall : ∀ r ∈ first :: rest, InChain shared colon r)
    (h : (Draft.start [] first).addAll rest = .ok d) :
    d.entries.filterMap Entry.row? = memberRows (first :: rest) := by
  have hentries := Draft.rows_addAll (fun r hr => hall r (by simp [hr])) h
  have hstart : (Draft.start [] first).entries.filterMap Entry.row? = memberRows [first] := by
    rcases hall first (by simp) with ⟨t, -, rfl⟩ | ⟨sign, body, pragmas, hsign, hends, rfl⟩
    · simp [RawStatement.ofComment] at hopening
    · rw [Draft.rows_start, memberRows_member, memberRows_nil,
        ← map_token_finish (.shared shared colon) pragmas hsign hends]
      rfl
  rwa [hstart, ← memberRows_append, List.singleton_append] at hentries

/-- The rows of a chain are those of its raw statements. -/
theorem rows_ofChain
    {index : Nat} {shared : List Token} {colon : Token} {first : RawStatement}
    {rest : List RawStatement} {s : Statement}
    (hopening : first.opening = .shared shared colon)
    (hall : ∀ r ∈ first :: rest, InChain shared colon r)
    (hordered : (first :: rest).Pairwise Unfinished.Precedes)
    (h : ofChain index first rest = .ok s) :
    s.rows = [shared.filter fun t => !t.isComment, [colon]] ++ memberRows (first :: rest) := by
  unfold ofChain at h
  rw [hopening] at h
  dsimp only at h
  split at h
  · simp at h
  next keyword others hwords =>
    obtain ⟨draft, hdraft, rfl⟩ := map_eq_ok_iff.mp h
    have hentries := Draft.rows_of_members hopening hall hdraft
    have hascending := memberRows_ascending hordered fun r hr => (hall r hr).member
    rw [← hentries] at hascending
    simp only [Statement.rows, Body.rows, Chain.words, filterMap_row?_sortEntries hascending,
      hentries, hwords]
    rfl

end Assembly

/-- The comment behind a statement is not part of its rows. -/
@[simp] theorem Statement.rows_setTrailing
    (s : Statement) (comment : Option Comment) :
    (s.setTrailing comment).rows = s.rows := by
  unfold setTrailing
  split
  next hbody => simp [rows, hbody]
  next c hbody =>
    split
    next cells trailing hlast =>
      obtain ⟨init, hinit⟩ := List.getLast?_eq_some_iff.mp hlast
      simp [rows, hbody, Body.rows, Chain.words, hinit]
    next => simp [rows, hbody]

namespace Assembly

theorem rows_ofSingle
    (index : Nat) {body : List Token} (pragmas : List Token) (h : EndsIn '.' body) :
    (ofSingle index (RawStatement.ofTokens .none body pragmas)).rows =
      [(RawStatement.ofTokens .none body pragmas).row] := by
  have htokens := map_token_finish .none pragmas (.inl rfl) h
  have hne : (RawStatement.ofTokens .none body pragmas).row ≠ [] := by
    obtain ⟨init, last, rfl, hrole, -⟩ := h
    rw [RawStatement.row_ofTokens _ init pragmas hrole]
    simp
  have hcells : (ofSingle index (RawStatement.ofTokens .none body pragmas)).body =
      .plain (finish body pragmas).1 := rfl
  rw [Statement.rows, hcells]
  cases hfinish : (finish body pragmas).1 with
  | nil =>
      rw [hfinish] at htokens
      exact absurd htokens.symm hne
  | cons cell cells =>
      rw [hfinish] at htokens
      rw [Body.rows, htokens]

/-- A comment between statements adds no row. -/
theorem rows_addComment
    {index : Nat} {previous finished : Option Statement} {s : Statement} {r : RawStatement}
    (h : addComment index previous r = .ok (finished, s)) :
    finished.toList.flatMap Statement.rows ++ s.rows =
      previous.toList.flatMap Statement.rows := by
  unfold addComment at h
  split at h
  · simp at h
  next t _ _ =>
    obtain ⟨inline, -, hsplit⟩ := map_eq_ok_iff.mp h
    dsimp only at hsplit
    split at hsplit
    next previous =>
      split at hsplit
      · injection hsplit with hfinished hs
        simp [← hfinished, ← hs]
      · injection hsplit with hfinished hs
        simp [← hfinished, ← hs, ofComment, Statement.rows, Body.rows]
    next =>
      injection hsplit with hfinished hs
      simp [← hfinished, ← hs, ofComment, Statement.rows, Body.rows]

/-- The rows of the statements are those of the raw statements they are built from. -/
theorem rows_buildFrom
    {index : Nat} {previous : Option Statement} {raws : List RawStatement}
    {statements : List Statement}
    (hgrouped : Grouped none raws) (hordered : raws.Pairwise Unfinished.Precedes)
    (h : buildFrom index previous raws = .ok statements) :
    statements.flatMap Statement.rows =
      previous.toList.flatMap Statement.rows ++ RawStatement.rows false raws := by
  fun_induction buildFrom index previous raws generalizing statements with
  | case1 index previous =>
      injection h with h
      simp [← h, RawStatement.rows]
  | case2 => simp at h
  | case3 => simp at h
  | case4 index previous r rest colon hcolon n hextent s hchain ih =>
      obtain ⟨more, hmore, rfl⟩ := map_eq_ok_iff.mp h
      obtain ⟨shared, hopening, hall, hback, hrows⟩ := chainExtent_spec hgrouped hcolon hextent
      have htaken : (r :: rest.take n).Pairwise Unfinished.Precedes :=
        hordered.sublist ((List.take_sublist n rest).cons_cons r)
      have hleft : (rest.drop n).Pairwise Unfinished.Precedes :=
        (List.pairwise_cons.mp hordered).2.sublist (List.drop_sublist n rest)
      rw [List.take_append_drop] at hrows
      rw [List.flatMap_append, ih hback hleft hmore, hrows,
        ← rows_ofChain hopening hall htaken hchain]
      simp
  | case5 => simp at h
  | case6 index previous r rest hcolon hkind finished s hadd ih =>
      obtain ⟨more, hmore, rfl⟩ := map_eq_ok_iff.mp h
      obtain ⟨t, -, rfl, hrest⟩ := Grouped.of_comment hgrouped hkind
      rw [List.flatMap_append, ih hrest (List.pairwise_cons.mp hordered).2 hmore,
        RawStatement.rows_comment, ← rows_addComment hadd]
      simp
  | case7 index previous r rest hcolon hkind ih =>
      obtain ⟨more, hmore, rfl⟩ := map_eq_ok_iff.mp h
      obtain ⟨body, pragmas, hends, rfl, hrest⟩ := Grouped.of_plain hgrouped hcolon hkind
      rw [List.flatMap_append, ih hrest (List.pairwise_cons.mp hordered).2 hmore,
        RawStatement.rows_ofTokens false hends]
      simp [rows_ofSingle index _ hends, Opening.rows, Opening.colon?]

end Assembly

theorem rows_assemble
    {raws : List RawStatement} {statements : List Statement}
    (hgrouped : Grouped none raws) (hordered : raws.Pairwise Unfinished.Precedes)
    (h : assemble raws = .ok statements) :
    statements.flatMap Statement.rows = RawStatement.rows false raws := by
  simpa using Assembly.rows_buildFrom hgrouped hordered h

/-! ## Moving brackets up -/

/-- Cells dealt out to entries change nothing in them but the cells: what depends on the tokens only
stays the same. -/
theorem Entry.map_deal
    {α : Type} {g : Entry → α}
    (hg : ∀ cells own trailing, cells.map (·.token) = own.map (·.token) →
      g (.member cells trailing) = g (.member own trailing))
    {cells : List Cell} {entries : List Entry}
    (h : cells.map (·.token) = (entries.flatMap Entry.cells).map (·.token)) :
    (Entry.deal cells entries).map g = entries.map g := by
  induction entries generalizing cells with
  | nil => rfl
  | cons e rest ih =>
      rw [List.flatMap_cons, List.map_append] at h
      cases e with
      | remark comment =>
          rw [deal, List.map_cons, List.map_cons]
          exact congrArg _ (ih h)
      | member own trailing =>
          have htake : (cells.take own.length).map (·.token) = own.map (·.token) := by
            rw [List.map_take, h]
            simp [Entry.cells]
          have hdrop : (cells.drop own.length).map (·.token) =
              (rest.flatMap Entry.cells).map (·.token) := by
            rw [List.map_drop, h]
            simp [Entry.cells]
          rw [deal, List.map_cons, List.map_cons, hg _ own trailing htake, ih hdrop]

theorem Entry.filterMap_row?_deal
    {cells : List Cell} {entries : List Entry}
    (h : cells.map (·.token) = (entries.flatMap Entry.cells).map (·.token)) :
    (Entry.deal cells entries).filterMap Entry.row? = entries.filterMap Entry.row? := by
  have hrows : (Entry.deal cells entries).map Entry.row? = entries.map Entry.row? := by
    refine Entry.map_deal ?_ h
    intro cells own trailing htokens
    rw [row?_member, row?_member, htokens]
  simpa [List.filterMap_map] using congrArg (List.filterMap id) hrows

theorem Body.rows_withCells
    {b : Body} {cells : List Cell} (h : cells.map (·.token) = b.cells.map (·.token)) :
    (b.withCells cells).rows = b.rows := by
  cases b with
  | plain own =>
      cases own with
      | nil =>
          have hnil : cells = [] := List.map_eq_nil_iff.mp h
          rw [withCells, hnil]
      | cons cell own =>
          obtain ⟨cell', cells', rfl, -, -⟩ := List.map_eq_cons_iff.mp h
          rw [withCells, rows, rows, h]
          rfl
  | chain c =>
      rw [withCells, rows, rows, Entry.filterMap_row?_deal h]
      rfl

namespace Bracket

@[simp] theorem token_settle (c : Cell) (following : Option Cell) :
    (settle c following).token = c.token := by
  cases following <;> rfl

theorem map_token_sweepFrom (c : Cell) (cells : List Cell) :
    (sweepFrom c cells).map (·.token) = c.token :: cells.map (·.token) := by
  induction cells generalizing c with
  | nil => rfl
  | cons next rest ih =>
      rw [sweepFrom]
      split
      · rw [List.map_cons, ih]
        split <;> simp
      · rw [List.map_cons, ih]
        rfl

theorem map_token_sweep (cells : List Cell) :
    (sweep cells).map (·.token) = cells.map (·.token) := by
  cases cells with
  | nil => rfl
  | cons c rest => exact map_token_sweepFrom c rest

theorem map_token_breakBeforePeriod (cells : List Cell) :
    (breakBeforePeriod cells).map (·.token) = cells.map (·.token) := by
  fun_induction breakBeforePeriod cells with
  | case1 => rfl
  | case2 c previous rest _ ih => simp [ih]
  | case3 => rfl

theorem rows_sweepStatement (s : Statement) : (sweepStatement s).rows = s.rows :=
  Body.rows_withCells (map_token_sweep s.cells)

theorem rows_forcePeriodLine (s : Statement) : (forcePeriodLine s).rows = s.rows := by
  refine Body.rows_withCells ?_
  rw [List.map_reverse, map_token_breakBeforePeriod, List.map_reverse, List.reverse_reverse]
  rfl

theorem rows_receive (s : Statement) (incoming : Comment) : (receive s incoming).rows = s.rows := by
  unfold receive
  dsimp only
  split
  · exact rows_forcePeriodLine { s with post := some incoming }
  · exact s.rows_setTrailing _

/-- What a statement keeps when its brackets move up, it takes over a comment or its own comment is
replaced, all statements keep. -/
theorem map_reposition
    {α : Type} {g : Statement → α} (hswept : ∀ s, g (sweepStatement s) = g s)
    (hreceived : ∀ s incoming, g (receive s incoming) = g s)
    (htrailing : ∀ (s : Statement) comment, g (s.setTrailing comment) = g s)
    (statements : List Statement) :
    (reposition statements).map g = statements.map g := by
  have hmerged : ∀ rest s, (mergeFrom s rest).map g = (s :: rest).map g := by
    intro rest
    induction rest with
    | nil => exact fun _ => rfl
    | cons next rest ih =>
        intro s
        rw [mergeFrom]
        split
        · rw [List.map_cons, ih, List.map_cons, hreceived, htrailing]
          rfl
        · rw [List.map_cons, ih]
          rfl
  cases statements with
  | nil => rfl
  | cons s rest =>
      rw [reposition, List.map_cons, mergeAll, hmerged, List.map_cons, List.map_map, hswept]
      exact congrArg (g s :: ·) (List.map_congr_left fun t _ => hswept t)

/-- Moving brackets up and merging comments changes no row. -/
theorem rows_reposition (statements : List Statement) :
    (reposition statements).flatMap Statement.rows = statements.flatMap Statement.rows := by
  rw [List.flatMap_def, List.flatMap_def, map_reposition rows_sweepStatement rows_receive]
  exact Statement.rows_setTrailing

end Bracket

theorem Layout.rows_arrange
    {raws : List RawStatement} {statements : List Statement}
    (hgrouped : Grouped none raws) (hordered : raws.Pairwise Unfinished.Precedes)
    (h : Layout.arrange raws = .ok statements) :
    statements.flatMap Statement.rows = RawStatement.rows false raws := by
  obtain ⟨assembled, hassembled, rfl⟩ := map_eq_ok_iff.mp h
  rw [Bracket.rows_reposition, ← rows_assemble hgrouped hordered hassembled,
    Layout.assignLevels, List.flatMap_map]
  rfl

end AbapLayout
