import AbapLayout.Proofs.Splitting
import AbapLayout.Statement.Assembly

/-!
# Rows of tokens

A row is a stretch of tokens that are printed behind one another: the tokens of a statement, the
words that the members of a chain share, the colon behind them, or the tokens of one member.  The
shared words and the colon of a chain are rows once, in front of its first member, and the pragmas
of a statement or member stand directly in front of its period or comma.

Read one after the other, the rows have the code tokens of the source and its pragmas, each in the
order of the source (`filter_isCode_rows`, `filter_isPragma_rows`).
-/

namespace AbapLayout

/-- The rows of what the members of a chain share. -/
def Opening.rows : Opening → List (List Token)
  | .shared words colon => [words.filter fun t => !t.isComment, [colon]]
  | _ => []

namespace RawStatement

/-- The own tokens of a statement or member: the first sign comment is taken out, and the pragmas
stand in front of the last token. -/
def row (r : RawStatement) : List Token :=
  let own := (Assembly.takeSignComment r.body).2
  own.dropLast ++ r.pragmas ++ own.getLast?.toList

/-- The rows of raw statements.  `goesOn` says whether the first of them that is no comment goes on
a chain. -/
def rows (goesOn : Bool) : List RawStatement → List (List Token)
  | [] => []
  | r :: rest =>
    if r.kind = .comment then rows goesOn rest
    else
      (if goesOn then [] else r.opening.rows) ++
        r.row :: rows (r.colon?.isSome && !Assembly.endsInPeriod r) rest

end RawStatement

/-! ## The row of a statement or member -/

theorem Token.isComment_eq_false_of_punctuation
    {t : Token} (h : t.role = .punctuation) :
    t.isComment = false := by
  simp [Token.isComment, h]

namespace Assembly

theorem takeSignComment_append_singleton
    (ts : List Token) {last : Token} (h : last.isComment = false) :
    (takeSignComment (ts ++ [last])).2 = (takeSignComment ts).2 ++ [last] := by
  have hlast : last.isSignComment = false := by simp [Token.isSignComment, h]
  induction ts with
  | nil => simp [takeSignComment, hlast]
  | cons t ts ih =>
      rw [List.cons_append, takeSignComment, takeSignComment]
      split
      · rfl
      · simp [ih]

theorem takeSignComment_sublist (ts : List Token) : (takeSignComment ts).2.Sublist ts := by
  induction ts with
  | nil => simp [takeSignComment]
  | cons t ts ih =>
      rw [takeSignComment]
      split
      · exact List.sublist_cons_self t ts
      · exact ih.cons_cons t

theorem filter_takeSignComment
    {p : Token → Bool} (h : ∀ t, t.isComment = true → p t = false) (ts : List Token) :
    (takeSignComment ts).2.filter p = ts.filter p := by
  induction ts with
  | nil => rfl
  | cons t ts ih =>
      rw [takeSignComment]
      split
      next hsign =>
        have hcomment : t.isComment = true := by
          rw [Token.isSignComment, Bool.and_eq_true] at hsign
          exact hsign.1
        simp [h t hcomment]
      next => simp only [List.filter_cons, ih]

end Assembly

namespace RawStatement

theorem kind_ofTokens_ne_comment
    {sign : Char} {opening : Opening} {body pragmas : List Token} (h : EndsIn sign body) :
    (ofTokens opening body pragmas).kind ≠ .comment := by
  obtain ⟨init, last, rfl, hrole, -⟩ := h
  refine Kind.classify_ne_comment (t := last) ?_ hrole
  simp

theorem endsInPeriod_ofTokens
    {sign : Char} {opening : Opening} {body pragmas : List Token} (h : EndsIn sign body) :
    Assembly.endsInPeriod (ofTokens opening body pragmas) = (sign == '.') := by
  obtain ⟨init, last, rfl, -, htext⟩ := h
  simp [Assembly.endsInPeriod, tokens, ofTokens, htext, ← List.append_assoc]

theorem row_ofTokens
    (opening : Opening) (init pragmas : List Token) {last : Token}
    (hrole : last.role = .punctuation) :
    (ofTokens opening (init ++ [last]) pragmas).row =
      (Assembly.takeSignComment init).2 ++ pragmas ++ [last] := by
  have hlast := Token.isComment_eq_false_of_punctuation hrole
  simp [row, ofTokens, Assembly.takeSignComment_append_singleton init hlast]

theorem rows_comment
    (goesOn : Bool) (t : Token) (raws : List RawStatement) :
    rows goesOn (ofComment t :: raws) = rows goesOn raws := by
  simp [rows, ofComment]

theorem rows_ofTokens
    {sign : Char} {opening : Opening} {body pragmas : List Token}
    (goesOn : Bool) (h : EndsIn sign body) (raws : List RawStatement) :
    rows goesOn (ofTokens opening body pragmas :: raws) =
      (if goesOn then [] else opening.rows) ++
        (ofTokens opening body pragmas).row ::
          rows (opening.colon?.isSome && sign != '.') raws := by
  rw [rows, if_neg (kind_ofTokens_ne_comment h), endsInPeriod_ofTokens h]
  rfl

end RawStatement

/-! ## Code tokens -/

theorem Token.isCode_eq_false_of_isComment (t : Token) (h : t.isComment = true) :
    t.isCode = false := by
  simp [Token.isCode, h]

theorem filter_isCode_pragmas
    {pragmas : List Token} (h : ∀ t ∈ pragmas, t.isPragma = true) :
    pragmas.filter Token.isCode = [] := by
  rw [List.filter_eq_nil_iff]
  intro t ht
  simp [Token.isCode, h t ht]

theorem Opening.filter_isCode_rows (opening : Opening) :
    opening.rows.flatten.filter Token.isCode = opening.tokens.filter Token.isCode := by
  cases opening with
  | none => rfl
  | stray colon => rfl
  | shared words colon =>
      have hwords : (words.filter fun t => !t.isComment).filter Token.isCode =
          words.filter Token.isCode := by
        rw [List.filter_filter]
        congr 1
        funext t
        cases hc : t.isComment <;> simp [Token.isCode, hc]
      simp [rows, tokens, hwords]

namespace Unfinished

open RawStatement

theorem filter_isCode_row
    (opening : Opening) (init : List Token) {pragmas : List Token} {last : Token}
    (hrole : last.role = .punctuation) (hpragmas : ∀ t ∈ pragmas, t.isPragma = true) :
    (ofTokens opening (init ++ [last]) pragmas).row.filter Token.isCode =
      (init ++ [last]).filter Token.isCode := by
  rw [row_ofTokens opening init pragmas hrole, List.filter_append, List.filter_append,
    Assembly.filter_takeSignComment Token.isCode_eq_false_of_isComment,
    filter_isCode_pragmas hpragmas, List.append_nil, List.filter_append]

theorem filter_isCode_rows_ofTokens
    {sign : Char} {opening : Opening} {init pragmas : List Token} {last : Token} (goesOn : Bool)
    (hends : EndsIn sign (init ++ [last])) (hrole : last.role = .punctuation)
    (hpragmas : ∀ t ∈ pragmas, t.isPragma = true) (raws : List RawStatement) :
    (rows goesOn (ofTokens opening (init ++ [last]) pragmas :: raws)).flatten.filter
        Token.isCode =
      (if goesOn then [] else opening.tokens.filter Token.isCode) ++
        ((init ++ [last]).filter Token.isCode ++
          (rows (opening.colon?.isSome && sign != '.') raws).flatten.filter Token.isCode) := by
  rw [rows_ofTokens goesOn hends, List.flatten_append,
    List.flatten_cons, List.filter_append, List.filter_append,
    filter_isCode_row opening init hrole hpragmas]
  cases goesOn with
  | true => rfl
  | false => rw [← opening.filter_isCode_rows]; rfl

/-- The rows of the statements lose no code token of the source and move none. -/
theorem filter_isCode_rows
    {u : Unfinished} {ts : List Token} {raws : List RawStatement} (goesOn : Bool)
    (hlexed : ∀ t ∈ ts, t.Lexed) (hpragmas : ∀ t ∈ u.pragmas, t.isPragma = true)
    (hgoesOn : goesOn = true → u.chain.isSome = true)
    (h : u.statements ts = .ok raws) :
    (rows goesOn raws).flatten.filter Token.isCode =
      (if goesOn then [] else u.opening.tokens.filter Token.isCode) ++
        (u.pending.filter Token.isCode ++ ts.filter Token.isCode) := by
  have hrun := run_of_statements hlexed h
  clear h hlexed
  induction hrun generalizing goesOn with
  | done hpending hchain => simp [rows, hpending, opening, hchain, Opening.tokens]
  | @remark u t ts raws hcomment _ ih =>
      have hno := t.isCode_eq_false_of_isComment hcomment
      simpa [rows_comment, hno] using ih goesOn hpragmas hgoesOn
  | @hold u v t ts raws _ hpending hsame hchain _ ih =>
      have htail := ih goesOn (hsame ▸ hpragmas) (hchain ▸ hgoesOn)
      rw [hpending, opening_congr hchain, List.filter_append, List.append_assoc,
        ← List.filter_append] at htail
      exact htail
  | @pragma u t ts raws hpragma _ ih =>
      have hno : t.isCode = false := by simp [Token.isCode, hpragma]
      have hall : ∀ s ∈ u.pragmas ++ [t], s.isPragma = true := by
        intro s hs
        rw [List.mem_append, List.mem_singleton] at hs
        rcases hs with hs | rfl
        · exact hpragmas s hs
        · exact hpragma
      simpa [hno, opening] using ih goesOn hall hgoesOn
  | @colon u t ts raws hcolon hnone _ ih =>
      have hfalse : goesOn = false := by
        rw [Bool.eq_false_iff]
        intro htrue
        simpa [hnone] using hgoesOn htrue
      have hyes : t.isCode = true := by
        simp [Token.isCode, Token.isComment, Token.isPragma, hcolon]
      simpa [hfalse, opening, hnone, Opening.tokens, hyes] using ih false hpragmas (by simp)
  | @period u t ts raws hrole hdot _ ih =>
      have hends : EndsIn '.' (u.pending ++ [t]) := ⟨u.pending, t, rfl, hrole, hdot⟩
      rw [filter_isCode_rows_ofTokens goesOn hends hrole hpragmas, bne_self_eq_false,
        Bool.and_false, ih false (by simp) (by simp)]
      simp [opening, Opening.tokens, ← List.filter_append]
  | @comma u t ts raws shared colon depth hrole hcomma hchain _ ih =>
      have hends : EndsIn ',' (u.pending ++ [t]) := ⟨u.pending, t, rfl, hrole, hcomma⟩
      have hon : ((Opening.shared shared colon).colon?.isSome && ',' != '.') = true := rfl
      rw [filter_isCode_rows_ofTokens goesOn hends hrole hpragmas, hon,
        ih true (by simp) (by simp), opening_of_chain hchain]
      simp [← List.filter_append]

end Unfinished

/-! ## Pragmas -/

/-- Pragmas stand apart from the other tokens of a statement. -/
def RawStatement.PragmasApart (r : RawStatement) : Prop :=
  (∀ t ∈ r.tokens, t.isPragma = false) ∧ ∀ t ∈ r.pragmas, t.isPragma = true

theorem pragmasApart_of_statements
    {ts : List Token} {raws : List RawStatement}
    (hlexed : ∀ t ∈ ts, t.Lexed) (h : ({} : Unfinished).statements ts = .ok raws) :
    ∀ r ∈ raws, r.PragmasApart := by
  intro r hr
  have hdraws := (Unfinished.run_of_statements hlexed h).draws r hr
  constructor
  · intro t ht
    have hmem : t ∈ ts.filter fun t => !t.isPragma := by
      rcases List.mem_append.mp ht with ht | ht
      · simpa [Unfinished.opening, Opening.tokens] using hdraws.opening ht
      · simpa using hdraws.body.subset ht
    simpa using (List.mem_filter.mp hmem).2
  · intro t ht
    have hmem : t ∈ ts.filter Token.isPragma := by simpa using hdraws.pragmas ht
    exact (List.mem_filter.mp hmem).2

namespace RawStatement

theorem filter_isPragma_row
    {r : RawStatement} (h : r.PragmasApart) :
    r.row.filter Token.isPragma = r.pragmas := by
  have hown : ∀ t ∈ (Assembly.takeSignComment r.body).2, t.isPragma = false := fun t ht =>
    h.1 t (List.mem_append.mpr (.inr ((Assembly.takeSignComment_sublist r.body).subset ht)))
  have hinit : (Assembly.takeSignComment r.body).2.dropLast.filter Token.isPragma = [] := by
    rw [List.filter_eq_nil_iff]
    intro t ht
    simp [hown t (List.dropLast_subset _ ht)]
  have hlast :
      (Assembly.takeSignComment r.body).2.getLast?.toList.filter Token.isPragma = [] := by
    rw [List.filter_eq_nil_iff]
    intro t ht
    simp [hown t (List.mem_of_getLast? (by simpa using ht))]
  rw [row, List.filter_append, List.filter_append, hinit, hlast, List.filter_eq_self.mpr h.2]
  simp

theorem filter_isPragma_openingRows
    {r : RawStatement} (h : r.PragmasApart) :
    r.opening.rows.flatten.filter Token.isPragma = [] := by
  rw [List.filter_eq_nil_iff]
  intro t ht
  have hmem : t ∈ r.opening.tokens := by
    cases hopening : r.opening with
    | none => simp [hopening, Opening.rows] at ht
    | stray colon => simp [hopening, Opening.rows] at ht
    | shared words colon =>
        simp only [hopening, Opening.rows, List.flatten_cons, List.flatten_nil, List.append_nil,
          List.mem_append, List.mem_filter, List.mem_singleton] at ht
        rcases ht with ht | rfl
        · simp [Opening.tokens, ht.1]
        · simp [Opening.tokens]
  simp [h.1 t (List.mem_append.mpr (.inl hmem))]

/-- The rows of the statements have their pragmas, in the same order. -/
theorem filter_isPragma_rows
    {raws : List RawStatement} (goesOn : Bool)
    (hapart : ∀ r ∈ raws, r.PragmasApart)
    (hcomment : ∀ r ∈ raws, r.kind = .comment → r.pragmas = []) :
    (rows goesOn raws).flatten.filter Token.isPragma = raws.flatMap (·.pragmas) := by
  induction raws generalizing goesOn with
  | nil => rfl
  | cons r rest ih =>
      have hr := hapart r (by simp)
      have hrest := fun goesOn => ih goesOn (fun s hs => hapart s (by simp [hs]))
        (fun s hs => hcomment s (by simp [hs]))
      rw [rows, List.flatMap_cons]
      split
      next hkind => simp [hrest, hcomment r (by simp) hkind]
      next =>
        rw [List.flatten_append, List.flatten_cons, List.filter_append, List.filter_append,
          filter_isPragma_row hr, hrest]
        cases goesOn with
        | true => rfl
        | false => simp [filter_isPragma_openingRows hr]

end RawStatement

theorem Grouped.pragmas_of_comment
    {chain : Option (List Token × Token)} {raws : List RawStatement} (h : Grouped chain raws) :
    ∀ r ∈ raws, r.kind = .comment → r.pragmas = [] := by
  induction h with
  | nil => simp
  | comment t _ _ ih =>
      intro r hr hkind
      rw [List.mem_cons] at hr
      rcases hr with rfl | hr
      · rfl
      · exact ih r hr hkind
  | plain hends _ ih | member _ hends _ ih | last _ hends _ ih =>
      intro r hr hkind
      rw [List.mem_cons] at hr
      rcases hr with rfl | hr
      · exact absurd hkind (RawStatement.kind_ofTokens_ne_comment hends)
      · exact ih r hr hkind

/-- A raw statement that is no comment ends in a period or comma. -/
theorem Grouped.endsIn
    {chain : Option (List Token × Token)} {raws : List RawStatement} (h : Grouped chain raws) :
    ∀ r ∈ raws, r.kind ≠ .comment → ∃ opening sign body pragmas,
      (sign = '.' ∨ sign = ',') ∧ EndsIn sign body ∧
        r = RawStatement.ofTokens opening body pragmas := by
  induction h with
  | nil => simp
  | comment t _ _ ih =>
      intro r hr hkind
      rw [List.mem_cons] at hr
      rcases hr with rfl | hr
      · exact absurd rfl hkind
      · exact ih r hr hkind
  | plain hends _ ih | last _ hends _ ih =>
      intro r hr hkind
      rw [List.mem_cons] at hr
      rcases hr with rfl | hr
      · exact ⟨_, '.', _, _, .inl rfl, hends, rfl⟩
      · exact ih r hr hkind
  | member _ hends _ ih =>
      intro r hr hkind
      rw [List.mem_cons] at hr
      rcases hr with rfl | hr
      · exact ⟨_, ',', _, _, .inr rfl, hends, rfl⟩
      · exact ih r hr hkind

end AbapLayout
