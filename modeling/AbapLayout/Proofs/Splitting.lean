import AbapLayout.Proofs.Lexing

/-!
# What cutting into statements keeps

The machine that cuts a source into raw statements takes one token at a time.  `Run` says in which
ways it can take a token of a source that is accepted; the properties of the raw statements follow
by induction on it.
-/

namespace AbapLayout
namespace Unfinished

/-! ## Pragmas -/

theorem push_pragmas (u : Unfinished) (t : Token) :
    (u.push t).1.toList.flatMap (·.pragmas) ++ (u.push t).2.pragmas =
      u.pragmas ++ [t].filter Token.isPragma := by
  have hcode (h : t.role ≠ .pragma) :
      (u.pushCode t).1.toList.flatMap (·.pragmas) ++ (u.pushCode t).2.pragmas =
        u.pragmas ++ [t].filter Token.isPragma := by
    have hno : t.isPragma = false := by simpa [Token.isPragma] using h
    unfold pushCode
    dsimp only
    split
    · split <;> simp [RawStatement.ofTokens, hno]
    · simp [hno]
  unfold push
  split
  next hrole =>
    have hno : t.isPragma = false := by simp [Token.isPragma, hrole]
    split <;> simp [RawStatement.ofComment, hno]
  next hrole =>
    have hyes : t.isPragma = true := by simp [Token.isPragma, hrole]
    simp [hyes]
  next hrole =>
    split
    · have hno : t.isPragma = false := by simp [Token.isPragma, hrole]
      simp [hno]
    · exact hcode (by simp [hrole])
  next _ hpragma _ => exact hcode hpragma

/-- Nothing is left over at the end of a source that is accepted. -/
theorem statements_nil
    {u : Unfinished} {raws : List RawStatement} (h : u.statements [] = .ok raws) :
    raws = [] ∧ u.pending = [] ∧ u.pragmas = [] ∧ u.chain = none := by
  rw [statements] at h
  split at h
  · simp at h
  next hleft =>
    injection h with h
    unfold leftover? at hleft
    split at hleft
    · simp at hleft
    · simp at hleft
    next hpending hpragmas =>
      rw [Option.map_eq_none_iff] at hleft
      rw [List.head?_eq_none_iff] at hpending hpragmas
      exact ⟨h.symm, hpending, hpragmas, hleft⟩

/-- The statement a token completes comes first, and the other tokens complete the others. -/
theorem statements_cons
    {u : Unfinished} {t : Token} {ts : List Token} {raws : List RawStatement}
    (h : u.statements (t :: ts) = .ok raws) :
    ∃ more, (u.push t).2.statements ts = .ok more ∧ raws = (u.push t).1.toList ++ more := by
  rw [statements] at h
  split at h
  next v hpush =>
    rw [hpush]
    exact ⟨raws, h, rfl⟩
  next s v hpush =>
    obtain ⟨more, hmore, rfl⟩ := map_eq_ok_iff.mp h
    rw [hpush]
    exact ⟨more, hmore, rfl⟩

/-- The pragmas of the statements are those of the source, in its order. -/
theorem statements_pragmas
    {u : Unfinished} {ts : List Token} {raws : List RawStatement}
    (h : u.statements ts = .ok raws) :
    raws.flatMap (·.pragmas) = u.pragmas ++ ts.filter Token.isPragma := by
  induction ts generalizing u raws with
  | nil =>
      obtain ⟨rfl, -, hpragmas, -⟩ := statements_nil h
      simp [hpragmas]
  | cons t ts ih =>
      obtain ⟨more, hmore, rfl⟩ := statements_cons h
      have hstep := push_pragmas u t
      rw [List.flatMap_append, ih hmore, ← List.append_assoc, hstep, List.append_assoc,
        ← List.filter_append, List.singleton_append]

/-! ## The shape of the statements -/

end Unfinished

theorem Kind.ofWords_ne_comment (first : String) (rest : List String) :
    Kind.ofWords first rest ≠ .comment := by
  unfold Kind.ofWords
  split
  next kind hkind =>
    obtain ⟨before, behind, hsplit, -⟩ := List.lookup_eq_some_iff.mp hkind
    have hmem : (first, kind) ∈ Kind.ofLeadingWord := by simp [hsplit]
    have htable : ∀ entry ∈ Kind.ofLeadingWord, entry.2 ≠ .comment := by decide
    exact htable (first, kind) hmem
  next =>
    split
    · split <;> simp
    · split <;> simp
    · split <;> simp
    · unfold Kind.ofClassWords
      split
      · simp
      split
      · simp
      split <;> simp
    · split <;> simp
    · split
      · split <;> simp
      · simp
    · simp

/-- A statement with a period or comma is no comment. -/
theorem Kind.classify_ne_comment
    {tokens : List Token} {t : Token} (ht : t ∈ tokens) (hrole : t.role = .punctuation) :
    Kind.classify tokens ≠ .comment := by
  unfold Kind.classify
  split
  next hwords =>
    have hmem : String.ofList t.upper ∈ Kind.tellingWords tokens := by
      refine List.mem_map.mpr ⟨t, List.mem_filter.mpr ⟨ht, ?_⟩, rfl⟩
      simp [hrole]
    simp [hwords] at hmem
  next first rest _ => exact Kind.ofWords_ne_comment first rest

/-- Tokens up to a period or comma, as the sign says. -/
def EndsIn (sign : Char) (body : List Token) : Prop :=
  ∃ init last, body = init ++ [last] ∧ last.role = .punctuation ∧ last.text = [sign]

/-- Raw statements as they are cut from a source: comments, statements up to a period, and chains
whose members share an opening and end in a comma, but for the last one.  The first argument is the
opening of the chain that is going on. -/
inductive Grouped : Option (List Token × Token) → List RawStatement → Prop where
  | nil : Grouped none []
  | comment {chain : Option (List Token × Token)} {raws : List RawStatement} (t : Token) :
      t.isComment = true → Grouped chain raws → Grouped chain (RawStatement.ofComment t :: raws)
  | plain {body pragmas : List Token} {raws : List RawStatement} :
      EndsIn '.' body → Grouped none raws →
      Grouped none (RawStatement.ofTokens .none body pragmas :: raws)
  | member {chain : Option (List Token × Token)} {shared : List Token} {colon : Token}
      {body pragmas : List Token} {raws : List RawStatement} :
      chain = none ∨ chain = some (shared, colon) → EndsIn ',' body →
      Grouped (some (shared, colon)) raws →
      Grouped chain (RawStatement.ofTokens (.shared shared colon) body pragmas :: raws)
  | last {chain : Option (List Token × Token)} {shared : List Token} {colon : Token}
      {body pragmas : List Token} {raws : List RawStatement} :
      chain = none ∨ chain = some (shared, colon) → EndsIn '.' body →
      Grouped none raws →
      Grouped chain (RawStatement.ofTokens (.shared shared colon) body pragmas :: raws)

namespace Unfinished

/-- What a code token that opens no chain does: it is held, or it ends a statement or member. -/
theorem pushCode_cases
    {u : Unfinished} {t : Token} (hlexed : t.Lexed) :
    (u.pushCode t).1 = none ∧ (u.pushCode t).2.pending = u.pending ++ [t] ∧
        (u.pushCode t).2.pragmas = u.pragmas ∧ (u.pushCode t).2.chain = u.chain ∨
    t.role = .punctuation ∧ t.text = ['.'] ∧
      u.pushCode t =
        (some (RawStatement.ofTokens u.opening (u.pending ++ [t]) u.pragmas), {}) ∨
    t.role = .punctuation ∧ t.text = [','] ∧ u.chain.isSome = true ∧
      u.pushCode t =
        (some (RawStatement.ofTokens u.opening (u.pending ++ [t]) u.pragmas),
          { chain := u.chain, depth := u.depthAfter t }) := by
  unfold pushCode
  dsimp only
  split
  next h =>
    obtain ⟨hrole, hends⟩ := h
    split
    next hdot => exact .inr (.inl ⟨hrole, hdot, rfl⟩)
    next hdot =>
      have hcomma : t.text = [','] := by
        rcases hlexed.separator_iff.1.mp hrole with h | h
        · exact absurd h hdot
        · exact h
      have hchain : u.chain.isSome = true := by
        rcases hends with h | h
        · exact absurd h hdot
        · exact h.1
      exact .inr (.inr ⟨hrole, hcomma, hchain, rfl⟩)
  next => exact .inl ⟨rfl, rfl, rfl, rfl⟩

/-- What a token does: a comment between statements stands alone; other comments and pragmas are
held; a colon may open a chain; other tokens are held or end a statement or member. -/
theorem push_cases (u : Unfinished) (t : Token) :
    t.isComment = true ∧ u.pending = [] ∧ u.push t = (some (RawStatement.ofComment t), u) ∨
    t.isComment = true ∧ u.push t = (none, { u with pending := u.pending ++ [t] }) ∨
    t.isPragma = true ∧ u.push t = (none, { u with pragmas := u.pragmas ++ [t] }) ∨
    t.role = .colon ∧ u.chain = none ∧
      u.push t = (none, { u with chain := some (u.pending, t), pending := [] }) ∨
    t.isCode = true ∧ u.push t = u.pushCode t := by
  unfold push
  split
  next hrole =>
    have hcomment : t.isComment = true := by simp [Token.isComment, hrole]
    split
    next hpending => exact .inl ⟨hcomment, by simpa using hpending, rfl⟩
    next => exact .inr (.inl ⟨hcomment, rfl⟩)
  next hrole => exact .inr (.inr (.inl ⟨by simp [Token.isPragma, hrole], rfl⟩))
  next hrole =>
    split
    next hopens =>
      exact .inr (.inr (.inr (.inl ⟨hrole, by simpa using hopens.1, rfl⟩)))
    next =>
      refine .inr (.inr (.inr (.inr ⟨?_, rfl⟩)))
      simp [Token.isCode, Token.isComment, Token.isPragma, hrole]
  next hcomment hpragma _ =>
    refine .inr (.inr (.inr (.inr ⟨?_, rfl⟩)))
    simpa [Token.isCode, Token.isComment, Token.isPragma] using ⟨hcomment, hpragma⟩

theorem opening_congr {u v : Unfinished} (h : v.chain = u.chain) : v.opening = u.opening := by
  simp [opening, h]

theorem opening_of_chain
    {u : Unfinished} {shared : List Token} {colon : Token} (h : u.chain = some (shared, colon)) :
    u.opening = .shared shared colon := by
  simp [opening, h]

/-- How the tokens of a source that is accepted are taken, and the statements that come of it. -/
inductive Run : Unfinished → List Token → List RawStatement → Prop where
  /-- Nothing is left over. -/
  | done {u : Unfinished} : u.pending = [] → u.chain = none → Run u [] []
  /-- A comment between statements stands alone. -/
  | remark {u : Unfinished} {t : Token} {ts : List Token} {raws : List RawStatement} :
      t.isComment = true → Run u ts raws → Run u (t :: ts) (RawStatement.ofComment t :: raws)
  /-- Other comments and most tokens of code are held. -/
  | hold {u v : Unfinished} {t : Token} {ts : List Token} {raws : List RawStatement} :
      t.isPragma = false → v.pending = u.pending ++ [t] → v.pragmas = u.pragmas →
      v.chain = u.chain → Run v ts raws → Run u (t :: ts) raws
  | pragma {u : Unfinished} {t : Token} {ts : List Token} {raws : List RawStatement} :
      t.isPragma = true → Run { u with pragmas := u.pragmas ++ [t] } ts raws → Run u (t :: ts) raws
  /-- A colon opens a chain. -/
  | colon {u : Unfinished} {t : Token} {ts : List Token} {raws : List RawStatement} :
      t.role = .colon → u.chain = none →
      Run { u with chain := some (u.pending, t), pending := [] } ts raws → Run u (t :: ts) raws
  /-- A period ends a statement, and the chain whose last member it is. -/
  | period {u : Unfinished} {t : Token} {ts : List Token} {raws : List RawStatement} :
      t.role = .punctuation → t.text = ['.'] → Run {} ts raws →
      Run u (t :: ts) (RawStatement.ofTokens u.opening (u.pending ++ [t]) u.pragmas :: raws)
  /-- A comma ends a member of a chain. -/
  | comma {u : Unfinished} {t : Token} {ts : List Token} {raws : List RawStatement}
      {shared : List Token} {colon : Token} {depth : Nat} :
      t.role = .punctuation → t.text = [','] → u.chain = some (shared, colon) →
      Run { chain := some (shared, colon), depth } ts raws →
      Run u (t :: ts)
        (RawStatement.ofTokens (.shared shared colon) (u.pending ++ [t]) u.pragmas :: raws)

theorem isPragma_eq_false_of_isComment
    {t : Token} (h : t.isComment = true) :
    t.isPragma = false := by
  rw [Token.isComment, beq_iff_eq] at h
  simp [Token.isPragma, h]

theorem run_of_statements
    {u : Unfinished} {ts : List Token} {raws : List RawStatement}
    (hlexed : ∀ t ∈ ts, t.Lexed) (h : u.statements ts = .ok raws) :
    Run u ts raws := by
  induction ts generalizing u raws with
  | nil =>
      obtain ⟨rfl, hpending, -, hchain⟩ := statements_nil h
      exact .done hpending hchain
  | cons t ts ih =>
      obtain ⟨more, hrest, rfl⟩ := statements_cons h
      have hrun := ih (fun s hs => hlexed s (by simp [hs])) hrest
      rcases push_cases u t with
        ⟨hcomment, -, hpush⟩ | ⟨hcomment, hpush⟩ | ⟨hpragma, hpush⟩ | ⟨hcolon, hnone, hpush⟩ |
        ⟨hcode, hpush⟩
      · rw [hpush] at hrun ⊢
        exact .remark hcomment hrun
      · rw [hpush] at hrun ⊢
        exact .hold (v := { u with pending := u.pending ++ [t] })
          (isPragma_eq_false_of_isComment hcomment) rfl rfl rfl hrun
      · rw [hpush] at hrun ⊢
        exact .pragma hpragma hrun
      · rw [hpush] at hrun ⊢
        exact .colon hcolon hnone hrun
      · rw [hpush] at hrun ⊢
        rcases pushCode_cases (hlexed t (by simp)) with
          ⟨hnone, hpending, hpragmas, hchain⟩ | ⟨hrole, hdot, hpushCode⟩ |
          ⟨hrole, hcomma, hsome, hpushCode⟩
        · rw [hnone]
          rw [Token.isCode, Bool.and_eq_true, Bool.not_eq_true', Bool.not_eq_true'] at hcode
          exact .hold hcode.2 hpending hpragmas hchain hrun
        · rw [hpushCode] at hrun ⊢
          exact .period hrole hdot hrun
        · obtain ⟨⟨shared, colon⟩, hchain⟩ := Option.isSome_iff_exists.mp hsome
          rw [hpushCode, hchain] at hrun
          rw [hpushCode, opening_of_chain hchain]
          exact .comma hrole hcomma hchain hrun

/-- The raw statements of a source are grouped into chains.  While a chain is open the groups can be
read from the middle of it or from its beginning. -/
theorem Run.grouped
    {u : Unfinished} {ts : List Token} {raws : List RawStatement}
    {chain : Option (List Token × Token)} (h : Run u ts raws)
    (hchain : chain = none ∨ chain = u.chain) :
    Grouped chain raws := by
  have hbegin {u : Unfinished} {chain : Option (List Token × Token)} (hnone : u.chain = none)
      (h : chain = none ∨ chain = u.chain) : chain = none :=
    h.elim id fun heq => heq.trans hnone
  induction h generalizing chain with
  | done _ hnone => exact hbegin hnone hchain ▸ .nil
  | remark hcomment _ ih => exact .comment _ hcomment (ih hchain)
  | hold _ _ _ hsame _ ih => exact ih (hsame ▸ hchain)
  | pragma _ _ ih => exact ih hchain
  | colon _ hnone _ ih => exact ih (.inl (hbegin hnone hchain))
  | @period u t _ _ hrole hdot _ ih =>
      have hends : EndsIn '.' (u.pending ++ [t]) := ⟨u.pending, t, rfl, hrole, hdot⟩
      cases hc : u.chain with
      | none =>
          rw [hbegin hc hchain, show u.opening = .none by simp [opening, hc]]
          exact .plain hends (ih (.inl rfl))
      | some c =>
          rw [opening_of_chain hc]
          exact .last (hc ▸ hchain) hends (ih (.inl rfl))
  | @comma u t _ _ _ _ _ hrole hcomma hc _ ih =>
      have hends : EndsIn ',' (u.pending ++ [t]) := ⟨u.pending, t, rfl, hrole, hcomma⟩
      exact .member (hc ▸ hchain) hends (ih (.inr rfl))

/-! ## Where the tokens of a statement come from -/

/-- The tokens of a statement are among the given ones, the own ones in the same order. -/
structure Draws (r : RawStatement) (opening own pragmas : List Token) : Prop where
  opening : r.opening.tokens ⊆ opening ++ own
  body : r.body.Sublist own
  pragmas : r.pragmas ⊆ pragmas

theorem Draws.mono
    {r : RawStatement} {opening own pragmas opening' own' pragmas' : List Token}
    (h : Draws r opening own pragmas) (hopening : opening ⊆ opening' ++ own')
    (hown : own.Sublist own') (hpragmas : pragmas ⊆ pragmas') :
    Draws r opening' own' pragmas' where
  opening := by
    intro t ht
    rcases List.mem_append.mp (h.opening ht) with ht | ht
    · exact hopening ht
    · exact List.mem_append.mpr (.inr (hown.subset ht))
  body := h.body.trans hown
  pragmas := fun _ ht => hpragmas (h.pragmas ht)

theorem isPragma_eq_false_of_role
    {t : Token} {role : Role} (h : t.role = role) (hrole : role ≠ .pragma) :
    t.isPragma = false := by
  simp [Token.isPragma, h, hrole]

/-- The statements hold no other tokens than those that were held and those that came. -/
theorem Run.draws
    {u : Unfinished} {ts : List Token} {raws : List RawStatement} (h : Run u ts raws) :
    ∀ r ∈ raws, Draws r u.opening.tokens (u.pending ++ ts.filter fun t => !t.isPragma)
      (u.pragmas ++ ts.filter Token.isPragma) := by
  induction h with
  | done => simp
  | remark hcomment _ ih =>
      have hno := isPragma_eq_false_of_isComment hcomment
      refine List.forall_mem_cons.mpr ⟨?_, fun r hr => (ih r hr).mono ?_ ?_ ?_⟩
      · constructor <;> simp [RawStatement.ofComment, Opening.tokens, hno]
      all_goals simp [hno]
  | hold hno hpending hpragmas hchain _ ih =>
      rw [hpending, hpragmas, opening_congr hchain] at ih
      exact fun r hr => (ih r hr).mono (by simp) (by simp [hno]) (by simp [hno])
  | pragma hyes _ ih =>
      exact fun r hr => (ih r hr).mono (by simp [opening]) (by simp [hyes]) (by simp [hyes])
  | colon hcolon _ _ ih =>
      have hno := isPragma_eq_false_of_role hcolon (by simp)
      intro r hr
      refine (ih r hr).mono ?_ ?_ ?_ <;> simp [hno, opening, Opening.tokens]
  | period hrole _ _ ih =>
      have hno := isPragma_eq_false_of_role hrole (by simp)
      refine List.forall_mem_cons.mpr ⟨?_, fun r hr => (ih r hr).mono ?_ ?_ ?_⟩
      · constructor <;> simp [RawStatement.ofTokens, hno]
      all_goals simp [hno, opening, Opening.tokens]
  | comma hrole _ hchain _ ih =>
      have hno := isPragma_eq_false_of_role hrole (by simp)
      rw [opening_of_chain hchain]
      refine List.forall_mem_cons.mpr ⟨?_, fun r hr => (ih r hr).mono ?_ ?_ ?_⟩
      · constructor <;> simp [RawStatement.ofTokens, hno]
      all_goals simp [hno, opening]

/-- A statement whose own tokens stand on no later lines than those of another.  Pragmas in front of
a comment belong to the statement behind it, so nothing is said about comments. -/
def Precedes (r s : RawStatement) : Prop :=
  r.kind ≠ .comment → ∀ t ∈ r.body ++ r.pragmas, ∀ v ∈ s.body ++ s.pragmas,
    t.span.startLine ≤ v.span.startLine

/-- Behind a statement that a token completes come tokens of later lines. -/
theorem Run.precedes
    {u v : Unfinished} {t : Token} {ts : List Token} {raws : List RawStatement} (h : Run v ts raws)
    (hempty : v.pending = [] ∧ v.pragmas = []) (opening : Opening)
    (hheld : ∀ w ∈ u.pending ++ [t] ++ u.pragmas, ∀ x ∈ ts, w.span.startLine ≤ x.span.startLine) :
    ∀ s ∈ raws, Precedes (RawStatement.ofTokens opening (u.pending ++ [t]) u.pragmas) s := by
  intro s hs _ w hw x hx
  have hdraws := h.draws s hs
  rw [hempty.1, hempty.2] at hdraws
  refine hheld w hw x ?_
  rcases List.mem_append.mp hx with hx | hx
  · exact (List.mem_filter.mp (hdraws.body.subset hx)).1
  · exact (List.mem_filter.mp (hdraws.pragmas hx)).1

/-- Statements come in the order of the lines on which their tokens stand. -/
theorem Run.ordered
    {u : Unfinished} {ts : List Token} {raws : List RawStatement} (h : Run u ts raws)
    (hlines : ts.Pairwise fun t v => t.span.startLine ≤ v.span.startLine)
    (hheld : ∀ t ∈ u.pending ++ u.pragmas, ∀ v ∈ ts, t.span.startLine ≤ v.span.startLine) :
    raws.Pairwise Precedes := by
  have hgrown {u : Unfinished} {t : Token} {ts : List Token}
      (hlines : (t :: ts).Pairwise fun t v => t.span.startLine ≤ v.span.startLine)
      (hheld : ∀ w ∈ u.pending ++ u.pragmas, ∀ v ∈ t :: ts, w.span.startLine ≤ v.span.startLine) :
      ∀ w ∈ u.pending ++ [t] ++ u.pragmas, ∀ v ∈ ts, w.span.startLine ≤ v.span.startLine := by
    intro w hw v hv
    simp only [List.mem_append, List.mem_singleton] at hw hheld
    rcases hw with (hw | rfl) | hw
    · exact hheld w (.inl hw) v (List.mem_cons_of_mem _ hv)
    · exact (List.pairwise_cons.mp hlines).1 v hv
    · exact hheld w (.inr hw) v (List.mem_cons_of_mem _ hv)
  induction h with
  | done => exact .nil
  | remark _ _ ih =>
      refine List.pairwise_cons.mpr ⟨fun s _ hkind => absurd rfl hkind, ?_⟩
      exact ih hlines.of_cons fun w hw v hv => hheld w hw v (List.mem_cons_of_mem _ hv)
  | hold _ hpending hpragmas _ _ ih =>
      refine ih hlines.of_cons ?_
      rw [hpending, hpragmas]
      exact hgrown hlines hheld
  | pragma _ _ ih =>
      refine ih hlines.of_cons fun w hw => hgrown hlines hheld w ?_
      simp only [List.mem_append, List.mem_singleton] at hw ⊢
      rcases hw with hw | hw | hw
      · exact .inl (.inl hw)
      · exact .inr hw
      · exact .inl (.inr hw)
  | colon _ _ _ ih =>
      refine ih hlines.of_cons fun w hw v hv => hheld w ?_ v (List.mem_cons_of_mem _ hv)
      exact List.mem_append.mpr (.inr hw)
  | period _ _ hrest ih =>
      exact List.pairwise_cons.mpr ⟨hrest.precedes ⟨rfl, rfl⟩ _ (hgrown hlines hheld),
        ih hlines.of_cons (by simp)⟩
  | comma _ _ _ hrest ih =>
      exact List.pairwise_cons.mpr ⟨hrest.precedes ⟨rfl, rfl⟩ _ (hgrown hlines hheld),
        ih hlines.of_cons (by simp)⟩

/-- The colon of a chain is a colon. -/
theorem Run.role_colon
    {u : Unfinished} {ts : List Token} {raws : List RawStatement} (h : Run u ts raws)
    (hcolon : ∀ colon, u.opening.colon? = some colon → colon.role = .colon) :
    ∀ r ∈ raws, ∀ colon, r.colon? = some colon → colon.role = .colon := by
  induction h with
  | done => simp
  | remark _ _ ih =>
      refine List.forall_mem_cons.mpr ⟨?_, ih hcolon⟩
      simp [RawStatement.ofComment, RawStatement.colon?, Opening.colon?]
  | hold _ _ _ hchain _ ih => exact ih (by rwa [opening_congr hchain])
  | pragma _ _ ih => exact ih hcolon
  | colon hrole _ _ ih => exact ih (by simp [opening, Opening.colon?, hrole])
  | period _ _ _ ih =>
      exact List.forall_mem_cons.mpr ⟨hcolon, ih (by simp [opening, Opening.colon?])⟩
  | comma _ _ hchain _ ih =>
      rw [opening_of_chain hchain] at hcolon
      exact List.forall_mem_cons.mpr ⟨hcolon, ih hcolon⟩

end Unfinished

namespace Source

/-- A source that is cut into statements is cut into tokens first. -/
theorem tokens_of_splitText
    {source : Text} {raws : List RawStatement}
    (h : splitText source = .ok raws) :
    ∃ ts, tokens source = .ok ts ∧ ({} : Unfinished).statements ts = .ok raws := by
  unfold splitText at h
  split at h
  · simp at h
  split at h
  · simp at h
  next ts hts => exact ⟨ts, hts, h⟩

theorem splitText_of_split
    {source : Text} {filename : Option String} {raws : List RawStatement}
    (h : split source filename = .ok raws) :
    splitText source = .ok raws := by
  unfold split at h
  split at h
  · exact h
  split at h
  · simp at h
  · exact h

theorem tokens_of_split
    {source : Text} {filename : Option String} {raws : List RawStatement}
    (h : split source filename = .ok raws) :
    ∃ ts, tokens source = .ok ts ∧ ({} : Unfinished).statements ts = .ok raws :=
  tokens_of_splitText (splitText_of_split h)

theorem statements_of_split
    {source : Text} {filename : Option String} {ts : List Token} {raws : List RawStatement}
    (hts : tokens source = .ok ts) (h : split source filename = .ok raws) :
    ({} : Unfinished).statements ts = .ok raws := by
  obtain ⟨ts', hts', hraws⟩ := tokens_of_split h
  rw [hts, Except.ok.injEq] at hts'
  exact hts' ▸ hraws

end Source
end AbapLayout
