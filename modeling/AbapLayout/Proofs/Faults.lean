import AbapLayout.Proofs.Nesting
import AbapLayout.Proofs.PrintedRows

/-!
# When formatting fails

A source that can be cut into statements is formatted unless one of its statements begins with a
colon: then there is no word in front of the colon for the members of the chain to share, and the
first such colon is reported (`format_error_iff`).

Nothing else can go wrong.  The raw statements of a source hold the colons they refer to, and every
statement put together from them stands somewhere and has lines to print.
-/

namespace AbapLayout

/-- The colon with which a raw statement begins, if its first code token is one. -/
def RawStatement.leadingColon? (r : RawStatement) : Option Token :=
  (r.tokens.find? Token.isCode).filter fun t => t.role == .colon

theorem map_eq_error_iff
    {ε α β : Type} {x : Except ε α} {f : α → β} {e : ε} :
    x.map f = .error e ↔ x = .error e := by
  cases x with
  | error e' => simp [Except.map]
  | ok a => simp [Except.map]

/-! ## How raw statements begin -/

/-- Tokens whose first one is code, but no colon. -/
def BeginsWithCode (ts : List Token) : Prop :=
  ∃ t rest, ts = t :: rest ∧ t.isCode = true ∧ t.role ≠ .colon

theorem BeginsWithCode.append {ts : List Token} (h : BeginsWithCode ts) (more : List Token) :
    BeginsWithCode (ts ++ more) := by
  obtain ⟨t, rest, rfl, ht⟩ := h
  exact ⟨t, rest ++ more, rfl, ht⟩

theorem BeginsWithCode.filter_ne_nil {ts : List Token} (h : BeginsWithCode ts) :
    (ts.filter fun t => !t.isComment) ≠ [] := by
  obtain ⟨t, rest, rfl, hcode, -⟩ := h
  have hcomment : t.isComment = false := by
    rw [Token.isCode, Bool.and_eq_true, Bool.not_eq_true'] at hcode
    exact hcode.1
  simp [hcomment]

/-- The words in front of a colon: there are none, or they begin with code. -/
def HeadsChain (words : List Token) (colon : Token) : Prop :=
  colon.role = .colon ∧ (words = [] ∨ BeginsWithCode words)

/-- How a raw statement begins: it is a comment, begins with code, or is a member of a chain. -/
def RawStatement.Headed (r : RawStatement) : Prop :=
  match r.opening with
  | .none => (∃ t, t.isComment = true ∧ r = RawStatement.ofComment t) ∨ BeginsWithCode r.body
  | .shared words colon => HeadsChain words colon
  | .stray _ => False

/-- How the statement that is being read begins.  As long as nothing is pending no bracket is open,
so a colon opens a chain. -/
def Unfinished.Headed (u : Unfinished) : Prop :=
  match u.chain with
  | none => u.pending = [] ∧ u.depth = 0 ∨ BeginsWithCode u.pending
  | some (words, colon) => HeadsChain words colon

namespace Unfinished

theorem Headed.ofTokens
    {u : Unfinished} {t : Token} (h : u.Headed) (hcode : t.isCode = true) (hcolon : t.role ≠ .colon)
    (pragmas : List Token) :
    (RawStatement.ofTokens u.opening (u.pending ++ [t]) pragmas).Headed := by
  unfold Headed at h
  cases hchain : u.chain with
  | none =>
      simp only [hchain] at h
      have hbegins : BeginsWithCode (u.pending ++ [t]) := by
        rcases h with ⟨hpending, -⟩ | h
        · exact ⟨t, [], by simp [hpending], hcode, hcolon⟩
        · exact h.append [t]
      simpa [RawStatement.Headed, RawStatement.ofTokens, opening, hchain] using Or.inr hbegins
  | some c =>
      simp only [hchain] at h
      simpa [RawStatement.Headed, RawStatement.ofTokens, opening, hchain] using h

/-- A code token that opens no chain keeps the beginning of what is being read. -/
theorem headed_pushCode
    {u : Unfinished} {t : Token} (h : u.Headed) (hcode : t.isCode = true)
    (hcolon : t.role = .colon → u.chain ≠ none ∨ u.depth ≠ 0) :
    (∀ r, (u.pushCode t).1 = some r → r.Headed) ∧ (u.pushCode t).2.Headed := by
  unfold pushCode
  dsimp only
  by_cases hends : t.role = .punctuation ∧
      (t.text = ['.'] ∨ u.chain.isSome = true ∧ u.depthAfter t = 0)
  · rw [if_pos hends]
    have hheaded := h.ofTokens hcode (by simp [hends.1]) u.pragmas
    by_cases hdot : t.text = ['.']
    · rw [if_pos hdot]
      exact ⟨by rintro r ⟨⟩; exact hheaded, .inl ⟨rfl, rfl⟩⟩
    · rw [if_neg hdot]
      refine ⟨by rintro r ⟨⟩; exact hheaded, ?_⟩
      obtain ⟨c, hchain⟩ := Option.isSome_iff_exists.mp (hends.2.resolve_left hdot).1
      simpa only [Headed, hchain] using h
  · rw [if_neg hends]
    refine ⟨by simp, ?_⟩
    unfold Headed at h ⊢
    cases hchain : u.chain with
    | some c => simpa only [hchain] using h
    | none =>
        simp only [hchain] at h ⊢
        refine .inr ?_
        rcases h with ⟨hpending, hdepth⟩ | h
        · refine ⟨t, [], by simp [hpending], hcode, fun hrole => ?_⟩
          rcases hcolon hrole with hopen | hopen
          · exact hopen hchain
          · exact hopen hdepth
        · exact h.append [t]

theorem headed_push {u : Unfinished} (t : Token) (h : u.Headed) :
    (∀ r, (u.push t).1 = some r → r.Headed) ∧ (u.push t).2.Headed := by
  have hheld : ∀ ts, u.pending ≠ [] →
      ({ u with pending := u.pending ++ ts } : Unfinished).Headed := by
    intro ts hne
    unfold Headed at h ⊢
    cases hchain : u.chain with
    | some c => simpa only [hchain] using h
    | none =>
        simp only [hchain] at h ⊢
        exact .inr ((h.resolve_left fun hempty => hne hempty.1).append ts)
  unfold push
  cases hrole : t.role with
  | comment =>
      have hcomment : t.isComment = true := by simp [Token.isComment, hrole]
      by_cases hpending : u.pending.isEmpty = true
      · simp only [if_pos hpending]
        refine ⟨?_, h⟩
        rintro r ⟨⟩
        exact .inl ⟨t, hcomment, rfl⟩
      · simp only [if_neg hpending]
        exact ⟨by simp, hheld [t] (by simpa using hpending)⟩
  | pragma => exact ⟨by simp, h⟩
  | colon =>
      have hcode : t.isCode = true := by simp [Token.isCode, Token.isComment, Token.isPragma, hrole]
      by_cases hopens : u.chain.isNone = true ∧ u.depth = 0
      · simp only [if_pos hopens]
        refine ⟨by simp, hrole, ?_⟩
        have hchain : u.chain = none := by simpa using hopens.1
        simp only [Headed, hchain] at h
        rcases h with ⟨hpending, -⟩ | h
        · exact .inl hpending
        · exact .inr h
      · simp only [if_neg hopens]
        refine headed_pushCode h hcode fun _ => ?_
        by_cases hdepth : u.depth = 0
        · exact .inl fun hchain => hopens ⟨by simp [hchain], hdepth⟩
        · exact .inr hdepth
  | word | punctuation | literal | arrow =>
      have hcode : t.isCode = true := by simp [Token.isCode, Token.isComment, Token.isPragma, hrole]
      exact headed_pushCode h hcode (by simp [hrole])

theorem headed_of_statements
    {u : Unfinished} {ts : List Token} {raws : List RawStatement}
    (hu : u.Headed) (h : u.statements ts = .ok raws) :
    ∀ r ∈ raws, r.Headed := by
  induction ts generalizing u raws with
  | nil =>
      obtain ⟨rfl, -⟩ := statements_nil h
      simp
  | cons t ts ih =>
      obtain ⟨more, hrest, rfl⟩ := statements_cons h
      obtain ⟨hstatement, hnext⟩ := headed_push t hu
      intro r hr
      rcases List.mem_append.mp hr with hr | hr
      · exact hstatement r (by simpa using hr)
      · exact ih hnext hrest r hr

end Unfinished

theorem BeginsWithCode.find?_append {ts : List Token} (h : BeginsWithCode ts) (more : List Token) :
    ((ts ++ more).find? Token.isCode).filter (fun t => t.role == .colon) = none := by
  obtain ⟨t, rest, rfl, hcode, hrole⟩ := h
  rw [List.cons_append, List.find?_cons_of_pos hcode, Option.filter, if_neg (by simpa using hrole)]

/-- A raw statement begins with a colon exactly if it is a member of a chain without shared words. -/
theorem RawStatement.Headed.leadingColon?_eq_some_iff
    {r : RawStatement} (h : r.Headed) {colon : Token} :
    r.leadingColon? = some colon ↔ r.opening = .shared [] colon := by
  unfold Headed at h
  unfold leadingColon? tokens
  cases hopening : r.opening with
  | none =>
      simp only [hopening] at h
      rw [Opening.tokens, List.nil_append]
      rcases h with ⟨t, ht, rfl⟩ | h
      · simp [ofComment, Token.isCode_eq_false_of_isComment t ht]
      · have hnone := h.find?_append []
        rw [List.append_nil] at hnone
        simp only [hnone, reduceCtorEq]
  | stray c => simp [hopening] at h
  | shared words c =>
      simp only [hopening] at h
      rw [Opening.tokens, List.append_assoc]
      obtain ⟨hrole, rfl | hwords⟩ := h
      · have hcode : c.isCode = true := by
          simp [Token.isCode, Token.isComment, Token.isPragma, hrole]
        rw [List.nil_append, List.singleton_append, List.find?_cons_of_pos hcode, Option.filter,
          if_pos (by simpa using hrole)]
        simp
      · rw [hwords.find?_append]
        obtain ⟨t, rest, rfl, -⟩ := hwords
        simp

/-! ## Putting statements together -/

/-- A statement that stands somewhere and was put together from one of the first `n` raw
statements on. -/
def Statement.Stands (n : Nat) (s : Statement) : Prop :=
  s.span.isSome = true ∧ s.rawIndex < n

@[simp] theorem Statement.span_setTrailing (s : Statement) (comment : Option Comment) :
    (s.setTrailing comment).span = s.span := by
  unfold setTrailing
  repeat' split
  all_goals rfl

@[simp] theorem Statement.rawIndex_setTrailing (s : Statement) (comment : Option Comment) :
    (s.setTrailing comment).rawIndex = s.rawIndex := by
  unfold setTrailing
  repeat' split
  all_goals rfl

theorem isSome_cover {spans : List Span} (h : spans ≠ []) : (Span.cover spans).isSome = true := by
  cases spans with
  | nil => exact absurd rfl h
  | cons span rest => rfl

namespace Assembly

theorem InChain.stray {shared : List Token} {colon other : Token} {r : RawStatement}
    (h : InChain shared colon r) : r.opening ≠ .stray other := by
  rcases h with ⟨t, -, rfl⟩ | ⟨sign, body, pragmas, -, -, rfl⟩
  · simp [RawStatement.ofComment]
  · simp [RawStatement.ofTokens]

/-- The extent of a chain is always found. -/
theorem exists_chainExtent
    {colon : Token} {first : RawStatement} {rest : List RawStatement}
    (hgrouped : Grouped none (first :: rest)) (hcolon : first.colon? = some colon) :
    ∃ n, chainExtent colon first rest = .ok n ∧ n ≤ rest.length := by
  obtain ⟨shared, front, back, -, rfl, hmembers, hall, hback, -⟩ :=
    members_of_grouped hgrouped hcolon
  have hlast : front.getLast?.getD first ∈ first :: front := by
    cases hfront : front.getLast? with
    | none => simp
    | some last => exact List.mem_cons_of_mem _ (List.mem_of_getLast? hfront)
  have hsign : ∃ b, hasSignComment (front.getLast?.getD first) = .ok b := by
    unfold hasSignComment
    split
    next other hstray => exact absurd hstray (hall _ hlast).stray
    next => exact ⟨_, rfl⟩
  unfold chainExtent
  rw [hmembers]
  dsimp only
  rw [List.drop_left]
  cases back with
  | nil => exact ⟨front.length, rfl, by simp⟩
  | cons next more =>
      suffices hcloses : ∃ b, closesChain (front.getLast?.getD first) next = .ok b by
        obtain ⟨b, hb⟩ := hcloses
        refine ⟨_, map_eq_ok_iff.mpr ⟨b, hb, rfl⟩, ?_⟩
        cases b <;> simp
      unfold closesChain
      by_cases hkind : next.kind = .comment
      · rw [if_pos hkind]
        obtain ⟨t, -, rfl, -⟩ := Grouped.of_comment hback hkind
        rw [show (RawStatement.ofComment t).tokens = [t] from rfl]
        dsimp only
        split
        · obtain ⟨b, hb⟩ := hsign
          exact ⟨!b, map_eq_ok_iff.mpr ⟨b, hb, rfl⟩⟩
        · exact ⟨false, rfl⟩
      · exact ⟨false, if_neg hkind⟩

theorem exists_addAll
    {shared : List Token} {colon : Token} {raws : List RawStatement}
    (hall : ∀ r ∈ raws, InChain shared colon r) (d : Draft) :
    ∃ d', d.addAll raws = .ok d' := by
  induction raws generalizing d with
  | nil => exact ⟨d, rfl⟩
  | cons r rest ih =>
      have hadd : ∃ next, d.add r = .ok next := by
        rcases hall r (by simp) with ⟨t, -, rfl⟩ | ⟨sign, body, pragmas, -, -, rfl⟩
        · exact ⟨_, rfl⟩
        · exact ⟨_, rfl⟩
      obtain ⟨next, hnext⟩ := hadd
      rw [Draft.addAll, hnext]
      exact ih (fun s hs => hall s (by simp [hs])) next

/-- A chain cannot be put together only if no word stands in front of its colon. -/
theorem ofChain_eq_error_iff
    {index : Nat} {shared : List Token} {colon : Token} {first : RawStatement}
    {rest : List RawStatement} {fault : AssemblyFault}
    (hopening : first.opening = .shared shared colon)
    (hall : ∀ r ∈ rest, InChain shared colon r) :
    ofChain index first rest = .error fault ↔
      (shared.filter fun t => !t.isComment) = [] ∧ fault = .noKeyword colon.span := by
  unfold ofChain
  rw [hopening]
  dsimp only
  split
  next hnone => simp [hnone, eq_comm]
  next keyword others hsome =>
    obtain ⟨draft, hdraft⟩ := exists_addAll hall (Draft.start [] first)
    simp [hdraft, Except.map, hsome]

theorem stands_ofChain
    {index : Nat} {first : RawStatement} {rest : List RawStatement} {s : Statement} {n : Nat}
    (hindex : index < n) (hcolon : first.colon?.isSome = true)
    (h : ofChain index first rest = .ok s) :
    s.Stands n := by
  unfold ofChain at h
  split at h
  next hnone => simp [RawStatement.colon?, hnone, Opening.colon?] at hcolon
  next => simp at h
  next =>
    split at h
    next => simp at h
    next =>
      obtain ⟨draft, -, rfl⟩ := map_eq_ok_iff.mp h
      exact ⟨rfl, hindex⟩

theorem placing_ne_nil {cells : List Cell} (h : cells ≠ []) : placing cells ≠ [] := by
  unfold placing
  dsimp only
  split
  · simpa using h
  next hcode => simpa using hcode

theorem stands_ofSingle
    {index : Nat} {body pragmas : List Token} {n : Nat}
    (hindex : index < n) (hends : EndsIn '.' body) :
    (ofSingle index (RawStatement.ofTokens .none body pragmas)).Stands n := by
  have htokens := map_token_finish .none pragmas (.inl rfl) hends
  have hne : (finish body pragmas).1 ≠ [] := by
    intro hnil
    obtain ⟨init, last, rfl, hrole, -⟩ := hends
    rw [hnil, RawStatement.row_ofTokens _ init pragmas hrole] at htokens
    simp at htokens
  have hspan : (Span.cover ((placing (finish body pragmas).1).map (·.span))).isSome = true := by
    apply isSome_cover
    simpa using placing_ne_nil hne
  exact ⟨hspan, hindex⟩

/-- A comment between statements finds its place if the statement in front of it stands
somewhere. -/
theorem stands_addComment
    {index : Nat} {previous : Option Statement} {t : Token} {n : Nat} (hindex : index < n)
    (hprevious : ∀ s ∈ previous, s.Stands n) :
    ∃ finished s, addComment index previous (RawStatement.ofComment t) = .ok (finished, s) ∧
      (∀ f ∈ finished, f.Stands n) ∧ s.Stands n := by
  have hline : ∃ inline, endsOnLineOf previous t = .ok inline := by
    unfold endsOnLineOf
    cases previous with
    | none => exact ⟨false, rfl⟩
    | some s =>
        obtain ⟨span, hspan⟩ := Option.isSome_iff_exists.mp (hprevious s rfl).1
        simp [hspan]
  obtain ⟨inline, hinline⟩ := hline
  simp only [addComment, RawStatement.ofComment, hinline, Except.map, Except.ok.injEq]
  cases previous with
  | none => exact ⟨none, _, rfl, by simp, rfl, hindex⟩
  | some s =>
      have hs := hprevious s rfl
      dsimp only
      split
      · exact ⟨none, _, rfl, by simp, by simpa using hs.1, by simpa using hs.2⟩
      · exact ⟨some s, _, rfl, by simpa using hs, rfl, hindex⟩

/-- Only a member of a chain begins with a colon. -/
theorem leadingColon?_eq_none_of_colon
    {r : RawStatement} (h : r.Headed) (hcolon : r.colon? = none) :
    r.leadingColon? = none := by
  rw [Option.eq_none_iff_forall_ne_some]
  intro other hother
  rw [h.leadingColon?_eq_some_iff] at hother
  simp [RawStatement.colon?, hother, Opening.colon?] at hcolon

theorem InChain.leadingColon?_eq_none
    {shared : List Token} {colon : Token} {r : RawStatement} (h : InChain shared colon r)
    (hheaded : r.Headed) (hshared : shared ≠ []) :
    r.leadingColon? = none := by
  rw [Option.eq_none_iff_forall_ne_some]
  intro other hother
  rw [hheaded.leadingColon?_eq_some_iff] at hother
  rcases h with ⟨t, -, rfl⟩ | ⟨sign, body, pragmas, -, -, rfl⟩
  · simp [RawStatement.ofComment] at hother
  · simp [RawStatement.ofTokens, hshared] at hother

/-- A chain that cannot be put together begins with its colon. -/
theorem leadingColon?_of_ofChain_error
    {index : Nat} {shared : List Token} {colon : Token} {first : RawStatement}
    {rest : List RawStatement} {fault : AssemblyFault} (hheaded : first.Headed)
    (hopening : first.opening = .shared shared colon)
    (hall : ∀ r ∈ rest, InChain shared colon r) (h : ofChain index first rest = .error fault) :
    first.leadingColon? = some colon ∧ fault = .noKeyword colon.span := by
  obtain ⟨hwords, hfault⟩ := (ofChain_eq_error_iff hopening hall).mp h
  refine ⟨?_, hfault⟩
  rw [hheaded.leadingColon?_eq_some_iff, hopening]
  unfold RawStatement.Headed at hheaded
  rw [hopening] at hheaded
  obtain ⟨-, rfl | hbegins⟩ := hheaded
  · rfl
  · exact absurd hwords hbegins.filter_ne_nil

/-- No member of a chain that can be put together begins with a colon. -/
theorem leadingColon?_of_ofChain_ok
    {index : Nat} {shared : List Token} {colon : Token} {first : RawStatement}
    {rest : List RawStatement} {s : Statement} (hheaded : ∀ r ∈ first :: rest, r.Headed)
    (hopening : first.opening = .shared shared colon)
    (hall : ∀ r ∈ first :: rest, InChain shared colon r) (h : ofChain index first rest = .ok s) :
    ∀ r ∈ first :: rest, r.leadingColon? = none := by
  have hshared : shared ≠ [] := by
    rintro rfl
    have hfault := (@ofChain_eq_error_iff index [] colon first rest _ hopening
      fun r hr => hall r (by simp [hr])).mpr ⟨rfl, rfl⟩
    rw [h] at hfault
    simp at hfault
  exact fun r hr => (hall r hr).leadingColon?_eq_none (hheaded r hr) hshared

/-- What comes of putting raw statements together: a fault at the colon that one of them begins
with, or statements that stand somewhere. -/
def Outcome (n : Nat) (found : Option Token) (result : Except AssemblyFault (List Statement)) :
    Prop :=
  match found with
  | some colon => result = .error (.noKeyword colon.span)
  | none => ∃ statements, result = .ok statements ∧ ∀ s ∈ statements, s.Stands n

theorem Outcome.map
    {n : Nat} {found : Option Token} {result : Except AssemblyFault (List Statement)}
    {finished : Option Statement} (h : Outcome n found result)
    (hfinished : ∀ s ∈ finished, s.Stands n) :
    Outcome n found (result.map (finished.toList ++ ·)) := by
  cases found with
  | some colon => exact map_eq_error_iff.mpr h
  | none =>
      obtain ⟨statements, hstatements, hall⟩ := h
      refine ⟨_, map_eq_ok_iff.mpr ⟨statements, hstatements, rfl⟩, fun s hs => ?_⟩
      rcases List.mem_append.mp hs with hs | hs
      · exact hfinished s (by simpa using hs)
      · exact hall s hs

/-- Putting raw statements together fails at the first of them that begins with a colon, and only
there. -/
theorem buildFrom_outcome
    {index n : Nat} {previous : Option Statement} {raws : List RawStatement}
    (hgrouped : Grouped none raws) (hheaded : ∀ r ∈ raws, r.Headed)
    (hprevious : ∀ s ∈ previous, s.Stands n) (hn : index + raws.length ≤ n) :
    Outcome n (raws.findSome? RawStatement.leadingColon?) (buildFrom index previous raws) := by
  fun_induction buildFrom index previous raws with
  | case1 index previous =>
      exact ⟨_, rfl, fun s hs => hprevious s (by simpa using hs)⟩
  | case2 index previous r rest colon hcolon fault hextent =>
      obtain ⟨k, hk, -⟩ := exists_chainExtent hgrouped hcolon
      rw [hk] at hextent
      simp at hextent
  | case3 index previous r rest colon hcolon k hextent fault hchain =>
      obtain ⟨shared, hopening, hall, -⟩ := chainExtent_spec hgrouped hcolon hextent
      obtain ⟨hfirst, rfl⟩ := leadingColon?_of_ofChain_error (hheaded r (by simp)) hopening
        (fun q hq => hall q (by simp [hq])) hchain
      rw [List.findSome?_cons, hfirst]
      rfl
  | case4 index previous r rest colon hcolon k hextent s hchain ih =>
      obtain ⟨shared, hopening, hall, hback, -⟩ := chainExtent_spec hgrouped hcolon hextent
      obtain ⟨k', hk', hle⟩ := exists_chainExtent hgrouped hcolon
      obtain rfl : k = k' := by simpa [hextent] using hk'
      have hmembers : ∀ q ∈ r :: rest.take k, q.Headed := by
        refine List.forall_mem_cons.mpr ⟨hheaded r (by simp), fun q hq => ?_⟩
        exact hheaded q (List.mem_cons_of_mem _ (List.mem_of_mem_take hq))
      have hnone := leadingColon?_of_ofChain_ok hmembers hopening hall hchain
      have hfound : (r :: rest).findSome? RawStatement.leadingColon? =
          (rest.drop k).findSome? RawStatement.leadingColon? := by
        rw [← List.take_append_drop k rest, ← List.cons_append, List.findSome?_append,
          List.findSome?_eq_none_iff.mpr hnone]
        simp
      rw [List.length_cons] at hn
      have hs : s.Stands n := stands_ofChain (by omega) (by simp [hcolon]) hchain
      rw [hfound]
      refine (ih hback ?_ (by simpa using hs) ?_).map hprevious
      · exact fun q hq => hheaded q (List.mem_cons_of_mem _ (List.mem_of_mem_drop hq))
      · rw [List.length_drop]
        omega
  | case5 index previous r rest hcolon hkind fault hadd =>
      obtain ⟨t, -, rfl, -⟩ := Grouped.of_comment hgrouped hkind
      rw [List.length_cons] at hn
      obtain ⟨finished, s, hok, -⟩ := @stands_addComment index previous t n (by omega) hprevious
      rw [hok] at hadd
      simp at hadd
  | case6 index previous r rest hcolon hkind finished s hadd ih =>
      obtain ⟨t, -, rfl, hrest⟩ := Grouped.of_comment hgrouped hkind
      rw [List.length_cons] at hn
      obtain ⟨finished', s', hok, hfinished, hs⟩ :=
        @stands_addComment index previous t n (by omega) hprevious
      rw [hadd, Except.ok.injEq, Prod.mk.injEq] at hok
      obtain ⟨rfl, rfl⟩ := hok
      rw [List.findSome?_cons, leadingColon?_eq_none_of_colon (hheaded _ (by simp)) hcolon]
      exact (ih hrest (fun q hq => hheaded q (List.mem_cons_of_mem _ hq)) (by simpa using hs)
        (by omega)).map hfinished
  | case7 index previous r rest hcolon hkind ih =>
      rw [List.length_cons] at hn
      rw [List.findSome?_cons, leadingColon?_eq_none_of_colon (hheaded r (by simp)) hcolon]
      obtain ⟨body, pragmas, hends, rfl, hrest⟩ := Grouped.of_plain hgrouped hcolon hkind
      have hs := @stands_ofSingle index body pragmas n (by omega) hends
      exact (ih hrest (fun q hq => hheaded q (List.mem_cons_of_mem _ hq)) (by simpa using hs)
        (by omega)).map hprevious

end Assembly

/-! ## What is looked up later -/

/-- Where a statement stands, where it comes from and how far in it is. -/
def Statement.place (s : Statement) : Option Span × Nat × Option Nat :=
  (s.span, s.rawIndex, s.level)

@[simp] theorem Statement.place_setTrailing (s : Statement) (comment : Option Comment) :
    (s.setTrailing comment).place = s.place := by
  unfold setTrailing
  repeat' split
  all_goals rfl

namespace Bracket

theorem place_receive (s : Statement) (incoming : Comment) :
    (receive s incoming).place = s.place := by
  unfold receive
  dsimp only
  split
  · rfl
  · exact s.place_setTrailing _

/-- Moving brackets and merging comments leaves every statement in its place. -/
theorem place_reposition (statements : List Statement) :
    (reposition statements).map Statement.place = statements.map Statement.place :=
  map_reposition (fun _ => rfl) place_receive Statement.place_setTrailing statements

end Bracket

namespace Rendering

theorem sequenceLines_ne_nil
    (o : Options) (wanted : WantedBlanks) (previous before : Option Token)
    {current : Option Line} {tokens : List (Address × Token)}
    (h : current ≠ none ∨ tokens ≠ []) :
    sequenceLines o wanted previous before current tokens ≠ [] := by
  induction tokens generalizing previous before current with
  | nil =>
      cases current with
      | none => simp at h
      | some l => simp [sequenceLines]
  | cons head rest ih =>
      cases current with
      | none =>
          simp only [sequenceLines]
          exact ih _ _ (.inl (by simp))
      | some l =>
          simp only [sequenceLines]
          split
          · simp
          · exact ih _ _ (.inl (by simp))

theorem memberLines_ne_nil
    (o : Options) (wanted : WantedBlanks) (ordinal slot : Nat) (skip : Option Nat)
    (cells : List Cell) (trailing : Option Comment) :
    memberLines o wanted ordinal slot skip cells trailing ≠ [] := by
  unfold memberLines
  dsimp only
  cases sequenceLines o wanted none none none
      ((addressed ordinal slot (cells.map (·.token))).filter fun p => some p.1.slot != skip) with
  | nil => cases trailing <;> simp
  | cons l rest => cases trailing <;> simp

theorem cellLines_ne_nil
    (o : Options) (wanted : WantedBlanks) (indent startColumn : Nat)
    (previous before : Option Token) {current : Option Line} {cells : List (Address × Cell)}
    (h : current ≠ none ∨ cells ≠ []) :
    cellLines o wanted indent startColumn previous before current cells ≠ [] := by
  induction cells generalizing previous before current with
  | nil =>
      cases current with
      | none => simp at h
      | some l => simp [cellLines]
  | cons head rest ih =>
      simp only [cellLines]
      split
      · simp
      · exact ih _ _ (.inl (by simp))

theorem glue_ne_nil
    (joiner : Text) (keepLast : Bool) {lines : List Line} (h : lines ≠ []) :
    Line.glue joiner keepLast lines ≠ [] := by
  have hfrom : ∀ above rest, Line.glueFrom joiner keepLast above rest ≠ [] := by
    intro above rest
    induction rest generalizing above with
    | nil => simp [Line.glueFrom]
    | cons l rest ih =>
        rw [Line.glueFrom]
        split
        · exact ih _
        · simp
  cases lines with
  | nil => exact absurd rfl h
  | cons l rest => exact hfrom l rest

theorem attachToLast_ne_nil
    (o : Options) (comment : Option Comment) {lines : List Line} (h : lines ≠ []) :
    attachToLast o comment lines ≠ [] := by
  cases comment with
  | none => exact h
  | some c => simpa [attachToLast, ← List.length_pos_iff] using h

theorem attachTrailing_ne_nil
    (o : Options) (comment : Option Comment) {lines : List Line} (h : lines ≠ []) :
    attachTrailing o comment lines ≠ [] := by
  cases comment with
  | none => exact h
  | some c =>
      unfold attachTrailing
      dsimp only
      split
      · simpa [← List.length_pos_iff] using h
      · exact attachToLast_ne_nil o (some c) h

/-- A statement that is not empty has lines. -/
theorem statementLines_ne_nil
    (o : Options) (wanted : WantedBlanks) (ordinal : Nat) {s : Statement}
    (h : s.isEmpty = false) :
    statementLines o wanted ordinal s ≠ [] := by
  cases hbody : s.body with
  | chain c =>
      rw [statementLines_chain hbody]
      refine attachToLast_ne_nil o _ (attachToLast_ne_nil o _ (glue_ne_nil _ _ ?_))
      unfold entriesLines
      dsimp only
      repeat' split
      all_goals simp
  | plain cells =>
      cases cells with
      | nil =>
          rw [statementLines_comment hbody]
          cases hnote : s.note with
          | none => simp [Statement.isEmpty, hbody, hnote] at h
          | some comment => simp
      | cons cell cells =>
          rw [statementLines_plain hbody]
          refine attachToLast_ne_nil o _ (attachTrailing_ne_nil o _ (glue_ne_nil _ _ ?_))
          rw [ne_eq, List.map_eq_nil_iff]
          exact cellLines_ne_nil o wanted _ _ none none (.inr (by simp [addressed]))

end Rendering

theorem Alignment.ne_nil_of_mem_runs
    {lines : List Line} {column : Nat} {ps run : List Position} (h : run ∈ runs lines column ps) :
    run ≠ [] := by
  fun_induction runs lines column ps with
  | case1 => simp at h
  | case2 first rest ih =>
      rcases List.mem_cons.mp h with rfl | h
      · simp
      · exact ih h

/-- Everything that is looked up on the way from raw statements to printed lines is there. -/
structure LookupsSucceed (o : Options) (raws : List RawStatement) (statements : List Statement) :
    Prop where
  /-- A member of a chain holds the colon it refers to. -/
  colon : ∀ r ∈ raws, ∀ colon, r.colon? = some colon → colon ∈ r.tokens
  /-- A comment that stands alone has a token. -/
  comment : ∀ r ∈ raws, r.kind = .comment → r.tokens ≠ []
  /-- A statement stands somewhere. -/
  span : ∀ s ∈ statements, ∃ span, s.span = some span
  /-- The first raw statement of a statement has a level, which is the level of the statement. -/
  level : ∀ s ∈ statements, (levels raws)[s.rawIndex]? = some s.level
  /-- The shared words of a chain have a first line. -/
  words : ∀ s ∈ statements, ∀ c, s.body = .chain c → ∀ wanted ordinal,
    Rendering.sequenceLines o wanted none none none (Rendering.addressed ordinal 0 c.words) ≠ []
  /-- A member of a chain has a first line. -/
  members : ∀ wanted ordinal slot skip cells trailing,
    Rendering.memberLines o wanted ordinal slot skip cells trailing ≠ []
  /-- A statement that is printed has a last line. -/
  lines : ∀ s ∈ statements, s.isEmpty = false → ∀ wanted ordinal,
    Rendering.statementLines o wanted ordinal s ≠ []
  /-- A run of tokens has a least and a greatest one. -/
  runs : ∀ lines column ps, ∀ run ∈ Alignment.runs lines column ps, run ≠ []

theorem length_levels (raws : List RawStatement) : (levels raws).length = raws.length := by
  simp [levels, Level.aspects_eq_aspectsAhead]

/-- A raw statement holds the colon it refers to, and it is not empty. -/
theorem RawStatement.Headed.mem_tokens
    {r : RawStatement} (h : r.Headed) :
    (∀ colon, r.colon? = some colon → colon ∈ r.tokens) ∧ r.tokens ≠ [] := by
  unfold Headed at h
  unfold colon? tokens
  cases hopening : r.opening with
  | none =>
      simp only [hopening] at h
      rcases h with ⟨t, -, rfl⟩ | ⟨t, rest, hbody, -⟩
      · simp [Opening.colon?, ofComment]
      · simp [Opening.colon?, hbody]
  | stray colon => simp [hopening] at h
  | shared words colon => simp [Opening.colon?, Opening.tokens]

namespace Layout

/-- The statements of a source are put together unless one of them begins with a colon. -/
theorem arrange_outcome
    {source : Text} {filename : Option String} {raws : List RawStatement}
    (h : Source.split source filename = .ok raws) :
    Assembly.Outcome raws.length (raws.findSome? RawStatement.leadingColon?) (assemble raws) ∧
      ∀ r ∈ raws, r.Headed := by
  obtain ⟨ts, hts, hraws⟩ := Source.tokens_of_split h
  have hrun := Unfinished.run_of_statements (Source.lexed_of_mem_tokens hts) hraws
  have hstart : ({} : Unfinished).Headed := Or.inl ⟨rfl, rfl⟩
  have hheaded := Unfinished.headed_of_statements hstart hraws
  exact ⟨Assembly.buildFrom_outcome (hrun.grouped (.inl rfl)) hheaded (by simp) (by simp), hheaded⟩

/-- Arranged statements stand somewhere and have the levels of their first raw statements. -/
theorem place_arrange
    {raws : List RawStatement} {built statements : List Statement}
    (hbuilt : assemble raws = .ok built) (hstands : ∀ s ∈ built, s.Stands raws.length)
    (h : arrange raws = .ok statements) :
    ∀ s ∈ statements, (∃ span, s.span = some span) ∧
      (levels raws)[s.rawIndex]? = some s.level := by
  intro s hs
  rw [arrange, hbuilt] at h
  obtain rfl := Except.ok.inj h
  have hplace : s.place ∈ (assignLevels (levels raws) built).map Statement.place := by
    rw [← Bracket.place_reposition]
    exact List.mem_map_of_mem hs
  obtain ⟨leveled, hleveled, hsame⟩ := List.mem_map.mp hplace
  obtain ⟨b, hb, rfl⟩ := List.mem_map.mp hleveled
  obtain ⟨hspan, hindex⟩ := hstands b hb
  rw [← length_levels] at hindex
  simp only [Statement.place, Prod.mk.injEq] at hsame
  obtain ⟨hsameSpan, hsameIndex, hsameLevel⟩ := hsame
  refine ⟨?_, ?_⟩
  · rw [← hsameSpan]
    exact Option.isSome_iff_exists.mp hspan
  · rw [← hsameIndex, ← hsameLevel, List.getElem?_eq_getElem hindex]
    rfl

/-- The statements of a source stand somewhere and have the levels of their first raw statements. -/
theorem place_of_split
    {source : Text} {filename : Option String} {raws : List RawStatement}
    {statements : List Statement} (hsplit : Source.split source filename = .ok raws)
    (h : arrange raws = .ok statements) :
    ∀ s ∈ statements, (∃ span, s.span = some span) ∧
      (levels raws)[s.rawIndex]? = some s.level := by
  obtain ⟨houtcome, -⟩ := arrange_outcome hsplit
  obtain ⟨built, hbuilt, -⟩ := map_eq_ok_iff.mp h
  refine place_arrange hbuilt ?_ h
  cases hfound : raws.findSome? RawStatement.leadingColon? with
  | none =>
      rw [hfound] at houtcome
      obtain ⟨others, hothers, hall⟩ := houtcome
      obtain rfl : others = built := Except.ok.inj (hothers.symm.trans hbuilt)
      exact hall
  | some colon =>
      rw [hfound] at houtcome
      have herror : assemble raws = .error (.noKeyword colon.span) := houtcome
      rw [hbuilt] at herror
      simp at herror

end Layout

/-- A source is formatted unless it can be cut into statements of which one begins with a colon.
The fault names the first such colon.  Whatever else is looked up on the way is there. -/
theorem format_error_iff
    (o : Options) (source : Text) (filename : Option String) :
    (∀ fault, Layout.format o source filename = .error fault ↔
      ∃ raws colon, Source.split source filename = .ok raws ∧
        raws.findSome? RawStatement.leadingColon? = some colon ∧
        fault = .noKeyword colon.span) ∧
    ∀ raws statements, Source.split source filename = .ok raws →
      Layout.arrange raws = .ok statements → LookupsSucceed o raws statements := by
  constructor
  · intro fault
    unfold Layout.format
    cases hsplit : Source.split source filename with
    | error rejection => simp
    | ok raws =>
        obtain ⟨houtcome, -⟩ := Layout.arrange_outcome hsplit
        simp only [map_eq_error_iff, Layout.arrange, Except.ok.injEq, exists_and_left,
          exists_eq_left']
        cases hfound : raws.findSome? RawStatement.leadingColon? with
        | none =>
            rw [hfound] at houtcome
            obtain ⟨statements, hstatements, -⟩ := houtcome
            simp [hstatements]
        | some colon =>
            rw [hfound] at houtcome
            have herror : assemble raws = .error (.noKeyword colon.span) := houtcome
            simp [herror, eq_comm]
  · intro raws statements hsplit harrange
    obtain ⟨-, hheaded⟩ := Layout.arrange_outcome hsplit
    have hplace := Layout.place_of_split hsplit harrange
    exact
      { colon := fun r hr => (hheaded r hr).mem_tokens.1
        comment := fun r hr _ => (hheaded r hr).mem_tokens.2
        span := fun s hs => (hplace s hs).1
        level := fun s hs => (hplace s hs).2
        words := fun s _ c _ wanted ordinal =>
          Rendering.sequenceLines_ne_nil o wanted none none (.inr (by simp [Chain.words,
            Rendering.addressed]))
        members := Rendering.memberLines_ne_nil o
        lines := fun s _ hs wanted ordinal => Rendering.statementLines_ne_nil o wanted ordinal hs
        runs := fun _ _ _ _ => Alignment.ne_nil_of_mem_runs }

/-- The case of a chain that begins with its colon, behind a comment and a pragma, and the case of
the source without it. -/
theorem format_error_iff_colon :
    Layout.format .default "data: a, b.\n* c\n ##p : d, e.\n".toList none =
        .error (.noKeyword ⟨3, 5, 3, 6⟩) ∧
      ∃ raws statements, Source.split "data: a, b.\n* c\n".toList none = .ok raws ∧
        Layout.arrange raws = .ok statements ∧ LookupsSucceed .default raws statements := by
  constructor
  · have hfound : (Source.split "data: a, b.\n* c\n ##p : d, e.\n".toList none).toOption.bind
        (·.findSome? RawStatement.leadingColon?) = some (Token.onLine .colon [':'] 3 5) := by
      decide +kernel
    obtain ⟨raws, hsplit, hfirst⟩ := Option.bind_eq_some_iff.mp hfound
    exact ((format_error_iff .default _ none).1 _).mpr
      ⟨raws, _, eq_ok_of_toOption hsplit, hfirst, rfl⟩
  · have hfound : ((Source.split "data: a, b.\n* c\n".toList none).toOption.bind
        fun raws => (Layout.arrange raws).toOption).isSome = true := by
      decide +kernel
    obtain ⟨statements, hstatements⟩ := Option.isSome_iff_exists.mp hfound
    obtain ⟨raws, hsplit, harrange⟩ := Option.bind_eq_some_iff.mp hstatements
    refine ⟨raws, statements, eq_ok_of_toOption hsplit, eq_ok_of_toOption harrange, ?_⟩
    exact (format_error_iff .default _ none).2 raws statements (eq_ok_of_toOption hsplit)
      (eq_ok_of_toOption harrange)

end AbapLayout
