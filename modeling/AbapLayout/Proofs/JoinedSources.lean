import AbapLayout.Proofs.TokenMaps
import Mathlib.Control.Monad.Basic

/-!
# Joined sources

Behind a source that is accepted nothing is left of the machine that cuts it: no chain is open, no
pragma waits, and no bracket counts.  So a second source behind it is cut as if it stood alone, with
its lines further down (`Source.split_append`).
-/

namespace AbapLayout

/-! ## Lines further down -/

/-- A span that stands `n` lines further down. -/
def Span.lowered (n : Nat) (s : Span) : Span :=
  { s with startLine := s.startLine + n, endLine := s.endLine + n }

def Token.lowered (n : Nat) (t : Token) : Token :=
  { t with span := t.span.lowered n }

variable (n : Nat)

theorem Token.lowered_onLine (role : Role) (text : Text) (line column : Nat) :
    (Token.onLine role text line column).lowered n = Token.onLine role text (line + n) column :=
  rfl

theorem Token.keepsWords_lowered : KeepsWords (lowered n) :=
  ⟨fun _ => rfl, fun _ => rfl, fun _ _ _ => Iff.rfl⟩

/-! ## Tokens -/

theorem tokenizeFrom_lowered (line column : Nat) (t : Text) :
    tokenizeFrom (line + n) column t =
      (tokenizeFrom line column t).map (List.map (Token.lowered n)) := by
  fun_induction tokenizeFrom line column t with
  | case1 column => rw [tokenizeFrom]; rfl
  | case2 column c cs hc ih => rw [tokenizeFrom, if_pos hc, ih]
  | case3 column c cs hc fault hfault => rw [tokenizeFrom, if_neg hc, hfault]; rfl
  | case4 column c cs hc role m hmeasure ih =>
      rw [tokenizeFrom, if_neg hc, hmeasure]
      dsimp only
      rw [ih]
      cases tokenizeFrom line (column + (m + 1)) (cs.drop m) with
      | error fault => rfl
      | ok ts => simp [Except.map, Token.lowered_onLine]

theorem tokenize_lowered (line : Nat) (t : Text) :
    tokenize (line + n) t = (tokenize line t).map (List.map (Token.lowered n)) := by
  unfold tokenize
  split
  · simp [Except.map, Token.lowered_onLine]
  · exact tokenizeFrom_lowered n line 0 t

theorem tokenizeLines_lowered (first : Nat) (ls : List Text) :
    tokenizeLines (first + n) ls =
      ((tokenizeLines first ls).map (List.map (Token.lowered n))).mapError
        (Rejection.mapLine (· + n)) := by
  induction ls generalizing first with
  | nil => rfl
  | cons l rest ih =>
      rw [tokenizeLines, tokenizeLines, tokenize_lowered, Nat.add_right_comm, ih]
      cases tokenize first l with
      | error fault => rfl
      | ok ts =>
          simp only [Except.map]
          cases tokenizeLines (first + 1) rest with
          | error rejection => rfl
          | ok us => exact congrArg Except.ok List.map_append.symm

/-- Behind lines that are accepted the others are cut as if they stood alone. -/
theorem tokenizeLines_append
    {first : Nat} {ls : List Text} {ts : List Token} (h : tokenizeLines first ls = .ok ts)
    (more : List Text) :
    tokenizeLines first (ls ++ more) =
      (tokenizeLines (first + ls.length) more).map (ts ++ ·) := by
  induction ls generalizing first ts with
  | nil =>
      injection h with h
      subst h
      cases hmore : tokenizeLines first more <;> simp [hmore, Except.map]
  | cons l rest ih =>
      rw [tokenizeLines] at h
      split at h
      · simp at h
      next tokens htokens =>
        obtain ⟨others, hothers, rfl⟩ := map_eq_ok_iff.mp h
        rw [List.cons_append, tokenizeLines, htokens]
        dsimp only
        rw [ih hothers, List.length_cons, Nat.add_right_comm, Nat.add_assoc]
        cases tokenizeLines (first + (rest.length + 1)) more <;> simp [Except.map]

/-! ## Statements -/

namespace Unfinished

/-- Brackets count only while tokens are held. -/
def Balanced (u : Unfinished) : Prop :=
  u.pending = [] → u.depth = 0

theorem Balanced.push {u : Unfinished} (h : u.Balanced) (t : Token) : (u.push t).2.Balanced := by
  have hcode : (u.pushCode t).2.Balanced := by
    unfold pushCode
    dsimp only
    split
    next hends =>
      split
      · exact fun _ => rfl
      next hdot => exact fun _ => (hends.2.resolve_left hdot).2
    · exact fun hpending => by simp at hpending
  unfold Unfinished.push
  split
  · split
    · exact h
    · exact fun hpending => by simp at hpending
  · exact h
  · split
    next hopens => exact fun _ => hopens.2
    · exact hcode
  · exact hcode

/-- Behind tokens that are accepted the others are cut as if they stood alone. -/
theorem statements_append
    {u : Unfinished} {ts : List Token} {raws : List RawStatement} (hu : u.Balanced)
    (h : u.statements ts = .ok raws) (more : List Token) :
    u.statements (ts ++ more) = (({} : Unfinished).statements more).map (raws ++ ·) := by
  induction ts generalizing u raws with
  | nil =>
      obtain ⟨rfl, hpending, hpragmas, hchain⟩ := statements_nil h
      have hfresh : u = {} := by
        cases u
        simp_all [Balanced]
      rw [hfresh, List.nil_append]
      cases ({} : Unfinished).statements more <;> simp [Except.map]
  | cons t ts ih =>
      obtain ⟨others, hothers, rfl⟩ := statements_cons h
      have hrest := ih (hu.push t) hothers
      rw [List.cons_append, statements]
      cases hpush : u.push t with
      | mk completed v =>
          rw [hpush] at hrest
          cases completed with
          | none => simpa using hrest
          | some s =>
              dsimp only
              rw [hrest]
              cases ({} : Unfinished).statements more <;> simp [Except.map]

end Unfinished

/-! ## Sources -/

theorem Text.lines_append (s t : Text) : lines (s ++ '\n' :: t) = lines s ++ lines t := by
  induction s with
  | nil => simp [lines]
  | cons c cs ih =>
      rw [List.cons_append, lines, lines, ih]
      split
      · rfl
      · cases hcs : lines cs with
        | nil => exact absurd hcs (lines_ne_nil cs)
        | cons l ls => rfl

namespace Source

/-- A file name that lets one source through lets all through. -/
theorem split_eq_splitText
    {source : Text} {filename : Option String} {raws : List RawStatement}
    (h : split source filename = .ok raws) (other : Text) :
    split other filename = splitText other := by
  unfold split at h ⊢
  split
  · rfl
  next name =>
    cases hname : holdsNoProgram name with
    | true => simp [hname] at h
    | false => rfl

variable {first second : Text}

theorem clean_append
    (hreturn : '\r' ∉ first) (hreturn' : '\r' ∉ second)
    (hmark : first.head? ≠ some byteOrderMark) :
    clean (first ++ '\n' :: second) = first ++ '\n' :: second := by
  refine clean_of_lineFeeds (by simp [hreturn, hreturn']) ?_
  cases first with
  | nil => simp [byteOrderMark]
  | cons c cs => exact hmark

/-- Behind a source that is accepted a second one is cut as if it stood alone, with its lines
further down.  If it is refused, both together are refused for the same reason. -/
theorem split_append
    {filename : Option String} {raws : List RawStatement}
    (hreturn : '\r' ∉ first) (hmark : first.head? ≠ some byteOrderMark)
    (hreturn' : '\r' ∉ second) (hmark' : second.head? ≠ some byteOrderMark)
    (hblank : Text.isBlankText second = false) (h : split first filename = .ok raws) :
    split (first ++ '\n' :: second) filename =
      (((split second filename).map
          (List.map (RawStatement.map (Token.lowered (Text.lines first).length)))).mapError
        (Rejection.mapLine (· + (Text.lines first).length))).map (raws ++ ·) := by
  obtain ⟨ts, hts, hraws⟩ := tokens_of_split h
  have hjoined := clean_append hreturn hreturn' hmark
  have hsecond := clean_of_lineFeeds hreturn' hmark'
  have hnotBlank : Text.isBlankText (first ++ '\n' :: second) = false := by
    simp only [Text.isBlankText, List.all_append, List.all_cons] at hblank ⊢
    simp [hblank]
  have htokens : tokens (first ++ '\n' :: second) =
      (((tokens second).map (List.map (Token.lowered (Text.lines first).length))).mapError
        (Rejection.mapLine (· + (Text.lines first).length))).map (ts ++ ·) := by
    rw [tokens, clean_of_lineFeeds hreturn hmark] at hts
    rw [tokens, hjoined, Text.lines_append, tokenizeLines_append hts, tokenizeLines_lowered,
      tokens, hsecond]
  rw [split_eq_splitText h, split_eq_splitText h, splitText, splitText, hjoined, hsecond,
    hblank, hnotBlank, htokens]
  cases tokens second with
  | error rejection => rfl
  | ok us =>
      have hbalanced : ({} : Unfinished).Balanced := fun _ => rfl
      have hlowered := Unfinished.statements_map (g := (· + (Text.lines first).length))
        (Token.keepsWords_lowered _) (fun _ => rfl) {} us
      exact (Unfinished.statements_append hbalanced hraws _).trans
        (congrArg (Except.map (raws ++ ·)) hlowered)

/-- The case of a chain that ends with an open bracket and a pragma, in front of a chain with a
comment between its members, and in front of an open literal. -/
theorem split_append_chain :
    ∃ raws more, split "DATA: a(1, 2 ##X.\n\"c".toList none = .ok raws ∧
      split "b: c,\n* s\nd.".toList none = .ok more ∧
      split "DATA: a(1, 2 ##X.\n\"c\nb: c,\n* s\nd.".toList none =
        .ok (raws ++ more.map (RawStatement.map (Token.lowered 2))) ∧
      split "b: c,\n 'd.".toList none = .error (.lexical .openLiteral 2) ∧
      split "DATA: a(1, 2 ##X.\n\"c\nb: c,\n 'd.".toList none =
        .error (.lexical .openLiteral 4) := by
  obtain ⟨raws, hraws⟩ := exists_eq_ok_of_isOk
    (show (split "DATA: a(1, 2 ##X.\n\"c".toList none).isOk = true by decide +kernel)
  obtain ⟨more, hmore⟩ := exists_eq_ok_of_isOk
    (show (split "b: c,\n* s\nd.".toList none).isOk = true by decide +kernel)
  have hopen : split "b: c,\n 'd.".toList none = .error (.lexical .openLiteral 2) := by
    decide +kernel
  have haccepted := split_append (by decide +kernel) (by decide +kernel)
    (show '\r' ∉ "b: c,\n* s\nd.".toList by decide +kernel) (by decide +kernel)
    (by decide +kernel) hraws
  have hrefused := split_append (by decide +kernel) (by decide +kernel)
    (show '\r' ∉ "b: c,\n 'd.".toList by decide +kernel) (by decide +kernel)
    (by decide +kernel) hraws
  rw [hmore] at haccepted
  rw [hopen] at hrefused
  exact ⟨raws, more, hraws, hmore, haccepted, hopen, hrefused⟩

end Source
end AbapLayout
