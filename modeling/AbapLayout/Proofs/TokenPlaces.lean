import AbapLayout.Proofs.Lexing
import Mathlib.Data.List.Pairwise

/-!
# Places of tokens

A token stands in the lines of its source where its span says, and the tokens come one behind the
other, so at one place stands at most one token and no token comes twice.
-/

namespace AbapLayout

/-- The rest of a line from a column on, where the first of the lines has the given number. -/
def restOfLine (first : Nat) (lines : List Text) (line column : Nat) : Text :=
  (lines.getD (line - first) []).drop column

/-- Whether a place belongs to what stands in a span on one line. -/
def Span.holds (s : Span) (place : Nat × Nat) : Bool :=
  s.startLine == place.1 && decide (s.startColumn ≤ place.2 ∧ place.2 < s.endColumn)

namespace Token

/-- What stands in some lines in the place of a token. -/
def textIn (first : Nat) (lines : List Text) (t : Token) : Text :=
  (restOfLine first lines t.span.startLine t.span.startColumn).take t.text.length

/-- Whether a token stands in some lines where its span says. -/
structure StandsIn (first : Nat) (lines : List Text) (t : Token) : Prop where
  line : first ≤ t.span.startLine
  span : t.span = Span.onLine t.span.startLine t.span.startColumn t.text.length
  text : t.textIn first lines = t.text
  ne_nil : t.text ≠ []

def EndsBefore (t u : Token) : Prop :=
  t.span.startLine < u.span.startLine ∨
    t.span.startLine = u.span.startLine ∧ t.span.endColumn ≤ u.span.startColumn

end Token

theorem Cut.standsIn
    {line column : Nat} {t rest : Text} {ts : List Token} (h : Cut line column t ts)
    (hrest : rest.drop column = t) :
    (∀ u ∈ ts, column ≤ u.span.startColumn ∧ u.span.startLine = line ∧
        u.StandsIn line [rest]) ∧ ts.Pairwise Token.EndsBefore := by
  induction h with
  | done => simp
  | @blank column c cs ts hc _ ih =>
      have hnext : rest.drop (column + 1) = cs := by rw [← List.drop_drop, hrest]; rfl
      obtain ⟨hall, hordered⟩ := ih hnext
      exact ⟨fun u hu => ⟨by have := (hall u hu).1; omega, (hall u hu).2⟩, hordered⟩
  | @token column role c cs more ts hc hm _ ih =>
      have hnext : rest.drop (column + (cs.length + 1)) = more := by
        rw [← List.drop_drop, hrest, List.drop_succ_cons, List.drop_left]
      obtain ⟨hall, hordered⟩ := ih hnext
      refine ⟨List.forall_mem_cons.mpr ⟨⟨Nat.le_refl _, rfl, ?_⟩, fun u hu => ?_⟩,
        List.pairwise_cons.mpr ⟨fun u hu => ?_, hordered⟩⟩
      · exact
          { line := Nat.le_refl _
            span := rfl
            text := by
              simp only [Token.textIn, restOfLine, Token.onLine, Span.onLine, Nat.sub_self,
                List.getD_cons_zero, hrest]
              rw [← List.cons_append, List.take_left']
              rfl
            ne_nil := by simp [Token.onLine] }
      · have := (hall u hu).1
        exact ⟨by omega, (hall u hu).2⟩
      · refine .inr ⟨(hall u hu).2.1.symm, ?_⟩
        have := (hall u hu).1
        simpa [Token.onLine, Span.onLine] using this

theorem standsIn_of_tokenize
    {line : Nat} {t : Text} {ts : List Token} (h : tokenize line t = .ok ts) :
    (∀ u ∈ ts, u.span.startLine = line ∧ u.StandsIn line [t]) ∧
      ts.Pairwise Token.EndsBefore := by
  unfold tokenize at h
  split at h
  next cs =>
    injection h with h
    rw [← h]
    obtain ⟨s, hs, -⟩ := Text.eq_trimRight_append ('*' :: cs)
    have htake : (Text.trimRight ('*' :: cs) ++ s).take (Text.trimRight ('*' :: cs)).length =
        Text.trimRight ('*' :: cs) := List.take_left
    rw [← hs] at htake
    have hne : Text.trimRight ('*' :: cs) ≠ [] := by
      have hhead := Text.head?_trimRight (c := '*') (by decide) cs
      intro hnil
      simp [hnil] at hhead
    refine ⟨List.forall_mem_singleton.mpr ⟨rfl, ?_⟩, List.pairwise_singleton _ _⟩
    exact
      { line := Nat.le_refl _
        span := rfl
        text := by
          simpa only [Token.textIn, restOfLine, Token.onLine, Span.onLine, Nat.sub_self,
            List.getD_cons_zero, List.drop_zero] using htake
        ne_nil := hne }
  next =>
    obtain ⟨hall, hordered⟩ := (cut_of_tokenizeFrom h).standsIn List.drop_zero
    exact ⟨fun u hu => (hall u hu).2, hordered⟩

/-- The tokens of some lines stand there where their spans say, one behind the other. -/
theorem standsIn_of_tokenizeLines
    {first : Nat} {lines : List Text} {ts : List Token}
    (h : tokenizeLines first lines = .ok ts) :
    (∀ u ∈ ts, u.StandsIn first lines) ∧ ts.Pairwise Token.EndsBefore := by
  induction lines generalizing first ts with
  | nil =>
      injection h with h
      simp [← h]
  | cons l rest ih =>
      rw [tokenizeLines] at h
      split at h
      · simp at h
      next tokens htokens =>
        obtain ⟨more, hmore, rfl⟩ := map_eq_ok_iff.mp h
        obtain ⟨hhere, hordered⟩ := standsIn_of_tokenize htokens
        obtain ⟨hbelow, hordered'⟩ := ih hmore
        refine ⟨fun u hu => ?_, List.pairwise_append.mpr ⟨hordered, hordered', fun u hu v hv => ?_⟩⟩
        · rcases List.mem_append.mp hu with hu | hu
          · obtain ⟨hline, hstands⟩ := hhere u hu
            refine { hstands with text := ?_ }
            have htext := hstands.text
            simpa [Token.textIn, restOfLine, hline] using htext
          · have hstands := hbelow u hu
            have hline := hstands.line
            refine { hstands with line := by omega, text := ?_ }
            have htext := hstands.text
            rw [Token.textIn, restOfLine] at htext ⊢
            rwa [show u.span.startLine - first = u.span.startLine - (first + 1) + 1 by omega,
              List.getD_cons_succ]
        · have := (hhere u hu).1
          have := (hbelow v hv).line
          exact .inl (by omega)

/-- At one place stands one token. -/
theorem Token.eq_of_holds
    {first : Nat} {lines : List Text} {ts : List Token}
    (h : tokenizeLines first lines = .ok ts) {t u : Token} (ht : t ∈ ts) (hu : u ∈ ts)
    {place : Nat × Nat} (hplace : t.span.holds place = true) (hplace' : u.span.holds place = true) :
    t = u := by
  let Meet : Token → Token → Prop := fun t u =>
    t.span.holds place = true → u.span.holds place = true → t = u
  have : Std.Symm Meet := ⟨fun _ _ hmeet hu ht => (hmeet ht hu).symm⟩
  have hapart : ts.Pairwise Meet := by
    refine (standsIn_of_tokenizeLines h).2.imp ?_
    intro t u hbefore ht hu
    simp only [Span.holds, Bool.and_eq_true, beq_iff_eq, decide_eq_true_eq] at ht hu
    rcases hbefore with hline | ⟨-, hcolumn⟩ <;> omega
  exact hapart.forall_of_forall (fun _ _ _ _ => rfl) ht hu hplace hplace'

theorem nodup_of_tokenizeLines
    {first : Nat} {lines : List Text} {ts : List Token} (h : tokenizeLines first lines = .ok ts) :
    ts.Nodup := by
  obtain ⟨hall, hordered⟩ := standsIn_of_tokenizeLines h
  refine hordered.imp_of_mem ?_
  rintro t u ht - hbefore rfl
  have hwidth := List.length_pos_iff.mpr (hall t ht).ne_nil
  have hspan := (hall t ht).span
  have hend := congrArg Span.endColumn hspan
  simp only [Span.onLine] at hend
  rcases hbefore with hline | ⟨-, hcolumn⟩ <;> omega

end AbapLayout
