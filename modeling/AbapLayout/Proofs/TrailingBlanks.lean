import AbapLayout.Proofs.EndHyphens
import AbapLayout.Proofs.Leftover

/-!
# Blank characters at the end of a line

A line and its trimmed form leave the same outline and are refused for the same fault
(`tokenize_trimRight`): of their tokens at most the last word differs, which is cut in front of a
hyphen at its end, and both ways the same is held.
-/

namespace AbapLayout

/-! ## Cut words -/

/-- A plain word is held and changes nothing else. -/
theorem Outline.push_word
    {c : Char} (hbracket : Lexeme.isBracket c = false) (k : Outline) (cs : Text)
    (line column : Nat) :
    k.push (Token.onLine .word (c :: cs) line column) =
      { k with pending := k.pending.or (some line) } := by
  have hno : ∀ texts : List String, (∀ s ∈ texts, s.toList.head?.any Lexeme.isBracket = true) →
      (Token.onLine .word (c :: cs) line column).isOneOf texts = false := by
    intro texts htexts
    rw [Bool.eq_false_iff]
    intro h
    obtain ⟨s, hs, htext⟩ := (Token.isOneOf_iff _ _).mp h
    have := htexts s hs
    rw [← htext] at this
    simp [Token.onLine, hbracket] at this
  have hdepth : k.depthAfter (Token.onLine .word (c :: cs) line column) = k.depth := by
    rw [depthAfter, hno _ (by decide), hno _ (by decide)]
    rfl
  have hpush : k.push (Token.onLine .word (c :: cs) line column) =
      k.pushCode (Token.onLine .word (c :: cs) line column) := rfl
  rw [hpush, pushCode, hdepth]
  rfl

/-- A word held together with the hyphen behind it leaves what it leaves alone. -/
theorem Outline.after_hyphen
    {c : Char} (hbracket : Lexeme.isBracket c = false) (ds : Text) (line column column' : Nat) :
    after [Token.onLine .word (c :: ds) line column, Token.onLine .word ['-'] line column'] =
      after [Token.onLine .word (c :: (ds ++ ['-'])) line column] := by
  funext k
  rw [after, after, List.foldl_cons, List.foldl_cons, List.foldl_nil, List.foldl_cons,
    List.foldl_nil, push_word hbracket, push_word (by decide), push_word hbracket]
  simp

/-- A word that is cut in front of its hyphen leaves the outline that the whole word leaves. -/
theorem Cut.after_detachHyphen
    {line column : Nat} {t : Text} {ts : List Token} (h : Cut line column t ts) :
    Outline.after (detachHyphen ts) = Outline.after ts := by
  induction h with
  | done => rfl
  | blank _ _ ih => exact ih
  | @token column role c cs rest ts _ hmeasure _ ih =>
      cases ts with
      | cons u more =>
          rw [detachHyphen, Outline.after_cons, ih]
          rfl
      | nil =>
          rw [detachHyphen]
          cases hends : (Token.onLine role (c :: cs) line column).endsInHyphen with
          | false => rw [hyphenParts_of_not_endsInHyphen hends]
          | true =>
              obtain ⟨rfl, ds, rfl⟩ := endsInHyphen_onLine hends
              rw [List.length_append, List.length_singleton] at hmeasure
              have hbracket := Lexeme.isBracket_of_measure hmeasure
              rw [← List.cons_append, hyphenParts_onLine, List.cons_append]
              exact Outline.after_hyphen hbracket ds line column _

theorem map_after_detachHyphen (line : Nat) (t : Text) :
    ((tokenize line t).map detachHyphen).map Outline.after =
      (tokenize line t).map Outline.after := by
  cases htokens : tokenize line t with
  | error fault => rfl
  | ok ts =>
      refine congrArg Except.ok ?_
      unfold tokenize at htokens
      split at htokens
      · injection htokens with htokens
        rw [← htokens, detachHyphen_of_isComment rfl]
      · exact (cut_of_tokenizeFrom htokens).after_detachHyphen

/-! ## Lines -/

theorem map_after_append
    {ε : Type} (x : Except ε (List Token)) (ts : List Token) :
    (x.map (ts ++ ·)).map Outline.after =
      (x.map Outline.after).map fun after k => after (Outline.after ts k) := by
  cases x with
  | error e => rfl
  | ok us => exact congrArg Except.ok (Outline.after_append ts us)

/-- A line leaves the same outline, or is refused for the same fault, with and without blank
characters behind it. -/
theorem tokenize_trimRight (line : Nat) (t : Text) :
    (tokenize line (Text.trimRight t)).map Outline.after =
      (tokenize line t).map Outline.after := by
  obtain ⟨s, hs, hblank⟩ := Text.eq_trimRight_append t
  by_cases hne : s = []
  · rw [hne, List.append_nil] at hs
    rw [← hs]
  · conv_rhs => rw [hs, tokenize_append_eq_detachHyphen hblank hne, map_after_detachHyphen]

/-- Lines leave the same outline, or are refused for the same fault, with and without blank
characters behind them. -/
theorem tokenizeLines_trimRight (first : Nat) (lines : List Text) :
    (tokenizeLines first (lines.map Text.trimRight)).map Outline.after =
      (tokenizeLines first lines).map Outline.after := by
  induction lines generalizing first with
  | nil => rfl
  | cons l rest ih =>
      have hline := tokenize_trimRight first l
      rw [List.map_cons, tokenizeLines, tokenizeLines]
      cases htrimmed : tokenize first (Text.trimRight l) with
      | error fault =>
          cases hwhole : tokenize first l with
          | error fault' =>
              rw [htrimmed, hwhole] at hline
              injection hline with hfault
              rw [hfault]
          | ok ts => simp [htrimmed, hwhole, Except.map] at hline
      | ok ts =>
          cases hwhole : tokenize first l with
          | error fault' => simp [htrimmed, hwhole, Except.map] at hline
          | ok us =>
              rw [htrimmed, hwhole] at hline
              injection hline with hafter
              dsimp only
              rw [map_after_append, map_after_append, ih, hafter]

/-- Empty lines at the end hold no tokens. -/
theorem tokenizeLines_append_empty (first : Nat) (lines : List Text) (k : Nat) :
    tokenizeLines first (lines ++ List.replicate k []) = tokenizeLines first lines := by
  induction lines generalizing first with
  | nil =>
      induction k generalizing first with
      | zero => rfl
      | succ k ih =>
          have hempty : tokenize first [] = .ok [] := by simp [tokenize, tokenizeFrom]
          have hrest := ih (first + 1)
          rw [List.nil_append, tokenizeLines] at hrest
          simp only [List.nil_append, List.replicate_succ, tokenizeLines, hempty, hrest]
          rfl
  | cons l rest ih => simp only [List.cons_append, tokenizeLines, ih]

end AbapLayout
