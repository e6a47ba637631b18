import AbapLayout.Proofs.LetterCase
import AbapLayout.Proofs.Splitting
import AbapLayout.Validation

/-!
# Comparing texts member by member

The comparison of two texts repeats the shared words and the colon of a chain for every member.
`Expansion` is a machine on plain words that does the same: it gives out, at the end of a statement
or member, the shared words and the words held since.  Every word it takes is the next word it gives
out behind what it already holds (`step_holds_or_gives`), so the words can be told from what is given
out, and the comparison by members accepts exactly the texts with the same words.
-/

namespace AbapLayout

namespace Validation

/-- The code tokens of a text in capital letters, in the order of the text. -/
def flatWords (ts : List Token) : List Text :=
  (ts.filter Token.isCode).map Token.upper

/-- The pragmas of a text in capital letters, in the order of the text. -/
def flatPragmas (ts : List Token) : List Text :=
  (ts.filter Token.isPragma).map Token.upper

end Validation

/-- What has been read of a statement or member, in words. -/
structure Expansion where
  /-- The words in front of the colon of an open chain. -/
  shared : Option (List Text) := none
  pending : List Text := []
  /-- The number of open brackets. -/
  depth : Nat := 0

namespace Expansion

/-- The words that are repeated for every member. -/
def lead (e : Expansion) : List Text :=
  match e.shared with
  | none => []
  | some words => words ++ [[':']]

/-- The words that are given out with the next terminator, in front of it. -/
def held (e : Expansion) : List Text :=
  e.lead ++ e.pending

/-- The number of open brackets behind a word. -/
def depthAfter (e : Expansion) (w : Text) : Nat :=
  if w = ['('] ∨ w = ['['] then e.depth + 1
  else if w = [')'] ∨ w = [']'] then e.depth - 1
  else e.depth

/-- Takes one word, and gives the words out that it completes. -/
def step (e : Expansion) (w : Text) : List Text × Expansion :=
  if w = [':'] ∧ e.shared.isNone ∧ e.depth = 0 then
    ([], { shared := some e.pending })
  else if w = ['.'] then (e.held ++ [w], {})
  else if w = [','] ∧ e.shared.isSome ∧ e.depthAfter w = 0 then
    (e.held ++ [w], { shared := e.shared })
  else ([], { e with pending := e.pending ++ [w], depth := e.depthAfter w })

def run (e : Expansion) : List Text → List Text × Expansion
  | [] => ([], e)
  | w :: ws => ((e.step w).1 ++ ((e.step w).2.run ws).1, ((e.step w).2.run ws).2)

/-! ## The words can be told from what is given out -/

/-- A word is held behind the words held before, or given out behind them. -/
theorem step_holds_or_gives (e : Expansion) (w : Text) :
    (e.step w).1 = [] ∧ (e.step w).2.held = e.held ++ [w] ∨
      (e.step w).1 = e.held ++ [w] := by
  unfold step
  split
  next h =>
    obtain ⟨hw, hshared, -⟩ := h
    rw [Option.isNone_iff_eq_none] at hshared
    exact .inl ⟨rfl, by simp [held, lead, hshared, hw]⟩
  split
  · exact .inr rfl
  split
  · exact .inr rfl
  · exact .inl ⟨rfl, by simp [held, lead]⟩

/-- Words after which nothing is held begin, given out, with what was held and the first word. -/
theorem run_cons_of_finished
    (e : Expansion) (w : Text) (ws : List Text)
    (h : (e.run (w :: ws)).2.held = []) :
    ∃ more, (e.run (w :: ws)).1 = e.held ++ w :: more := by
  induction ws generalizing e w with
  | nil =>
      rcases step_holds_or_gives e w with ⟨-, hheld⟩ | hgives
      · simp [run, hheld] at h
      · exact ⟨[], by simp [run, hgives]⟩
  | cons v vs ih =>
      rcases step_holds_or_gives e w with ⟨hnone, hheld⟩ | hgives
      · obtain ⟨more, hmore⟩ := ih (e.step w).2 v h
        refine ⟨v :: more, ?_⟩
        rw [run, hnone, List.nil_append]
        simp only
        rw [hmore, hheld]
        simp
      · exact ⟨((e.step w).2.run (v :: vs)).1, by rw [run, hgives]; simp⟩

/-- What is given out determines the words. -/
theorem run_injective
    (e : Expansion) {ws vs : List Text}
    (hws : (e.run ws).2.held = []) (hvs : (e.run vs).2.held = [])
    (h : (e.run ws).1 = (e.run vs).1) :
    ws = vs := by
  induction ws generalizing e vs with
  | nil =>
      cases vs with
      | nil => rfl
      | cons v vs =>
          obtain ⟨more, hmore⟩ := run_cons_of_finished e v vs hvs
          rw [hmore] at h
          simp [run] at h
  | cons w ws ih =>
      obtain ⟨more, hmore⟩ := run_cons_of_finished e w ws hws
      cases vs with
      | nil =>
          rw [hmore] at h
          simp [run] at h
      | cons v vs =>
          obtain ⟨others, hothers⟩ := run_cons_of_finished e v vs hvs
          have hwv : w = v := by
            rw [hmore, hothers, List.append_cancel_left_eq] at h
            exact (List.cons.inj h).1
          subst hwv
          have hrest : ((e.step w).2.run ws).1 = ((e.step w).2.run vs).1 := by
            rw [run, run] at h
            exact List.append_cancel_left h
          rw [ih (e.step w).2 hws hvs hrest]

end Expansion

/-! ## Cutting into statements, seen in words -/

namespace Validation

/-- The tokens that are compared, in capital letters. -/
def comparedWords (ts : List Token) : List Text :=
  (ts.filter fun t => !t.isComment).map Token.upper

@[simp] theorem comparedWords_append (ts us : List Token) :
    comparedWords (ts ++ us) = comparedWords ts ++ comparedWords us := by
  simp [comparedWords]

@[simp] theorem codeWords_nil : codeWords [] = [] := rfl

theorem codeWords_append (raws more : List RawStatement) :
    codeWords (raws ++ more) = codeWords raws ++ codeWords more := by
  simp [codeWords]

theorem codeWords_cons (r : RawStatement) (raws : List RawStatement) :
    codeWords (r :: raws) = comparedWords r.tokens ++ codeWords raws := by
  simp [codeWords, comparedWords]

end Validation

namespace Unfinished

open Validation

/-- What has been read, in words. -/
def words (u : Unfinished) : Expansion :=
  { shared := u.chain.map fun c => comparedWords c.1
    pending := comparedWords u.pending
    depth := u.depth }

/-- The colon of an open chain is one. -/
def ColonInPlace (u : Unfinished) : Prop :=
  ∀ c, u.chain = some c → c.2.isComment = false ∧ c.2.upper = [':']

theorem comparedWords_opening
    {u : Unfinished} (h : u.ColonInPlace) :
    comparedWords u.opening.tokens = u.words.lead := by
  unfold opening
  cases hc : u.chain with
  | none => simp [Opening.tokens, Expansion.lead, words, hc, comparedWords]
  | some c =>
      obtain ⟨hcomment, hupper⟩ := h c hc
      simp [Opening.tokens, Expansion.lead, words, hc]
      simp [comparedWords, hcomment, hupper]

/-- Brackets are counted alike in tokens and in words. -/
theorem depthAfter_eq (u : Unfinished) (t : Token) :
    u.depthAfter t = u.words.depthAfter t.upper := by
  have hopen : t.isOneOf ["(", "["] = true ↔ t.upper = ['('] ∨ t.upper = ['['] := by
    rw [Token.isOneOf_iff, Token.upper, Text.upper_eq_singleton_iff (by decide),
      Text.upper_eq_singleton_iff (by decide)]
    simp
  have hclose : t.isOneOf [")", "]"] = true ↔ t.upper = [')'] ∨ t.upper = [']'] := by
    rw [Token.isOneOf_iff, Token.upper, Text.upper_eq_singleton_iff (by decide),
      Text.upper_eq_singleton_iff (by decide)]
    simp
  simp only [depthAfter, Expansion.depthAfter, hopen, hclose, words]

/-- A code token that opens no chain moves the machine on words as it moves the other one. -/
theorem pushCode_words
    {u : Unfinished} {t : Token}
    (hplace : u.ColonInPlace) (hlexed : t.Lexed) (hcomment : t.isComment = false)
    (hopens : ¬(t.upper = [':'] ∧ u.chain.isNone ∧ u.depth = 0)) :
    u.words.step t.upper =
      (codeWords (u.pushCode t).1.toList, (u.pushCode t).2.words) := by
  have hpunct := hlexed.separator_iff.1
  have hdot : t.upper = ['.'] ↔ t.text = ['.'] := Text.upper_eq_singleton_iff (by decide) _
  have hcomma : t.upper = [','] ↔ t.text = [','] := Text.upper_eq_singleton_iff (by decide) _
  have htoken : comparedWords [t] = [t.upper] := by simp [comparedWords, hcomment]
  have hgiven : codeWords [RawStatement.ofTokens u.opening (u.pending ++ [t]) u.pragmas] =
      u.words.held ++ [t.upper] := by
    rw [codeWords_cons]
    simp only [RawStatement.tokens, RawStatement.ofTokens, comparedWords_append,
      comparedWords_opening hplace, htoken]
    simp [codeWords, Expansion.held, words]
  rw [Expansion.step, if_neg (by simpa [words] using hopens)]
  simp only [hdot, hcomma, ← depthAfter_eq]
  unfold pushCode
  dsimp only
  by_cases hperiod : t.text = ['.']
  · rw [if_pos hperiod, if_pos ⟨hpunct.mpr (.inl hperiod), .inl hperiod⟩, if_pos hperiod]
    simp [hgiven, words, comparedWords]
  · rw [if_neg hperiod]
    by_cases hends : t.text = [','] ∧ u.words.shared.isSome ∧ u.depthAfter t = 0
    · obtain ⟨htext, hchain, hdepth⟩ := hends
      have hchain' : u.chain.isSome := by simpa [words] using hchain
      rw [if_pos ⟨htext, hchain, hdepth⟩,
        if_pos ⟨hpunct.mpr (.inr htext), .inr ⟨hchain', hdepth⟩⟩, if_neg hperiod]
      simp [hgiven, words, comparedWords, hdepth]
    · have hgoes : ¬(t.role = .punctuation ∧
          (t.text = ['.'] ∨ u.chain.isSome ∧ u.depthAfter t = 0)) := by
        rintro ⟨hrole, hor⟩
        rcases hpunct.mp hrole with h | h
        · exact hperiod h
        · rcases hor with h' | ⟨hchain, hdepth⟩
          · exact hperiod h'
          · exact hends ⟨h, by simpa [words] using hchain, hdepth⟩
      rw [if_neg hends, if_neg hgoes]
      simp [words, comparedWords_append, htoken, codeWords]

/-- A token moves the machine on words if it is code, and leaves it otherwise. -/
theorem push_words
    {u : Unfinished} {t : Token}
    (hplace : u.ColonInPlace) (hlexed : t.Lexed) :
    (if t.isCode then u.words.step t.upper else ([], u.words)) =
      (codeWords (u.push t).1.toList, (u.push t).2.words) := by
  have hcolon : t.upper = [':'] ↔ t.role = .colon := by
    rw [hlexed.separator_iff.2]
    exact Text.upper_eq_singleton_iff (by decide) _
  cases hrole : t.role with
  | comment =>
      have hcomment : t.isComment = true := by simp [Token.isComment, hrole]
      rw [push, hrole, if_neg (by simp [Token.isCode, hcomment])]
      dsimp only
      split
      · simp [codeWords, RawStatement.ofComment, RawStatement.tokens, Opening.tokens, hcomment]
      · simp [words, comparedWords, codeWords, hcomment]
  | pragma =>
      rw [push, hrole]
      simp [Token.isCode, Token.isPragma, hrole, words, codeWords]
  | colon =>
      have hcomment : t.isComment = false := by simp [Token.isComment, hrole]
      rw [push, hrole, if_pos (by simp [Token.isCode, Token.isComment, Token.isPragma, hrole])]
      dsimp only
      split
      next hopens =>
        rw [Expansion.step, if_pos ⟨hcolon.mpr hrole, by simpa [words] using hopens⟩]
        simp [words, comparedWords, codeWords, hopens.2]
      next hopens =>
        exact pushCode_words hplace hlexed hcomment (fun h => hopens h.2)
  | word | punctuation | literal | arrow =>
      have hcomment : t.isComment = false := by simp [Token.isComment, hrole]
      have hnoColon : t.upper ≠ [':'] := by simp [hcolon, hrole]
      rw [push, hrole, if_pos (by simp [Token.isCode, Token.isComment, Token.isPragma, hrole])]
      exact pushCode_words hplace hlexed hcomment (fun h => hnoColon h.1)

theorem pushCode_chain (u : Unfinished) (t : Token) :
    (u.pushCode t).2.chain = none ∨ (u.pushCode t).2.chain = u.chain := by
  unfold pushCode
  dsimp only
  split
  · split
    · exact .inl rfl
    · exact .inr rfl
  · exact .inr rfl

theorem ColonInPlace.push
    {u : Unfinished} {t : Token}
    (hplace : u.ColonInPlace) (hlexed : t.Lexed) :
    (u.push t).2.ColonInPlace := by
  have hcode : (u.pushCode t).2.ColonInPlace := by
    intro c hc
    rcases pushCode_chain u t with h | h
    · simp [h] at hc
    · exact hplace c (h ▸ hc)
  unfold Unfinished.push
  split
  · split
    · exact hplace
    · exact hplace
  · exact hplace
  next hrole =>
    split
    · intro c hc
      simp only [Option.some.injEq] at hc
      subst hc
      refine ⟨by simp [Token.isComment, hrole], ?_⟩
      rw [Token.upper, Text.upper_eq_singleton_iff (by decide)]
      exact hlexed.separator_iff.2.mp hrole
    · exact hcode
  · exact hcode

/-- The words of the statements of a text are those given out by the machine on words. -/
theorem codeWords_statements
    {u : Unfinished} {ts : List Token} {raws : List RawStatement}
    (hplace : u.ColonInPlace) (hlexed : ∀ t ∈ ts, t.Lexed)
    (h : u.statements ts = .ok raws) :
    codeWords raws = (u.words.run (flatWords ts)).1 ∧
      (u.words.run (flatWords ts)).2.held = [] := by
  induction ts generalizing u raws with
  | nil =>
      obtain ⟨rfl, hpending, -, hchain⟩ := statements_nil h
      simp [flatWords, Expansion.run, Expansion.held, Expansion.lead, words, hchain, hpending,
        comparedWords]
  | cons t ts ih =>
      have ht := hlexed t (by simp)
      have hmore : ∀ s ∈ ts, s.Lexed := fun s hs => hlexed s (by simp [hs])
      have hstep := push_words hplace ht
      -- The words of the text begin with that of the token if it is code.
      have hrun : (u.words.run (flatWords (t :: ts))) =
          (codeWords (u.push t).1.toList ++ ((u.push t).2.words.run (flatWords ts)).1,
            ((u.push t).2.words.run (flatWords ts)).2) := by
        cases hcode : t.isCode with
        | true =>
            rw [hcode, if_pos rfl] at hstep
            simp [flatWords, hcode, Expansion.run, hstep]
        | false =>
            rw [hcode, if_neg (by simp)] at hstep
            injection hstep with hgiven hwords
            simp [flatWords, hcode, ← hgiven, ← hwords]
      obtain ⟨rest, hrest, rfl⟩ := statements_cons h
      obtain ⟨hgiven, hend⟩ := ih (hplace.push ht) hmore hrest
      rw [hrun, codeWords_append, hgiven]
      exact ⟨rfl, hend⟩

end Unfinished

/-! ## The comparison -/

namespace Validation

theorem firstMismatch_accepts_iff
    (index : Nat) (ws vs : List Text) :
    ((firstMismatch index ws vs).getD .preserved).accepts = true ↔ ws = vs := by
  induction ws generalizing index vs with
  | nil => cases vs <;> simp [firstMismatch, Verdict.accepts]
  | cons w ws ih =>
      cases vs with
      | nil => simp [firstMismatch, Verdict.accepts]
      | cons v vs =>
          rw [firstMismatch]
          by_cases hwv : w = v
          · rw [if_pos hwv, ih, hwv, List.cons.injEq]
            simp
          · rw [if_neg hwv]
            simp [Verdict.accepts, hwv]

theorem compare_accepts_iff
    (before after : List RawStatement) :
    (compare before after).accepts = true ↔
      codeWords before = codeWords after ∧ (pragmaWords before).Perm (pragmaWords after) := by
  unfold compare
  split
  next hperm =>
    rw [firstMismatch_accepts_iff]
    simp [List.isPerm_iff.mp hperm]
  next hperm =>
    have hno : ¬(pragmaWords before).Perm (pragmaWords after) := by
      rwa [← List.isPerm_iff]
    simp [Verdict.accepts, hno]

theorem pragmaWords_statements
    {u : Unfinished} {ts : List Token} {raws : List RawStatement}
    (h : u.statements ts = .ok raws) :
    pragmaWords raws = u.pragmas.map Token.upper ++ flatPragmas ts := by
  have hmap : pragmaWords raws = (raws.flatMap (·.pragmas)).map Token.upper := by
    simp [pragmaWords, List.map_flatMap]
  rw [hmap, Unfinished.statements_pragmas h, List.map_append, flatPragmas]

/-- Comparing the words member by member is comparing the words. -/
theorem codeWords_eq_iff
    {ts us : List Token} {before after : List RawStatement}
    (hts : ∀ t ∈ ts, t.Lexed) (hus : ∀ t ∈ us, t.Lexed)
    (hbefore : ({} : Unfinished).statements ts = .ok before)
    (hafter : ({} : Unfinished).statements us = .ok after) :
    codeWords before = codeWords after ↔ flatWords ts = flatWords us := by
  have hplace : ({} : Unfinished).ColonInPlace := by
    intro c hc
    simp at hc
  obtain ⟨hwords, hend⟩ := Unfinished.codeWords_statements hplace hts hbefore
  obtain ⟨hwords', hend'⟩ := Unfinished.codeWords_statements hplace hus hafter
  rw [hwords, hwords']
  constructor
  · exact Expansion.run_injective _ hend hend'
  · intro h
    rw [h]

end Validation

open Validation

theorem validate_accepts_iff
    {source formatted : Text} {ts us : List Token} {before after : List RawStatement}
    (hbefore : Source.split source none = .ok before) (hts : Source.tokens source = .ok ts)
    (hafter : Source.split formatted none = .ok after) (hus : Source.tokens formatted = .ok us) :
    (validate source formatted).accepts = true ↔
      flatWords ts = flatWords us ∧ (flatPragmas ts).Perm (flatPragmas us) := by
  have hstatements := Source.statements_of_split hts hbefore
  have hstatements' := Source.statements_of_split hus hafter
  have hwords := codeWords_eq_iff (Source.lexed_of_mem_tokens hts)
    (Source.lexed_of_mem_tokens hus) hstatements hstatements'
  have hpragmas := pragmaWords_statements hstatements
  have hpragmas' := pragmaWords_statements hstatements'
  simp only [List.map_nil, List.nil_append] at hpragmas hpragmas'
  have hcompare : validate source formatted = compare before after := by
    unfold validate
    rw [hbefore, hafter]
  rw [hcompare, compare_accepts_iff, hwords, hpragmas, hpragmas']

/-- Two texts that can be cut into statements are accepted exactly if they have the same code tokens
in the same order, up to case, and the same pragmas in any order. -/
theorem validate_accepts_iff_flatWords
    {source formatted : Text}
    (hsource : (Source.split source none).isOk = true)
    (hformatted : (Source.split formatted none).isOk = true) :
    ∃ ts us, Source.tokens source = .ok ts ∧ Source.tokens formatted = .ok us ∧
      ((validate source formatted).accepts = true ↔
        flatWords ts = flatWords us ∧ (flatPragmas ts).Perm (flatPragmas us)) := by
  obtain ⟨before, hbefore⟩ := exists_eq_ok_of_isOk hsource
  obtain ⟨after, hafter⟩ := exists_eq_ok_of_isOk hformatted
  obtain ⟨ts, hts, -⟩ := Source.tokens_of_split hbefore
  obtain ⟨us, hus, -⟩ := Source.tokens_of_split hafter
  exact ⟨ts, us, hts, hus, validate_accepts_iff hbefore hts hafter hus⟩

/-- The case of a chain whose pragma moves to another member, and of one that repeats its keyword. -/
theorem validate_accepts_iff_flatWords_chain :
    (∃ ts us, Source.tokens "DATA: a,\n b ##N.".toList = .ok ts ∧
      Source.tokens "data: a ##n, b.".toList = .ok us ∧
      ((validate "DATA: a,\n b ##N.".toList "data: a ##n, b.".toList).accepts = true ↔
        flatWords ts = flatWords us ∧ (flatPragmas ts).Perm (flatPragmas us))) ∧
    (∃ ts us, Source.tokens "DATA: a, b.".toList = .ok ts ∧
      Source.tokens "DATA: a, DATA: b.".toList = .ok us ∧
      ((validate "DATA: a, b.".toList "DATA: a, DATA: b.".toList).accepts = true ↔
        flatWords ts = flatWords us ∧ (flatPragmas ts).Perm (flatPragmas us))) :=
  ⟨validate_accepts_iff_flatWords (by decide +kernel) (by decide +kernel),
    validate_accepts_iff_flatWords (by decide +kernel) (by decide +kernel)⟩

example : (validate "DATA: a,\n b ##N.".toList "data: a ##n, b.".toList).accepts = true := by
  decide +kernel

example : (validate "DATA: a, b.".toList "DATA: a, DATA: b.".toList).accepts = false := by
  decide +kernel

end AbapLayout
