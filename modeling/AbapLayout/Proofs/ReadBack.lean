import AbapLayout.Proofs.Acceptance
import AbapLayout.Proofs.ChainExpansion
import AbapLayout.Proofs.FullLines
import AbapLayout.Proofs.PrintedNeighbours
import AbapLayout.Proofs.TidyOutput

/-!
# Reading a printed source again

A formatted source is accepted if it has the words of its source when it is read again.  Reading sees
the text of a line and nothing else, so three things decide on this: whether a line that begins with
an asterisk is a full-line comment and nothing else is (`Line.StarsApart`), whether each token of code
is read as such in front of what stands behind it (`Line.ReadsBack`), and whether the pragmas survive
that their case is set (`PragmasKeepCase`).

Where no token of a line is misread, its tokens are read back one by one (`Spread.reads`).  At the
first one that is misread another word is read (`Spread.diverges`), and no text behind it makes up for
this.  So a source with its full-line comments apart is accepted exactly if each of its lines is read
back and the pragmas are as well (`validate_format_iff`).
-/

namespace AbapLayout

open Rendering Text Validation

/-! ## One unit -/

/-- The roles and texts of the tokens that are no comments. -/
def readUnits (ts : List Token) : List (Role × Text) :=
  (ts.filter fun t => !t.isComment).map fun t => (t.role, t.text)

/-- The roles of the printed tokens that are no comments, and what is printed for them. -/
def printedUnits (ps : List Placement) : List (Role × Text) :=
  (ps.filter fun p => !p.token.isComment).map fun p => (p.token.role, p.printed)

theorem readUnits_append (ts us : List Token) :
    readUnits (ts ++ us) = readUnits ts ++ readUnits us := by
  simp [readUnits]

theorem printedUnits_append (ps qs : List Placement) :
    printedUnits (ps ++ qs) = printedUnits ps ++ printedUnits qs := by
  simp [printedUnits]

theorem flatWords_eq_map_readUnits (ts : List Token) :
    flatWords ts =
      ((readUnits ts).filter fun r => r.1 != .pragma).map fun r => Text.upper r.2 := by
  rw [flatWords, readUnits, List.filter_map, List.filter_filter, List.map_map]
  refine congrArg (List.map _) (List.filter_congr fun t _ => ?_)
  exact Bool.and_comm _ _

theorem flatWords_append (ts us : List Token) :
    flatWords (ts ++ us) = flatWords ts ++ flatWords us := by
  simp [flatWords]

theorem flatPragmas_eq_map_readUnits (ts : List Token) :
    flatPragmas ts =
      ((readUnits ts).filter fun r => r.1 == .pragma).map fun r => Text.upper r.2 := by
  rw [flatPragmas, readUnits, List.filter_map, List.filter_filter, List.map_map]
  refine congrArg (List.map _) (List.filter_congr fun t _ => ?_)
  cases hrole : t.role <;> simp [Token.isPragma, Token.isComment, hrole]

/-- Tokens that are read as they are printed have the words of the tokens that are printed, if
printing changes these in case only. -/
theorem flatWords_eq_of_readUnits
    {us : List Token} {ps : List Placement} (h : readUnits us = printedUnits ps)
    (hupper : ∀ p ∈ ps, p.token.isCode = true → Text.upper p.printed = p.token.upper) :
    flatWords us = flatWords (ps.map (·.token)) := by
  rw [flatWords_eq_map_readUnits, h, printedUnits, List.filter_map, List.filter_filter,
    List.map_map, flatWords, List.filter_map, List.map_map]
  have hcode : (fun p : Placement => p.token.role != .pragma && !p.token.isComment) =
      Token.isCode ∘ (·.token) := by
    funext p
    exact Bool.and_comm _ _
  simp only [Function.comp_def] at hcode ⊢
  rw [hcode]
  exact List.map_congr_left fun p hp =>
    hupper p (List.mem_filter.mp hp).1 (List.mem_filter.mp hp).2

/-- Pragmas that are read as they are printed have the words of the pragmas that are printed, in the
case in which they are. -/
theorem flatPragmas_eq_of_readUnits
    {o : Options} {us : List Token} {ps : List Placement} (h : readUnits us = printedUnits ps)
    (htext : ∀ p ∈ ps, ∃ previous before, p.printed = tokenText o p.token previous before) :
    flatPragmas us =
      ((ps.map (·.token)).filter Token.isPragma).map
        fun t => Text.upper (Keyword.setCase o.keywordCase t.text) := by
  rw [flatPragmas_eq_map_readUnits, h, printedUnits, List.filter_map, List.filter_filter,
    List.map_map, List.filter_map, List.map_map]
  have hpragma : (fun p : Placement => p.token.role == .pragma && !p.token.isComment) =
      Token.isPragma ∘ (·.token) := by
    funext p
    cases hrole : p.token.role <;> simp [Token.isPragma, Token.isComment, hrole]
  simp only [Function.comp_def] at hpragma ⊢
  rw [hpragma]
  refine List.map_congr_left fun p hp => ?_
  obtain ⟨hp, hpragma⟩ := List.mem_filter.mp hp
  obtain ⟨previous, before, htext⟩ := htext p hp
  rw [htext, Token.tokenText_of_isPragma o previous before hpragma]

/-- Tokens that are read as they are printed end in a period if the printed ones do. -/
theorem endsInPeriod_of_readUnits
    {o : Options} {us : List Token} {ps : List Placement} (h : readUnits us = printedUnits ps)
    (htext : ∀ p ∈ ps, ∃ previous before, p.printed = tokenText o p.token previous before)
    (hends : EndsInPeriod (ps.map (·.token))) :
    EndsInPeriod us := by
  intro t ht
  have hlast := congrArg List.getLast? h
  rw [readUnits, printedUnits, List.getLast?_map, List.getLast?_map, ht, Option.map_some, eq_comm,
    Option.map_eq_some_iff] at hlast
  obtain ⟨p, hp, heq⟩ := hlast
  obtain ⟨hrole, hprinted⟩ := Prod.mk.inj heq
  have hperiod : p.token.isPeriod = true := by
    refine hends p.token ?_
    rw [List.filter_map, List.getLast?_map]
    exact Option.map_eq_some_iff.mpr ⟨p, hp, rfl⟩
  obtain ⟨previous, before, htext⟩ := htext p (List.mem_filter.mp (List.mem_of_getLast? hp)).1
  rw [tokenText_of_isPeriod o hperiod] at htext
  rw [Token.isPeriod, ← hrole, ← hprinted, htext]
  exact hperiod

/-- A unit at the front of a line is its first token. -/
theorem tokenizeFrom_unit
    {c : Char} {cs b : Text} {role : Role} (hblank : isBlank c = false)
    (hmeasure : Lexeme.measure c (cs ++ b) = .ok (role, cs.length)) (line column : Nat) :
    tokenizeFrom line column (c :: cs ++ b) =
      (tokenizeFrom line (column + (c :: cs).length) b).map
        (Token.onLine role (c :: cs) line column :: ·) := by
  rw [List.cons_append, tokenizeFrom, if_neg (by simp [hblank]), hmeasure]
  simp only [List.drop_left, List.take_left, List.length_cons]

/-- A comment is the last token of its line. -/
theorem tokenizeFrom_sign (line column : Nat) (comment : Text) :
    ∃ t : Token, t.isComment = true ∧
      tokenizeFrom line column (Comment.sign :: comment) = .ok [t] := by
  obtain ⟨s, hs, hblank⟩ := eq_trimRight_append comment
  have hmeasure : Lexeme.measure Comment.sign (trimRight comment ++ s) =
      .ok (.comment, (trimRight comment).length) := by
    rw [← hs]
    rfl
  refine ⟨Token.onLine .comment (Comment.sign :: trimRight comment) line column, rfl, ?_⟩
  have hunit := tokenizeFrom_unit (by decide) hmeasure line column
  rw [List.cons_append, ← hs, tokenizeFrom_of_blank hblank] at hunit
  exact hunit

section

variable {o : Options} {ts : List Token} {rest : Nat → Nat → Text} {p : Placement} {b : Text}

/-- A code token is printed as its word, up to case. -/
theorem Token.Standing.upper_tokenText
    {t : Token} (hts : Token.Standing rest ts) (ht : t ∈ ts) (hcode : t.isCode = true)
    (o : Options) (previous before : Option Token) :
    Text.upper (tokenText o t previous before) = t.upper := by
  have hstar : t.isStarComment = false := by
    rw [Token.isCode, Bool.and_eq_true, Bool.not_eq_true'] at hcode
    simp [Token.isStarComment, hcode.1]
  obtain ⟨f, -, -, hprinted, hupper⟩ :=
    Token.tokenText_of_isCode o previous before (hts.placed t ht hstar).isUnit hcode
  rw [hprinted, hupper]

theorem Token.Behind.tokenizeFrom_eq
    (h : p.token.Behind o ts b) (hts : Token.Standing rest ts) (hp : p.token ∈ ts)
    (htext : ∃ previous before, p.printed = tokenText o p.token previous before)
    (hcomment : p.token.isComment = false)
    (hread : p.token.isCode = true → ¬Lexeme.Misread p.printed b) (line column : Nat) :
    ∃ u : Token, readUnits [u] = printedUnits [p] ∧
      tokenizeFrom line column (p.printed ++ b) =
        (tokenizeFrom line (column + p.printed.length) b).map (u :: ·) := by
  obtain ⟨previous, before, htext⟩ := htext
  obtain ⟨c, cs, hprinted, hblank, hmeasure⟩ : ∃ c cs, p.printed = c :: cs ∧ isBlank c = false ∧
      Lexeme.measure c (cs ++ b) = .ok (p.token.role, cs.length) := by
    cases hcode : p.token.isCode with
    | true =>
        obtain ⟨c, cs, hprinted, hblank, -, hkept, -⟩ := h.measure_code hts hp hcode previous before
        rw [← htext] at hprinted
        exact ⟨c, cs, hprinted, hblank, hkept (hprinted ▸ hread hcode)⟩
    | false =>
        have hpragma : p.token.isPragma = true := by
          simpa [Token.isCode, hcomment] using hcode
        obtain ⟨c, cs, hprinted, hblank, hmeasure⟩ :=
          h.measure_pragma hts hp hpragma previous before
        have hrole : p.token.role = .pragma := by simpa [Token.isPragma] using hpragma
        exact ⟨c, cs, htext.trans hprinted, hblank, hrole ▸ hmeasure⟩
  refine ⟨Token.onLine p.token.role (c :: cs) line column, ?_, ?_⟩
  · have hrole : (p.token.role == .comment) = false := hcomment
    simp [readUnits, printedUnits, Token.isComment, Token.onLine, hrole, hprinted]
  · rw [hprinted]
    exact tokenizeFrom_unit hblank hmeasure line column

theorem Token.Behind.upper_ne
    (h : p.token.Behind o ts b) (hts : Token.Standing rest ts) (hp : p.token ∈ ts)
    (htext : ∃ previous before, p.printed = tokenText o p.token previous before)
    (hcode : p.token.isCode = true) (hmisread : Lexeme.Misread p.printed b)
    {line column : Nat} {us : List Token}
    (hus : tokenizeFrom line column (p.printed ++ b) = .ok us) :
    ∃ u more, us = u :: more ∧ u.isCode = true ∧ u.upper ≠ p.token.upper := by
  obtain ⟨previous, before, htext⟩ := htext
  obtain ⟨c, cs, hprinted, hblank, -, -, hlost⟩ := h.measure_code hts hp hcode previous before
  rw [← htext] at hprinted
  obtain ⟨role, n, hmeasure, hrole, hupper⟩ := hlost (hprinted ▸ hmisread)
  rw [hprinted, List.cons_append, tokenizeFrom, if_neg (by simp [hblank]), hmeasure] at hus
  obtain ⟨more, -, rfl⟩ := map_eq_ok_iff.mp hus
  refine ⟨_, more, rfl, ?_, hupper⟩
  rcases hrole with rfl | rfl <;> rfl

end

/-! ## The tokens of a line -/

/-- No code token on a stretch of a line that starts in the given column is misread in front of what
stands behind it. -/
def Faithful (column : Nat) (ps : List Placement) (text : Text) : Prop :=
  ∀ p ∈ ps, p.token.isCode = true →
    ¬Lexeme.Misread p.printed (text.drop (p.endColumn - column))

/-- What stands behind the tokens of a printed line: blanks, and perhaps a comment. -/
def Text.IsTrailing (t : Text) : Prop :=
  ∃ n, t = blanks n ∨ ∃ comment, t = blanks n ++ Comment.sign :: comment

theorem Text.IsTrailing.followsTokens {t : Text} (h : IsTrailing t) : t.FollowsTokens := by
  obtain ⟨n, rfl | ⟨comment, rfl⟩⟩ := h
  · intro c hc
    cases n with
    | zero => simp [blanks] at hc
    | succ n => exact .inl (Option.some.inj hc).symm
  · intro c hc
    cases n with
    | zero => exact .inr (Option.some.inj hc).symm
    | succ n => exact .inl (Option.some.inj hc).symm

theorem Text.IsTrailing.tokenizeFrom_eq {t : Text} (h : IsTrailing t) (line column : Nat) :
    ∃ us, tokenizeFrom line column t = .ok us ∧ readUnits us = [] := by
  obtain ⟨n, rfl | ⟨comment, rfl⟩⟩ := h
  · exact ⟨[], tokenizeFrom_of_blank (fun c hc => isBlank_of_mem_blanks hc) line column, rfl⟩
  · obtain ⟨u, hu, heq⟩ := tokenizeFrom_sign line (column + n) comment
    exact ⟨[u], by rw [tokenizeFrom_blanks, heq], by simp [readUnits, hu]⟩

/-- Two lists of words that agree up to a place where they differ. -/
def Diverge (ws vs : List Text) : Prop :=
  ∃ front w v ws' vs', ws = front ++ w :: ws' ∧ vs = front ++ v :: vs' ∧ w ≠ v

theorem Diverge.ne {ws vs : List Text} (h : Diverge ws vs) : ws ≠ vs := by
  obtain ⟨front, w, v, ws', vs', rfl, rfl, hne⟩ := h
  intro heq
  exact hne (List.cons.inj (List.append_cancel_left heq)).1

theorem Diverge.append_left {ws vs : List Text} (h : Diverge ws vs) (us : List Text) :
    Diverge (us ++ ws) (us ++ vs) := by
  obtain ⟨front, w, v, ws', vs', rfl, rfl, hne⟩ := h
  exact ⟨us ++ front, w, v, ws', vs', by simp, by simp, hne⟩

theorem Diverge.append_right {ws vs : List Text} (h : Diverge ws vs) (us us' : List Text) :
    Diverge (ws ++ us) (vs ++ us') := by
  obtain ⟨front, w, v, ws', vs', rfl, rfl, hne⟩ := h
  exact ⟨front, w, v, ws' ++ us, vs' ++ us', by simp, by simp, hne⟩

section

variable {o : Options} {ts : List Token} {rest : Nat → Nat → Text} {column n : Nat}
  {p : Placement} {ps : List Placement} {body tail : Text}

theorem faithful_cons_iff
    (hcolumn : p.column = column + n) (hrest : Spread p.endColumn ps body) :
    Faithful column (p :: ps) (blanks n ++ (p.printed ++ (body ++ tail))) ↔
      (p.token.isCode = true → ¬Lexeme.Misread p.printed (body ++ tail)) ∧
        Faithful p.endColumn ps (body ++ tail) := by
  have hdrop (q : Placement) (hq : p.endColumn ≤ q.endColumn) :
      (blanks n ++ (p.printed ++ (body ++ tail))).drop (q.endColumn - column) =
        (body ++ tail).drop (q.endColumn - p.endColumn) := by
    have hsplit : q.endColumn - column =
        (blanks n ++ p.printed).length + (q.endColumn - p.endColumn) := by
      simp only [Placement.endColumn, List.length_append, length_blanks] at hq ⊢
      omega
    rw [hsplit, ← List.drop_drop, ← List.append_assoc, List.drop_left]
  have hbehind (q : Placement) (hq : q ∈ ps) : p.endColumn ≤ q.endColumn :=
    ((hrest.slice [] q hq).1).trans (Nat.le_add_right _ _)
  have hfirst := hdrop p (Nat.le_refl _)
  rw [Nat.sub_self, List.drop_zero] at hfirst
  rw [Faithful, List.forall_mem_cons, hfirst]
  refine and_congr_right fun _ => forall₂_congr fun q hq => ?_
  rw [hdrop q (hbehind q hq)]

/-- A comment among the tokens of a line begins with its sign. -/
theorem OnCodeLine.printed_of_isComment
    (hts : Token.Standing rest ts) (hprint : OnCodeLine o ts (p :: ps))
    (hcomment : p.token.isComment = true) :
    ∃ comment, p.printed = Comment.sign :: comment := by
  have hstar := hprint.star p (by simp)
  have hlexed := hts.lexed p.token (hprint.mem p (by simp))
  obtain ⟨previous, before, htext⟩ := hprint.text p (by simp)
  obtain ⟨c, cs, d, ds, hwritten, hprinted, hsame⟩ := hlexed.head_tokenText o previous before hstar
  obtain ⟨e, es, more, hwritten', -, hmeasure⟩ : p.token.IsUnit :=
    hlexed.unit.resolve_right fun hno => by simp [hstar] at hno
  have hrole : p.token.role = .comment := by simpa [Token.isComment] using hcomment
  rw [hrole] at hmeasure
  have hc : c = Comment.sign := by
    rw [hwritten] at hwritten'
    exact (List.cons.inj hwritten').1.trans (Lexeme.measure_comment hmeasure).1
  refine ⟨ds, ?_⟩
  rw [htext, hprinted]
  rcases hsame with rfl | ⟨halpha, -⟩
  · rw [hc]
  · rw [hc] at halpha
    exact absurd halpha (by decide)

/-- What stands behind the first token of a stretch. -/
theorem OnCodeLine.behind
    (hprint : OnCodeLine o ts (p :: ps)) (hrest : Spread p.endColumn ps body)
    (htail : tail.IsTrailing) :
    p.token.Behind o ts (body ++ tail) :=
  hrest.behind hprint.tail htail.followsTokens fun _ hq htouch =>
    ⟨hprint.touch.rel_head? hq htouch, hprint.yields.rel_head? hq⟩

/-- A stretch of a line without misread tokens is read as it is printed. -/
theorem Spread.reads
    (hts : Token.Standing rest ts) (h : Spread column ps body) (hprint : OnCodeLine o ts ps)
    (htail : tail.IsTrailing) (hfaithful : Faithful column ps (body ++ tail))
    (line place : Nat) :
    ∃ us, tokenizeFrom line place (body ++ tail) = .ok us ∧ readUnits us = printedUnits ps := by
  induction h generalizing place with
  | nil column => exact htail.tokenizeFrom_eq line place
  | @cons column n p ps body hcolumn _ hrest ih =>
      rw [List.append_assoc, List.append_assoc] at hfaithful ⊢
      obtain ⟨hread, hfaithful⟩ := (faithful_cons_iff hcolumn hrest).mp hfaithful
      rw [tokenizeFrom_blanks]
      cases hcomment : p.token.isComment with
      | true =>
          obtain ⟨comment, hprinted⟩ := hprint.printed_of_isComment hts hcomment
          obtain ⟨u, hu, heq⟩ := tokenizeFrom_sign line (place + n) (comment ++ (body ++ tail))
          refine ⟨[u], ?_, ?_⟩
          · rw [hprinted, List.cons_append, heq]
          · simp [readUnits, printedUnits, hu, hcomment, hprint.eq_nil_of_isComment hcomment]
      | false =>
          obtain ⟨u, hu, heq⟩ := (hprint.behind hrest htail).tokenizeFrom_eq hts
            (hprint.mem p (by simp)) (hprint.text p (by simp)) hcomment hread line (place + n)
          obtain ⟨us, hus, hunits⟩ := ih hprint.tail hfaithful (place + n + p.printed.length)
          refine ⟨u :: us, ?_, ?_⟩
          · rw [heq, hus]
            rfl
          · calc
              readUnits (u :: us) = readUnits [u] ++ readUnits us := readUnits_append [u] us
              _ = printedUnits [p] ++ printedUnits ps := by rw [hu, hunits]
              _ = printedUnits (p :: ps) := (printedUnits_append [p] ps).symm

/-- Where a token of a stretch is misread, another word is read than the one in the source. -/
theorem Spread.diverges
    (hts : Token.Standing rest ts) (h : Spread column ps body) (hprint : OnCodeLine o ts ps)
    (htail : tail.IsTrailing) (hmisread : ¬Faithful column ps (body ++ tail))
    {line place : Nat} {us : List Token}
    (hus : tokenizeFrom line place (body ++ tail) = .ok us) :
    Diverge (flatWords us) (flatWords (ps.map (·.token))) := by
  induction h generalizing place us with
  | nil column => exact absurd (by simp [Faithful]) hmisread
  | @cons column n p ps body hcolumn _ hrest ih =>
      rw [List.append_assoc, List.append_assoc] at hmisread hus
      rw [tokenizeFrom_blanks] at hus
      rw [faithful_cons_iff hcolumn hrest, not_and_or] at hmisread
      have hbehind := hprint.behind hrest htail
      have hmem := hprint.mem p (by simp)
      have htext := hprint.text p (by simp)
      by_cases hread : p.token.isCode = true → ¬Lexeme.Misread p.printed (body ++ tail)
      · have hmisread := hmisread.resolve_left (not_not_intro hread)
        cases hcomment : p.token.isComment with
        | true =>
            rw [hprint.eq_nil_of_isComment hcomment] at hmisread
            exact absurd (by simp [Faithful]) hmisread
        | false =>
            obtain ⟨u, hu, heq⟩ :=
              hbehind.tokenizeFrom_eq hts hmem htext hcomment hread line (place + n)
            rw [heq] at hus
            obtain ⟨more, hmore, rfl⟩ := map_eq_ok_iff.mp hus
            -- The token is read as it is printed, so the words part behind it.
            have hsame : flatWords [u] = flatWords [p.token] := by
              refine flatWords_eq_of_readUnits hu fun q hq hcode => ?_
              obtain ⟨previous, before, htext⟩ := htext
              rw [List.mem_singleton.mp hq] at hcode ⊢
              rw [htext, hts.upper_tokenText hmem hcode]
            have hdiverge := (ih hprint.tail hmisread hmore).append_left (flatWords [u])
            rwa [← flatWords_append, hsame, ← flatWords_append] at hdiverge
      · obtain ⟨hcode, hmisread⟩ := Classical.not_imp.mp hread
        obtain ⟨u, more, rfl, hu, hupper⟩ :=
          hbehind.upper_ne hts hmem htext hcode (not_not.mp hmisread) hus
        exact ⟨[], u.upper, p.token.upper, flatWords more, flatWords (ps.map (·.token)),
          by simp [flatWords, hu], by simp [flatWords, hcode], hupper⟩

end

/-! ## Printed lines -/

/-- The full-line comments among the tokens of a line are alone on it, and a line that begins with an
asterisk is one. -/
def Line.StarsApart (l : Line) : Prop :=
  (∀ p ∈ l.placements, p.token.isStarComment = true → p.column = 0) ∧
    (Comment.isStarText l.text = true → l.beginsWithCode = false)

instance : DecidablePred Line.StarsApart :=
  fun l => inferInstanceAs (Decidable (_ ∧ (_ → l.beginsWithCode = false)))

/-- No code token of a line is misread in front of what stands behind it. -/
def Line.ReadsBack (l : Line) : Prop :=
  ∀ p ∈ l.placements, p.token.isCode = true →
    ¬Lexeme.Misread p.printed (l.text.drop p.endColumn)

instance : DecidablePred Line.ReadsBack :=
  fun l => inferInstanceAs (Decidable (∀ p ∈ l.placements, p.token.isCode = true → _))

/-- A printed line that shows tokens of a source, among them full-line comments only if these are
alone on it. -/
structure Line.FromTokens (o : Options) (ts : List Token) (l : Line) : Prop where
  laid : l.Laid
  print : InPrint o ts l.placements
  stars : l.StarsApart

namespace Line.FromTokens

variable {o : Options} {ts : List Token} {rest : Nat → Nat → Text} {l : Line}

/-- A full-line comment without code, or a line of code with what stands behind it. -/
theorem starred_or_code (h : l.FromTokens o ts) :
    (∃ comment, l.text = '*' :: comment) ∧ (∀ p ∈ l.placements, p.token.isComment = true) ∨
      l.text.head? ≠ some '*' ∧ OnCodeLine o ts l.placements ∧
        ∃ body tail, l.text = body ++ tail ∧ Spread 0 l.placements body ∧ tail.IsTrailing := by
  have hprint := h.print
  by_cases hstar : l.text.head? = some '*'
  · refine .inl ⟨List.head?_eq_some_iff.mp hstar, ?_⟩
    have hcode := h.stars.2 (by simpa [Comment.isStarText] using hstar)
    cases hps : l.placements with
    | nil => simp
    | cons p ps =>
        rw [hps] at hprint
        have hcomment : p.token.isComment = true := by simpa [Line.beginsWithCode, hps] using hcode
        simpa [hprint.eq_nil_of_isComment hcomment] using hcomment
  · have hcode : ∀ p ∈ l.placements, p.token.isStarComment = false := by
      intro p hp
      refine Bool.eq_false_iff.mpr fun hstarred => hstar ?_
      -- A full-line comment in the first column is what the line begins with.
      obtain ⟨previous, before, htext⟩ := hprint.text p hp
      have hshown := h.laid.shown.2 p hp
      rw [h.stars.1 p hp hstarred, List.drop_zero, htext, tokenText, if_pos hstarred] at hshown
      obtain ⟨cs, hcs⟩ : ∃ cs, p.token.text = '*' :: cs := by
        rw [Token.isStarComment, Bool.and_eq_true, beq_iff_eq] at hstarred
        exact List.head?_eq_some_iff.mp hstarred.2
      rw [← List.take_append_drop p.token.text.length l.text, hshown, hcs]
      rfl
    refine .inr ⟨hstar, ⟨hprint, hcode⟩, ?_⟩
    rcases h.laid with ⟨n, body, htext, hspread⟩ | ⟨n, comment, -, body, htext, hspread⟩ |
      ⟨-, comment, -, htext⟩
    · exact ⟨body, _, htext, hspread, n, .inl rfl⟩
    · exact ⟨body, _, htext, hspread, n, .inr ⟨comment, rfl⟩⟩
    · exact absurd (by simp [htext]) hstar

theorem upper_printed
    (h : l.FromTokens o ts) (hts : Token.Standing rest ts) {p : Placement} (hp : p ∈ l.placements)
    (hcode : p.token.isCode = true) :
    Text.upper p.printed = p.token.upper := by
  obtain ⟨previous, before, htext⟩ := h.print.text p hp
  rw [htext, hts.upper_tokenText (h.print.mem p hp) hcode]

/-- A line without misread tokens is read as it is printed. -/
theorem reads
    (h : l.FromTokens o ts) (hts : Token.Standing rest ts) (hread : l.ReadsBack) (line : Nat) :
    ∃ us, tokenize line l.text = .ok us ∧ readUnits us = printedUnits l.placements := by
  rcases h.starred_or_code with ⟨⟨comment, htext⟩, hcomment⟩ |
    ⟨hstar, hprint, body, tail, htext, hspread, htail⟩
  · refine ⟨_, by rw [htext, tokenize], ?_⟩
    have hnone : l.placements.filter (fun p => !p.token.isComment) = [] :=
      List.filter_eq_nil_iff.mpr fun p hp => by simp [hcomment p hp]
    rw [printedUnits, hnone]
    rfl
  · rw [tokenize_eq_tokenizeFrom hstar]
    rw [Line.ReadsBack, htext] at hread
    rw [htext]
    exact hspread.reads hts hprint htail hread line 0

/-- On a line with a misread token another word is read than the one in the source. -/
theorem diverges
    (h : l.FromTokens o ts) (hts : Token.Standing rest ts) (hmisread : ¬l.ReadsBack)
    {line : Nat} {us : List Token} (hus : tokenize line l.text = .ok us) :
    Diverge (flatWords us) (flatWords (l.placements.map (·.token))) := by
  rcases h.starred_or_code with ⟨-, hcomment⟩ |
    ⟨hstar, hprint, body, tail, htext, hspread, htail⟩
  · refine absurd (fun p hp hcode => ?_) hmisread
    simp [Token.isCode, hcomment p hp] at hcode
  · rw [tokenize_eq_tokenizeFrom hstar, htext] at hus
    rw [Line.ReadsBack, htext] at hmisread
    exact hspread.diverges hts hprint htail hmisread hus

end Line.FromTokens

/-! ## Printed documents -/

section

variable {o : Options} {ts : List Token} {rest : Nat → Nat → Text} {lines : List Line}

/-- Lines without misread tokens are read as they are printed. -/
theorem tokenizeLines_of_readsBack
    (hts : Token.Standing rest ts) (hlines : ∀ l ∈ lines, l.FromTokens o ts)
    (hread : ∀ l ∈ lines, l.ReadsBack) (first : Nat) :
    ∃ us, tokenizeLines first (lines.map (·.text) ++ [[]]) = .ok us ∧
      readUnits us = printedUnits (lines.flatMap (·.placements)) := by
  induction lines generalizing first with
  | nil => exact ⟨[], by simp [tokenizeLines, tokenize, tokenizeFrom, Except.map], rfl⟩
  | cons l more ih =>
      rw [List.forall_mem_cons] at hlines hread
      obtain ⟨us, hus, hunits⟩ := hlines.1.reads hts hread.1 first
      obtain ⟨vs, hvs, hunits'⟩ := ih hlines.2 hread.2 (first + 1)
      refine ⟨us ++ vs, ?_, ?_⟩
      · rw [List.map_cons, List.cons_append, tokenizeLines, hus]
        exact map_eq_ok_iff.mpr ⟨vs, hvs, rfl⟩
      · rw [readUnits_append, hunits, hunits', List.flatMap_cons, printedUnits_append]

/-- Of lines with a misread token other words are read than those in the source. -/
theorem diverge_of_misread
    (hts : Token.Standing rest ts) (hlines : ∀ l ∈ lines, l.FromTokens o ts)
    (hmisread : ¬∀ l ∈ lines, l.ReadsBack) {first : Nat} {us : List Token}
    (hus : tokenizeLines first (lines.map (·.text) ++ [[]]) = .ok us) :
    Diverge (flatWords us) (flatWords ((lines.flatMap (·.placements)).map (·.token))) := by
  induction lines generalizing first us with
  | nil => simp at hmisread
  | cons l more ih =>
      rw [List.forall_mem_cons] at hlines hmisread
      rw [List.map_cons, List.cons_append, tokenizeLines] at hus
      cases htokens : tokenize first l.text with
      | error fault => simp [htokens] at hus
      | ok vs =>
          rw [htokens] at hus
          obtain ⟨ws, hws, rfl⟩ := map_eq_ok_iff.mp hus
          rw [List.flatMap_cons, List.map_append, flatWords_append, flatWords_append]
          by_cases hread : l.ReadsBack
          · obtain ⟨vs', hvs', hunits⟩ := hlines.1.reads hts hread first
            obtain rfl : vs = vs' := by simpa [htokens] using hvs'
            rw [flatWords_eq_of_readUnits hunits fun p hp => hlines.1.upper_printed hts hp]
            exact (ih hlines.2 (fun hmore => hmisread ⟨hread, hmore⟩) hws).append_left _
          · exact (hlines.1.diverges hts hread htokens).append_right _ _

end

/-! ## Formatted sources -/

section

variable {o : Options} {source : Text} {filename : Option String} {ts : List Token}
  {raws : List RawStatement} {statements : List Statement}

theorem standing_of_tokens (hts : Source.tokens source = .ok ts) :
    ∃ rest, Token.Standing rest ts :=
  ⟨_, Source.lexed_of_mem_tokens hts, placed_of_tokenizeLines hts⟩

/-- The rows of a source have its words. -/
theorem flatWords_rows
    (hts : Source.tokens source = .ok ts) (hraws : ({} : Unfinished).statements ts = .ok raws) :
    flatWords (RawStatement.rows false raws).flatten = flatWords ts := by
  rw [flatWords, Unfinished.filter_isCode_rows false (Source.lexed_of_mem_tokens hts) (by simp)
    (by simp) hraws]
  rfl

theorem filter_isPragma_rows
    (hts : Source.tokens source = .ok ts) (hraws : ({} : Unfinished).statements ts = .ok raws) :
    (RawStatement.rows false raws).flatten.filter Token.isPragma = ts.filter Token.isPragma := by
  have hlexed := Source.lexed_of_mem_tokens hts
  have hgrouped := (Unfinished.run_of_statements hlexed hraws).grouped (.inl rfl)
  rw [RawStatement.filter_isPragma_rows false (pragmasApart_of_statements hlexed hraws)
    hgrouped.pragmas_of_comment, Unfinished.statements_pragmas hraws]
  rfl

/-- In the rows of a source pragmas stand in front of terminators, and the last token of all is a
terminator. -/
theorem pragmasInPlace_of_statements
    (hlexed : ∀ t ∈ ts, t.Lexed) (hraws : ({} : Unfinished).statements ts = .ok raws) :
    PragmasInPlace (RawStatement.rows false raws).flatten ∧
      ∀ t ∈ (RawStatement.rows false raws).flatten.getLast?, t.isTerminator = true := by
  have hgrouped := (Unfinished.run_of_statements hlexed hraws).grouped (.inl rfl)
  have hapart := pragmasApart_of_statements hlexed hraws
  refine RawStatement.pragmasInPlace_rows false hapart fun r hr hkind => ?_
  obtain ⟨init, terminator, hrow, hterminator, hinit, -⟩ :=
    hgrouped.row_terminated hapart r hr hkind
  exact ⟨init, terminator, hrow, hterminator, hinit⟩

theorem getLast?_filter_of_getLast?
    {α : Type} {xs : List α} {x : α} {p : α → Bool} (h : xs.getLast? = some x) (hx : p x = true) :
    (xs.filter p).getLast? = some x := by
  obtain ⟨front, rfl⟩ := List.getLast?_eq_some_iff.mp h
  simp [List.filter_append, hx]

/-- What ends a statement or member is code. -/
theorem Token.isCode_of_isTerminator {t : Token} (h : t.isTerminator = true) : t.isCode = true := by
  have hrole : t.role = .punctuation := by
    rw [isTerminator, Bool.and_eq_true, beq_iff_eq] at h
    exact h.1
  simp [isCode, isComment, isPragma, hrole]

theorem Token.isTerminator_of_isPeriod {t : Token} (h : t.isPeriod = true) :
    t.isTerminator = true := by
  obtain ⟨hrole, htext⟩ : t.role = .punctuation ∧ t.text = ['.'] := by simpa [isPeriod] using h
  simp [isTerminator, isOneOf, hrole, htext]

/-- If the last token is a terminator, it is the period in which the code ends. -/
theorem endsInPeriod_of_isTerminator
    {us : List Token} (hsame : us.filter Token.isCode = ts.filter Token.isCode)
    (hperiod : EndsInPeriod ts) (hlast : ∀ t ∈ us.getLast?, t.isTerminator = true) :
    EndsInPeriod us := by
  intro t ht
  obtain ⟨z, hz⟩ : ∃ z, us.getLast? = some z := by
    rw [← Option.isSome_iff_exists, List.getLast?_isSome]
    rintro rfl
    simp at ht
  have hcode := Token.isCode_of_isTerminator (hlast z hz)
  obtain rfl : z = t := by
    rw [getLast?_filter_of_getLast? hz (by
      rw [Token.isCode, Bool.and_eq_true] at hcode
      exact hcode.1)] at ht
    exact Option.some.inj ht
  have hends : (ts.filter Token.isCode).getLast? = some z :=
    hsame ▸ getLast?_filter_of_getLast? hz hcode
  have hplain : ts.filter Token.isCode = (ts.filter fun u => !u.isComment).filter Token.isCode := by
    rw [List.filter_filter]
    refine List.filter_congr fun u _ => ?_
    cases hcomment : u.isComment <;> simp [Token.isCode, hcomment]
  obtain ⟨u, hu⟩ : ∃ u, (ts.filter fun u => !u.isComment).getLast? = some u := by
    rw [← Option.isSome_iff_exists, List.getLast?_isSome]
    intro hnone
    simp [hplain, hnone] at hends
  have hcode' := Token.isCode_of_isTerminator (Token.isTerminator_of_isPeriod (hperiod u hu))
  rw [hplain, getLast?_filter_of_getLast? hu hcode', Option.some.injEq] at hends
  exact hends ▸ hperiod u hu

/-- The rows of a source end in the period in which the source ends. -/
theorem endsInPeriod_rows
    (hlexed : ∀ t ∈ ts, t.Lexed) (hraws : ({} : Unfinished).statements ts = .ok raws) :
    EndsInPeriod (RawStatement.rows false raws).flatten := by
  refine endsInPeriod_of_isTerminator ?_ (Unfinished.statements_accepts_iff.mp ⟨raws, hraws⟩)
    (pragmasInPlace_of_statements hlexed hraws).2
  rw [Unfinished.filter_isCode_rows false hlexed (by simp) (by simp) hraws]
  rfl

/-- The printed tokens of a source are those of its rows. -/
theorem Layout.map_token_lines
    (o : Options) (hsplit : Source.split source filename = .ok raws)
    (harrange : Layout.arrange raws = .ok statements) :
    ((Layout.lines o statements).flatMap (·.placements)).map (·.token) =
      (RawStatement.rows false raws).flatten := by
  obtain ⟨ts, hts, hraws⟩ := Source.tokens_of_split hsplit
  obtain ⟨-, hrows, -⟩ := Layout.arrange_spec hts hraws harrange
  rw [← hrows]
  exact map_token_render o _ (Layout.fromSource_of_split hsplit harrange)

/-- The printed lines of a source show its tokens. -/
theorem Layout.fromTokens_lines
    (hsplit : Source.split source filename = .ok raws) (hts : Source.tokens source = .ok ts)
    (harrange : Layout.arrange raws = .ok statements)
    (hstars : ∀ l ∈ Layout.lines o statements, l.StarsApart) :
    ∀ l ∈ Layout.lines o statements, l.FromTokens o ts := by
  have hraws := Source.statements_of_split hts hsplit
  have hlexed := Source.lexed_of_mem_tokens hts
  obtain ⟨-, hrows, hsound, hmem⟩ := Layout.arrange_spec hts hraws harrange
  have hsource := Layout.fromSource_of_split hsplit harrange
  have hplaced := (pragmasInPlace_of_statements hlexed hraws).1
  rw [← hrows] at hplaced
  have htext (l : Line) (hl : l ∈ Layout.lines o statements) (p : Placement)
      (hp : p ∈ l.placements) :
      p.token ∈ ts ∧ ∃ previous before, p.printed = tokenText o p.token previous before := by
    have hspelled : (p.token, p.printed) ∈ spelledLines (Layout.lines o statements) :=
      List.mem_flatMap.mpr ⟨l, hl, List.mem_map_of_mem hp⟩
    rw [spelled_lines o hlexed hrows hsound hmem, ← hrows] at hspelled
    obtain ⟨row, hrow, hspelled⟩ := List.mem_flatMap.mp hspelled
    obtain ⟨s, hs, hrow⟩ := List.mem_flatMap.mp hrow
    obtain ⟨htoken, hprinted⟩ := mem_spelling hspelled
    exact ⟨hmem s hs row hrow p.token htoken, hprinted⟩
  intro l hl
  refine ⟨laid_lines o hlexed hsound hmem l hl, ?_, hstars l hl⟩
  exact
    { mem := fun p hp => (htext l hl p hp).1
      text := fun p hp => (htext l hl p hp).2
      touch := mayTouch_render o _ hsource l hl
      yields := yieldsTo_render o _ hsource hplaced l hl
      last := by
        obtain ⟨share, hprinted, -⟩ :=
          (Layout.distributed_render hsplit harrange o _).exists_of_mem hl
        rcases hprinted with ⟨rfl, -⟩ | hholds | ⟨hnone, -⟩
        · simp
        · exact hholds.last
        · simp [hnone] }

/-- What is laid out is not blank. -/
theorem Layout.notBlank_print
    (hsplit : Source.split source filename = .ok raws)
    (harrange : Layout.arrange raws = .ok statements) (o : Options)
    (hmark : (Layout.print o statements).head? ≠ some Source.byteOrderMark) :
    Source.NotBlank (Layout.print o statements) := by
  have hne : Layout.print o statements ≠ [] := by
    simp [Layout.print, document, Layout.lines_ne_nil hsplit harrange o]
  obtain ⟨-, hfirst⟩ := (Layout.endsProperly_print hsplit harrange o).resolve_left hne
  obtain ⟨l, more, hl⟩ := List.exists_cons_of_ne_nil (Text.lines_ne_nil (Layout.print o statements))
  have hblank := hfirst l (by simp [hl])
  obtain ⟨c, hc, hink⟩ : ∃ c ∈ l, isBlank c = false := by
    simpa [isBlankText] using hblank
  refine ⟨c, ?_, hink⟩
  have hmem : c ∈ Layout.print o statements := mem_of_mem_lines (by simp [hl]) hc
  cases htext : Layout.print o statements with
  | nil => exact absurd htext hne
  | cons first rest =>
      rw [htext] at hmark hmem
      rwa [List.dropWhile_cons_of_neg (by simpa using hmark)]

/-- Setting the case of the pragmas leaves their capital letters, but for the order. -/
def Validation.PragmasKeepCase (o : Options) (ts : List Token) : Prop :=
  (flatPragmas ts).Perm
    ((ts.filter Token.isPragma).map fun t => Text.upper (Keyword.setCase o.keywordCase t.text))

instance (o : Options) (ts : List Token) : Decidable (PragmasKeepCase o ts) :=
  inferInstanceAs (Decidable (List.Perm _ _))

section Printed

variable (hsplit : Source.split source filename = .ok raws) (hts : Source.tokens source = .ok ts)
  (harrange : Layout.arrange raws = .ok statements)
  (hstars : ∀ l ∈ Layout.lines o statements, l.StarsApart)
  (hmark : (Layout.print o statements).head? ≠ some Source.byteOrderMark)
include hsplit hts harrange hstars

theorem Layout.exists_tokenText_of_mem_lines :
    ∀ p ∈ (Layout.lines o statements).flatMap (·.placements),
      ∃ previous before, p.printed = tokenText o p.token previous before := by
  intro p hp
  obtain ⟨l, hl, hp⟩ := List.mem_flatMap.mp hp
  exact (Layout.fromTokens_lines hsplit hts harrange hstars l hl).print.text p hp

/-- Tokens that are read as they are printed have the words and pragmas of the source. -/
theorem Layout.words_of_readUnits
    {us : List Token}
    (hunits : readUnits us = printedUnits ((Layout.lines o statements).flatMap (·.placements))) :
    flatWords ts = flatWords us ∧
      flatPragmas us =
        (ts.filter Token.isPragma).map fun t => Text.upper (Keyword.setCase o.keywordCase t.text) := by
  obtain ⟨rest, hstanding⟩ := standing_of_tokens hts
  have hraws := Source.statements_of_split hts hsplit
  have hlines := Layout.fromTokens_lines hsplit hts harrange hstars
  have htokens := Layout.map_token_lines o hsplit harrange
  constructor
  · rw [flatWords_eq_of_readUnits hunits, htokens, flatWords_rows hts hraws]
    intro p hp hcode
    obtain ⟨l, hl, hp⟩ := List.mem_flatMap.mp hp
    exact (hlines l hl).upper_printed hstanding hp hcode
  · have htext := Layout.exists_tokenText_of_mem_lines hsplit hts harrange hstars
    rw [flatPragmas_eq_of_readUnits hunits htext, htokens, filter_isPragma_rows hts hraws]

include hmark

/-- What is printed without misreadings is read as it is printed. -/
theorem Layout.tokens_print_of_readsBack (hread : ∀ l ∈ Layout.lines o statements, l.ReadsBack) :
    ∃ us, Source.tokens (Layout.print o statements) = .ok us ∧
      readUnits us = printedUnits ((Layout.lines o statements).flatMap (·.placements)) := by
  obtain ⟨rest, hstanding⟩ := standing_of_tokens hts
  have hlines := Layout.fromTokens_lines hsplit hts harrange hstars
  rw [Source.tokens, Layout.print, Source.lines_document
    (List.forall_mem_map.mpr fun l hl => (hlines l hl).laid.oneLine) hmark]
  exact tokenizeLines_of_readsBack hstanding hlines hread 1

/-- What is read as it is printed ends in a period, so it is cut into statements. -/
theorem Layout.split_print_of_readUnits
    {us : List Token} (hus : Source.tokens (Layout.print o statements) = .ok us)
    (hunits : readUnits us = printedUnits ((Layout.lines o statements).flatMap (·.placements))) :
    ∃ after, Source.split (Layout.print o statements) none = .ok after := by
  have hraws := Source.statements_of_split hts hsplit
  have hended : EndsInPeriod us := by
    refine endsInPeriod_of_readUnits hunits
      (Layout.exists_tokenText_of_mem_lines hsplit hts harrange hstars) ?_
    rw [Layout.map_token_lines o hsplit harrange]
    exact endsInPeriod_rows (Source.lexed_of_mem_tokens hts) hraws
  obtain ⟨after, hafter⟩ := Unfinished.statements_accepts_iff.mpr hended
  have htext := Source.splitText_of_notBlank (Layout.notBlank_print hsplit harrange o hmark)
  rw [hus] at htext
  exact ⟨after, htext.trans hafter⟩

/-- What is printed with a misreading has other words than the source. -/
theorem Layout.flatWords_ne_of_misread
    (hmisread : ¬∀ l ∈ Layout.lines o statements, l.ReadsBack) {us : List Token}
    (hus : Source.tokens (Layout.print o statements) = .ok us) :
    flatWords ts ≠ flatWords us := by
  obtain ⟨rest, hstanding⟩ := standing_of_tokens hts
  have hraws := Source.statements_of_split hts hsplit
  have hlines := Layout.fromTokens_lines hsplit hts harrange hstars
  rw [Source.tokens, Layout.print, Source.lines_document
    (List.forall_mem_map.mpr fun l hl => (hlines l hl).laid.oneLine) hmark] at hus
  have hdiverge := diverge_of_misread hstanding hlines hmisread hus
  rw [Layout.map_token_lines o hsplit harrange, flatWords_rows hts hraws] at hdiverge
  exact hdiverge.ne.symm

/-- A source is accepted exactly if each of its printed lines is read as it is printed and the
pragmas keep their capital letters. -/
theorem validate_print_iff :
    (validate source (Layout.print o statements)).accepts = true ↔
      (∀ l ∈ Layout.lines o statements, l.ReadsBack) ∧ PragmasKeepCase o ts := by
  have hbefore : Source.split source none = .ok raws := Source.splitText_of_split hsplit
  have hread := Layout.tokens_print_of_readsBack hsplit hts harrange hstars hmark
  constructor
  · intro haccepts
    obtain ⟨after, hafter⟩ : ∃ after, Source.split (Layout.print o statements) none = .ok after := by
      cases hafter : Source.split (Layout.print o statements) none with
      | ok after => exact ⟨after, rfl⟩
      | error rejection => simp [validate, hbefore, hafter, Verdict.accepts] at haccepts
    obtain ⟨us, hus, -⟩ := Source.tokens_of_split hafter
    obtain ⟨hflat, hpragmas⟩ := (validate_accepts_iff hbefore hts hafter hus).mp haccepts
    have hall : ∀ l ∈ Layout.lines o statements, l.ReadsBack := by
      by_contra hmisread
      exact Layout.flatWords_ne_of_misread hsplit hts harrange hstars hmark hmisread hus hflat
    obtain ⟨us', hus', hunits⟩ := hread hall
    obtain rfl : us = us' := by simpa [hus] using hus'
    rw [(Layout.words_of_readUnits hsplit hts harrange hstars hunits).2] at hpragmas
    exact ⟨hall, hpragmas⟩
  · rintro ⟨hall, hkeep⟩
    obtain ⟨us, hus, hunits⟩ := hread hall
    obtain ⟨after, hafter⟩ :=
      Layout.split_print_of_readUnits hsplit hts harrange hstars hmark hus hunits
    obtain ⟨hflat, hpragmas⟩ := Layout.words_of_readUnits hsplit hts harrange hstars hunits
    refine (validate_accepts_iff hbefore hts hafter hus).mpr ⟨hflat, ?_⟩
    rw [hpragmas]
    exact hkeep

end Printed

/-- Whether the full-line comments of a source are printed apart from its code. -/
def Layout.keepsStarsApart (o : Options) (source : Text) (filename : Option String) : Bool :=
  match Source.split source filename with
  | .error _ => true
  | .ok raws =>
    match Layout.arrange raws with
    | .error _ => true
    | .ok statements => decide (∀ l ∈ Layout.lines o statements, l.StarsApart)

/-- A source that is formatted with its full-line comments apart from its code is accepted exactly if
each of its printed lines is read as it is printed and its pragmas keep their capital letters. -/
theorem validate_format_iff
    {f : Formatted} (h : Layout.format o source filename = .ok f) (hrejection : f.rejection = none)
    (hstars : Layout.keepsStarsApart o source filename = true)
    (hmark : f.text.head? ≠ some Source.byteOrderMark) :
    ∃ ts raws statements, Source.tokens source = .ok ts ∧
      Source.split source filename = .ok raws ∧ Layout.arrange raws = .ok statements ∧
      f.text = Layout.print o statements ∧
      ((validate source f.text).accepts = true ↔
        (∀ l ∈ Layout.lines o statements, l.ReadsBack) ∧ PragmasKeepCase o ts) := by
  obtain ⟨raws, statements, hsplit, harrange, rfl⟩ := Layout.format_eq_ok h hrejection
  obtain ⟨ts, hts, -⟩ := Source.tokens_of_split hsplit
  simp only [Layout.keepsStarsApart, hsplit, harrange, decide_eq_true_eq] at hstars
  exact ⟨ts, raws, statements, hts, hsplit, harrange, rfl,
    validate_print_iff hsplit hts harrange hstars hmark⟩

/-- The case of a hyphen at the end of a line, which a bracket that moves up makes a sign of its
own. -/
theorem validate_format_iff_hyphen :
    ∃ ts raws statements, Source.tokens "foo( a-\n). \"c\n".toList = .ok ts ∧
      Source.split "foo( a-\n). \"c\n".toList none = .ok raws ∧
      Layout.arrange raws = .ok statements ∧
      "foo( a- ). \" c\n".toList = Layout.print .default statements ∧
      ((validate "foo( a-\n). \"c\n".toList "foo( a- ). \" c\n".toList).accepts = true ↔
        (∀ l ∈ Layout.lines .default statements, l.ReadsBack) ∧ PragmasKeepCase .default ts) :=
  validate_format_iff (f := { text := "foo( a- ). \" c\n".toList })
    (eq_ok_of_toOption (by decide +kernel)) rfl (by decide +kernel) (by decide)

example :
    (validate "foo( a-\n). \"c\n".toList "foo( a- ). \" c\n".toList).accepts = false := by
  decide +kernel

end

end AbapLayout
