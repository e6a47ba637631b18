import Mathlib.Data.List.Chain
import Mathlib.Data.List.Forall2
import AbapLayout.Proofs.Neighbours
import AbapLayout.Proofs.TokenOrder

/-!
# Printing with other blanks

Statements are printed twice, with two tables of wanted blanks.  Both prints have the same lines with
the same tokens on them, and only the blanks between the tokens differ: in front of a token that is
put behind another one stand the blanks that its table asks for, and where lines are joined both
prints have the same blanks (`Rendering.respaced_render`).

`Twins` is what two lines have in common while they are printed, and `Kindred` what is left of it
when comments have been put behind them.  Every step of printing keeps these.
-/

namespace AbapLayout

open Text

/-- Whether a text begins with a period or comma. -/
def Text.beginsWithTerminator (t : Text) : Bool :=
  match t with
  | [] => false
  | c :: _ => c == '.' || c == ','

/-- One token that is printed alike in two places, as a part of the given statement. -/
structure Placement.Twin (ordinal : Nat) (p p' : Placement) : Prop where
  address : p.address = p'.address
  token : p.token = p'.token
  printed : p.printed = p'.printed
  statement : p.address.statement = ordinal
  role : p.printed.beginsWithTerminator = true → p.token.role = .punctuation

section

variable (o : Options) (ahead : Address → Option Token) (wanted wanted' : WantedBlanks)

/-- The number of blanks at a joint is large enough.  Only punctuation and colons are joined without
a blank, and only punctuation with several. -/
structure Joins (t : Token) (before : Option Token) (n : Nat) : Prop where
  minimum : Spacing.minimum o t before ≤ n
  touching : n = 0 → t.role = .punctuation ∨ t.role = .colon
  apart : 1 < n → t.role = .punctuation

/-- The blanks between two tokens in two prints: those that the tables ask for if the first token is
the one ahead of the second in its row, and otherwise the same number, which suits a joint. -/
def Spaced (z w : Placement × Placement) : Prop :=
  ∃ n n', w.1.column = z.1.endColumn + n ∧ w.2.column = z.2.endColumn + n' ∧
    (ahead w.1.address = some z.1.token ∧
        n = Spacing.printed o (wanted w.1.address) w.1.token (some z.1.token) ∧
        n' = Spacing.printed o (wanted' w.1.address) w.1.token (some z.1.token) ∨
      n = n' ∧ Joins o w.1.token (ahead w.1.address) n)

/-- The same tokens in two prints of a line. -/
def Paired (ordinal : Nat) (ps ps' : List Placement) : Prop :=
  ∃ zs : List (Placement × Placement), ps = zs.map Prod.fst ∧ ps' = zs.map Prod.snd ∧
    (∀ z ∈ zs, z.1.Twin ordinal z.2) ∧ zs.IsChain (Spaced o ahead wanted wanted')

end

namespace Paired

variable {o : Options} {ahead : Address → Option Token} {wanted wanted' : WantedBlanks}
  {ordinal : Nat} {ps ps' qs qs' : List Placement}

theorem nil : Paired o ahead wanted wanted' ordinal [] [] :=
  ⟨[], rfl, rfl, by simp, .nil⟩

theorem single {p p' : Placement} (h : p.Twin ordinal p') :
    Paired o ahead wanted wanted' ordinal [p] [p'] :=
  ⟨[(p, p')], rfl, rfl, by simpa using h, .singleton _⟩

theorem eq_nil_iff (h : Paired o ahead wanted wanted' ordinal ps ps') : ps = [] ↔ ps' = [] := by
  obtain ⟨zs, rfl, rfl, -⟩ := h
  simp

theorem twin_head
    (h : Paired o ahead wanted wanted' ordinal ps ps') {p : Placement} (hp : ps.head? = some p) :
    ∃ p', ps'.head? = some p' ∧ p.Twin ordinal p' := by
  obtain ⟨zs, rfl, rfl, htwin, -⟩ := h
  rw [List.head?_map, Option.map_eq_some_iff] at hp
  obtain ⟨z, hz, rfl⟩ := hp
  exact ⟨z.2, by simp [hz], htwin z (List.mem_of_head? hz)⟩

theorem twin_getLast
    (h : Paired o ahead wanted wanted' ordinal ps ps') {p : Placement}
    (hp : ps.getLast? = some p) :
    ∃ p', ps'.getLast? = some p' ∧ p.Twin ordinal p' := by
  obtain ⟨zs, rfl, rfl, htwin, -⟩ := h
  rw [List.getLast?_map, Option.map_eq_some_iff] at hp
  obtain ⟨z, hz, rfl⟩ := hp
  exact ⟨z.2, by simp [hz], htwin z (List.mem_of_getLast? hz)⟩

/-- What is printed is the same in both. -/
theorem listed_eq (h : Paired o ahead wanted wanted' ordinal ps ps') :
    ps.map (fun p => (p.address, p.token, p.printed)) =
      ps'.map fun p => (p.address, p.token, p.printed) := by
  obtain ⟨zs, rfl, rfl, htwin, -⟩ := h
  rw [List.map_map, List.map_map]
  refine List.map_congr_left fun z hz => ?_
  obtain ⟨haddress, htoken, hprinted, -, -⟩ := htwin z hz
  simp [haddress, htoken, hprinted]

/-- The blanks between neighbours. -/
theorem spaced
    (h : Paired o ahead wanted wanted' ordinal ps ps') {i : Nat} {p q p' q' : Placement}
    (hp : ps[i]? = some p) (hq : ps[i + 1]? = some q) (hp' : ps'[i]? = some p')
    (hq' : ps'[i + 1]? = some q') :
    Spaced o ahead wanted wanted' (p, p') (q, q') := by
  obtain ⟨zs, rfl, rfl, -, hchain⟩ := h
  have hpair (j : Nat) (r r' : Placement) (hr : (zs.map Prod.fst)[j]? = some r)
      (hr' : (zs.map Prod.snd)[j]? = some r') :
      zs[j]? = some (r, r') := by
    rw [List.getElem?_map, Option.map_eq_some_iff] at hr hr'
    obtain ⟨z, hz, rfl⟩ := hr
    obtain ⟨w, hw, rfl⟩ := hr'
    rw [hz, Option.some.injEq] at hw
    rw [hz, hw]
  obtain ⟨hi, hz⟩ := List.getElem?_eq_some_iff.mp (hpair i p p' hp hp')
  obtain ⟨hi', hw⟩ := List.getElem?_eq_some_iff.mp (hpair (i + 1) q q' hq hq')
  rw [← hz, ← hw]
  exact List.isChain_iff_getElem.mp hchain i hi'

/-- Paired tokens behind one another are paired if the blanks at the joint are right. -/
theorem append
    (h : Paired o ahead wanted wanted' ordinal ps ps')
    (h' : Paired o ahead wanted wanted' ordinal qs qs')
    (hjoint : ∀ p p' q q', ps.getLast? = some p → ps'.getLast? = some p' → qs.head? = some q →
      qs'.head? = some q' → Spaced o ahead wanted wanted' (p, p') (q, q')) :
    Paired o ahead wanted wanted' ordinal (ps ++ qs) (ps' ++ qs') := by
  obtain ⟨zs, rfl, rfl, htwin, hchain⟩ := h
  obtain ⟨ws, rfl, rfl, htwin', hchain'⟩ := h'
  refine ⟨zs ++ ws, by simp, by simp, ?_, ?_⟩
  · intro z hz
    rcases List.mem_append.mp hz with hz | hz
    · exact htwin z hz
    · exact htwin' z hz
  · rw [List.isChain_append]
    refine ⟨hchain, hchain', fun z hz w hw => ?_⟩
    rw [Option.mem_def] at hz hw
    exact hjoint z.1 z.2 w.1 w.2 (by simp [hz]) (by simp [hz]) (by simp [hw]) (by simp [hw])

/-- Tokens in other columns, with the same blanks between them. -/
theorem move
    (h : Paired o ahead wanted wanted' ordinal ps ps') {d e d' e' : Nat}
    (he : ∀ p ∈ ps, e ≤ p.column) (he' : ∀ p ∈ ps', e' ≤ p.column) :
    Paired o ahead wanted wanted' ordinal
      (ps.map fun p => { p with column := p.column + d - e })
      (ps'.map fun p => { p with column := p.column + d' - e' }) := by
  obtain ⟨zs, rfl, rfl, htwin, hchain⟩ := h
  refine ⟨zs.map fun z => ({ z.1 with column := z.1.column + d - e },
    { z.2 with column := z.2.column + d' - e' }), by simp, by simp, ?_, ?_⟩
  · intro w hw
    obtain ⟨z, hz, rfl⟩ := List.mem_map.mp hw
    obtain ⟨haddress, htoken, hprinted, hstatement, hrole⟩ := htwin z hz
    exact ⟨haddress, htoken, hprinted, hstatement, hrole⟩
  · rw [List.isChain_map]
    refine hchain.imp_of_mem_imp ?_
    rintro z w hz hw ⟨n, n', hn, hn', hgap⟩
    have hez := he z.1 (List.mem_map_of_mem hz)
    have hez' := he' z.2 (List.mem_map_of_mem hz)
    refine ⟨n, n', ?_, ?_, hgap⟩
    · simp only [Placement.endColumn] at hn ⊢
      omega
    · simp only [Placement.endColumn] at hn' ⊢
      omega

end Paired

/-! ## Lines -/

namespace Line

/-- The column of a token that is put behind others. -/
theorem Shows.placements_put
    {l : Line} {n : Nat} {p : Placement} (h : l.Shows (blanks n))
    (hlast : l.placements.getLast? = some p) (a : Address) (t : Token) (printed : Text)
    (spaces : Nat) :
    (l.put a t printed spaces).placements =
      l.placements ++ [{ address := a, token := t, column := p.endColumn + spaces, printed }] := by
  obtain ⟨body, htext, hspread⟩ := h
  have hend := hspread.endColumn_getLast hlast
  have hne : l.placements.isEmpty = false := by
    cases hps : l.placements with
    | nil => simp [hps] at hlast
    | cons q qs => rfl
  simp only [Line.put, hne, htext, hspread.trimRight_append_blanks n]
  rw [hend]
  simp

/-- The columns of the tokens of a line behind those of the line that absorbs it. -/
theorem Shows.placements_absorb
    {l other : Line} {tail : Text} {q : Placement} {qs : List Placement} (h : other.Shows tail)
    (hps : other.placements = q :: qs) (k : Nat) :
    (l.absorb other (blanks k)).placements =
      l.placements ++ other.placements.map fun p =>
        { p with column := p.column + (l.text.length + k) - q.column } := by
  simp [Line.absorb, (h.margin hps).1]

theorem Shows.le_column
    {l : Line} {tail : Text} {q : Placement} {qs : List Placement} (h : l.Shows tail)
    (hps : l.placements = q :: qs) :
    ∀ p ∈ l.placements, q.column ≤ p.column := by
  obtain ⟨-, rest, -, hspread⟩ := h.margin hps
  rw [hps]
  exact fun p hp => (hspread.slice [] p hp).1

/-- A line with tokens begins with a period or comma if its first token does. -/
theorem Shows.beginsWithTerminator_eq
    {l : Line} {tail : Text} {q : Placement} {qs : List Placement} (h : l.Shows tail)
    (hps : l.placements = q :: qs) :
    l.beginsWithTerminator = q.printed.beginsWithTerminator := by
  obtain ⟨-, rest, htrim, hspread⟩ := h.margin hps
  obtain ⟨c, cs, hc, -⟩ := (hspread.solid q (by simp)).begins
  simp [Line.beginsWithTerminator, Text.beginsWithTerminator, htrim, hc]

theorem Shows.text_length
    {l : Line} {tail : Text} {p : Placement} (h : l.Shows tail)
    (hlast : l.placements.getLast? = some p) :
    l.text.length = p.endColumn + tail.length := by
  obtain ⟨body, htext, hspread⟩ := h
  rw [htext, hspread.endColumn_getLast hlast, List.length_append]
  omega

end Line

section

variable (o : Options) (ahead : Address → Option Token) (wanted wanted' : WantedBlanks)
  (ordinal : Nat) (anchored : Prop)

/-- Two prints of a line with the given texts behind their tokens.  In an anchored print the first
token has its column in both. -/
structure Twins (tail tail' : Text) (l l' : Line) : Prop where
  endsInComment : l.endsInComment = l'.endsInComment
  fixed : l.fixed = l'.fixed
  paired : Paired o ahead wanted wanted' ordinal l.placements l'.placements
  anchor : anchored → l.placements ≠ [] ∧
    l.placements.head?.map (·.column) = l'.placements.head?.map (·.column)
  shows : l.Shows tail
  shows' : l'.Shows tail'

/-- Two prints of a line to which others may be glued: unless it ends in a comment the same blanks
stand behind the tokens of both, and if there are none the line begins with neither a period nor a
comma. -/
def Kindred (l l' : Line) : Prop :=
  ∃ tail tail', Twins o ahead wanted wanted' ordinal anchored tail tail' l l' ∧
    (l.endsInComment = false → ∃ n n', tail = blanks n ∧ tail' = blanks n' ∧
      (l.placements ≠ [] → n = n')) ∧
    (l.placements = [] → l.beginsWithTerminator = false ∧ l'.beginsWithTerminator = false)

/-- The same tokens in two prints of a line; in an anchored print the first one has its column in
both. -/
def Respaced (ps ps' : List Placement) : Prop :=
  Paired o ahead wanted wanted' ordinal ps ps' ∧
    (anchored → ps.head?.map (·.column) = ps'.head?.map (·.column))

end

section

variable {o : Options} {ahead : Address → Option Token} {wanted wanted' : WantedBlanks}
  {ordinal : Nat} {anchored : Prop} {tail tail' : Text} {l l' : Line}

theorem Spacing.minimum_le_one (o : Options) (t : Token) (previous : Option Token) :
    Spacing.minimum o t previous ≤ 1 := by
  unfold Spacing.minimum
  repeat' split
  all_goals omega

theorem Joins.one (o : Options) (t : Token) (before : Option Token) : Joins o t before 1 where
  minimum := Spacing.minimum_le_one o t before
  touching hzero := absurd hzero Nat.one_ne_zero
  apart hmore := absurd hmore (Nat.lt_irrefl 1)

theorem Joins.of_punctuation
    {t : Token} {before : Option Token} {n : Nat} (h : t.role = .punctuation)
    (hminimum : Spacing.minimum o t before ≤ n) :
    Joins o t before n :=
  ⟨hminimum, fun _ => .inl h, fun _ => h⟩

theorem Spacing.minimum_colon (o : Options) {t : Token} (h : t.role = .colon) (p : Option Token) :
    Spacing.minimum o t p = 0 := by
  cases p with
  | none => rfl
  | some p => simp [Spacing.minimum, h]

theorem Joins.of_colon
    {t : Token} {before : Option Token} (h : t.role = .colon) :
    Joins o t before 0 where
  minimum := (Spacing.minimum_colon o h before).le
  touching _ := .inr h
  apart hmore := absurd hmore (Nat.not_lt_zero 1)

namespace Twins

theorem ne_nil (h : Twins o ahead wanted wanted' ordinal anchored tail tail' l l') :
    l.placements ≠ [] ↔ l'.placements ≠ [] :=
  not_congr h.paired.eq_nil_iff

/-- The first token of a line. -/
theorem first
    {a : Address} {t : Token} {printed : Text} {n n' : Nat} (fixed : Bool)
    (hstatement : a.statement = ordinal) (hsolid : printed.Solid)
    (hrole : printed.beginsWithTerminator = true → t.role = .punctuation)
    (hanchor : anchored → n = n') :
    Twins o ahead wanted wanted' ordinal anchored [] []
      { ({} : Line).put a t printed n with fixed } { ({} : Line).put a t printed n' with fixed } := by
  have hshows (k : Nat) : (({} : Line).put a t printed k).Shows [] :=
    Line.Shows.put (⟨[], rfl, .nil 0⟩ : ({} : Line).Shows (blanks 0)) a t k hsolid
  refine ⟨rfl, rfl, .single ⟨rfl, rfl, rfl, hstatement, hrole⟩, fun h => ⟨by simp [Line.put], ?_⟩,
    hshows n, hshows n'⟩
  rw [hanchor h]

/-- A token behind others, with the blanks its table asks for or the same ones. -/
theorem put
    (h : Twins o ahead wanted wanted' ordinal anchored [] [] l l')
    {a : Address} {t : Token} {printed : Text} {n n' : Nat} {p : Placement}
    (hlast : l.placements.getLast? = some p) (hstatement : a.statement = ordinal)
    (hsolid : printed.Solid) (hrole : printed.beginsWithTerminator = true → t.role = .punctuation)
    (hgap : ahead a = some p.token ∧ n = Spacing.printed o (wanted a) t (some p.token) ∧
        n' = Spacing.printed o (wanted' a) t (some p.token) ∨
      n = n' ∧ Joins o t (ahead a) n) :
    Twins o ahead wanted wanted' ordinal anchored [] [] (l.put a t printed n)
      (l'.put a t printed n') := by
  obtain ⟨p', hlast', htwin⟩ := h.paired.twin_getLast hlast
  have hput := Line.Shows.placements_put (n := 0) h.shows hlast a t printed n
  have hput' := Line.Shows.placements_put (n := 0) h.shows' hlast' a t printed n'
  refine ⟨rfl, h.fixed, ?_, ?_, Line.Shows.put (n := 0) h.shows a t n hsolid,
    Line.Shows.put (n := 0) h.shows' a t n' hsolid⟩
  · rw [hput, hput']
    refine h.paired.append (.single ⟨rfl, rfl, rfl, hstatement, hrole⟩) ?_
    intro r r' q q' hr hr' hq hq'
    rw [hlast, Option.some.injEq] at hr
    rw [hlast', Option.some.injEq] at hr'
    rw [List.head?_cons, Option.some.injEq] at hq hq'
    subst hr hr' hq hq'
    exact ⟨n, n', rfl, rfl, hgap⟩
  · intro hanchored
    obtain ⟨hne, hcolumn⟩ := h.anchor hanchored
    rw [hput, hput']
    refine ⟨by simp, ?_⟩
    rw [List.head?_append_of_ne_nil _ hne, List.head?_append_of_ne_nil _ (h.ne_nil.mp hne)]
    exact hcolumn

theorem loose (h : Twins o ahead wanted wanted' ordinal anchored tail tail' l l') :
    Twins o ahead wanted wanted' ordinal False tail tail' l l' :=
  ⟨h.endsInComment, h.fixed, h.paired, False.elim, h.shows, h.shows'⟩

theorem indent
    (h : Twins o ahead wanted wanted' ordinal False tail tail' l l') (hne : l.placements ≠ [])
    (m m' : Nat) :
    Twins o ahead wanted wanted' ordinal False tail tail' (l.indent m) (l'.indent m') where
  endsInComment := h.endsInComment
  fixed := h.fixed
  paired := by
    have hmoved := @Paired.move _ _ _ _ _ _ _ h.paired m 0 m' 0 (by simp) (by simp)
    simpa [Line.indent] using hmoved
  anchor := False.elim
  shows := h.shows.indent_of_ne_nil hne m
  shows' := h.shows'.indent_of_ne_nil (h.ne_nil.mp hne) m'

/-- Two prints of a line that absorb two prints of another one with the same blanks at the joint. -/
theorem absorb
    {other other' : Line} {n n' k : Nat} {q : Placement} {S : Prop}
    (h : Twins o ahead wanted wanted' ordinal anchored (blanks n) (blanks n') l l')
    (h' : Twins o ahead wanted wanted' ordinal S tail tail' other other')
    (hsame : l.placements ≠ [] → n = n') (hhead : other.placements.head? = some q)
    (hjoins : Joins o q.token (ahead q.address) (n + k)) :
    Twins o ahead wanted wanted' ordinal anchored tail tail' (l.absorb other (blanks k))
      (l'.absorb other' (blanks k)) := by
  obtain ⟨q', hhead', htwin⟩ := h'.paired.twin_head hhead
  obtain ⟨qs, hqs⟩ := List.head?_eq_some_iff.mp hhead
  obtain ⟨qs', hqs'⟩ := List.head?_eq_some_iff.mp hhead'
  have habsorb := Line.Shows.placements_absorb (l := l) h'.shows hqs k
  have habsorb' := Line.Shows.placements_absorb (l := l') h'.shows' hqs' k
  refine ⟨h'.endsInComment, h.fixed, ?_, ?_,
    Line.Shows.absorb_of_ne_nil ⟨n, h.shows⟩ h'.shows (by simp [hqs]) k,
    Line.Shows.absorb_of_ne_nil ⟨n', h.shows'⟩ h'.shows' (by simp [hqs']) k⟩
  · rw [habsorb, habsorb']
    refine h.paired.append (h'.paired.move (h'.shows.le_column hqs) (h'.shows'.le_column hqs')) ?_
    intro p p' r r' hp hp' hr hr'
    rw [hqs, List.map_cons, List.head?_cons, Option.some.injEq] at hr
    rw [hqs', List.map_cons, List.head?_cons, Option.some.injEq] at hr'
    have hne : l.placements ≠ [] := by
      intro hnil
      simp [hnil] at hp
    have hlength := h.shows.text_length hp
    have hlength' := h.shows'.text_length hp'
    rw [length_blanks] at hlength hlength'
    have hn := hsame hne
    refine ⟨n + k, n + k, ?_, ?_, .inr ⟨rfl, ?_⟩⟩
    · rw [← hr]
      dsimp only
      omega
    · rw [← hr']
      dsimp only
      omega
    · rw [← hr]
      exact hjoins
  · intro hanchored
    obtain ⟨hne, hcolumn⟩ := h.anchor hanchored
    rw [habsorb, habsorb']
    refine ⟨by simp [hne], ?_⟩
    rw [List.head?_append_of_ne_nil _ hne, List.head?_append_of_ne_nil _ (h.ne_nil.mp hne)]
    exact hcolumn

theorem trimRight (h : Twins o ahead wanted wanted' ordinal anchored [] [] l l') :
    Twins o ahead wanted wanted' ordinal anchored [] []
      { l with text := Text.trimRight l.text } { l' with text := Text.trimRight l'.text } := by
  have hshows {k : Line} (hk : k.Shows []) :
      ({ k with text := Text.trimRight k.text } : Line).Shows [] := by
    obtain ⟨body, htext, hspread⟩ := hk
    have htrim := hspread.trimRight_append_blanks 0
    exact ⟨body, by rw [htext]; simpa [blanks] using htrim, hspread⟩
  exact ⟨h.endsInComment, h.fixed, h.paired, h.anchor, hshows h.shows, hshows h.shows'⟩

theorem kindred
    (h : Twins o ahead wanted wanted' ordinal anchored [] [] l l') (hne : l.placements ≠ []) :
    Kindred o ahead wanted wanted' ordinal anchored l l' :=
  ⟨[], [], h, fun _ => ⟨0, 0, rfl, rfl, fun _ => rfl⟩, fun hnil => absurd hnil hne⟩

theorem empty : Twins o ahead wanted wanted' ordinal False [] [] {} {} :=
  ⟨rfl, rfl, .nil, False.elim, ⟨[], rfl, .nil 0⟩, ⟨[], rfl, .nil 0⟩⟩

end Twins

theorem beginsWithTerminator_of_sign
    {n : Nat} {comment : Text} (h : l.text = blanks n ++ Comment.sign :: comment) :
    l.beginsWithTerminator = false := by
  rw [Line.beginsWithTerminator, h, trimLeft_blanks_append, trimLeft_cons (by decide)]
  rfl

namespace Kindred

theorem respaced (h : Kindred o ahead wanted wanted' ordinal anchored l l') :
    Respaced o ahead wanted wanted' ordinal anchored l.placements l'.placements := by
  obtain ⟨tail, tail', htwins, -⟩ := h
  exact ⟨htwins.paired, fun hanchored => (htwins.anchor hanchored).2⟩

theorem indent
    (h : Kindred o ahead wanted wanted' ordinal False l l') (m m' : Nat) :
    Kindred o ahead wanted wanted' ordinal False (l.indent m) (l'.indent m') := by
  obtain ⟨tail, tail', htwins, htails, hbare⟩ := h
  have hbegins (k : Line) (m : Nat) :
      (k.indent m).beginsWithTerminator = k.beginsWithTerminator := by
    simp [Line.beginsWithTerminator, Line.indent, trimLeft_blanks_append]
  by_cases hnil : l.placements = []
  · have hnil' := htwins.paired.eq_nil_iff.mp hnil
    obtain ⟨hbare, hbare'⟩ := hbare hnil
    have hshows {k : Line} {tail : Text} (m : Nat) (hk : k.Shows tail) (hno : k.placements = []) :
        (k.indent m).Shows (blanks m ++ tail) := by
      obtain ⟨body, htext, hspread⟩ := hk
      rw [hno] at hspread
      exact ⟨[], by simp [Line.indent, htext, hspread.eq_nil],
        by simpa [Line.indent, hno] using .nil 0⟩
    refine ⟨blanks m ++ tail, blanks m' ++ tail', ?_, ?_, ?_⟩
    · exact ⟨htwins.endsInComment, htwins.fixed, by simpa [Line.indent, hnil, hnil'] using .nil,
        False.elim, hshows m htwins.shows hnil, hshows m' htwins.shows' hnil'⟩
    · intro hends
      obtain ⟨n, n', rfl, rfl, -⟩ := htails hends
      refine ⟨m + n, m' + n', blanks_append_blanks m n, blanks_append_blanks m' n', fun hne => ?_⟩
      simp [Line.indent, hnil] at hne
    · rw [hbegins, hbegins]
      exact fun _ => ⟨hbare, hbare'⟩
  · refine ⟨tail, tail', htwins.indent hnil m m', fun hends => ?_, fun hno => ?_⟩
    · obtain ⟨n, n', htail, htail', hsame⟩ := htails hends
      exact ⟨n, n', htail, htail', fun _ => hsame hnil⟩
    · exact absurd (by simpa [Line.indent] using hno) hnil

theorem placeMember
    (h : Kindred o ahead wanted wanted' ordinal False l l') (m m' : Nat) :
    Kindred o ahead wanted wanted' ordinal False (Rendering.placeMember m l)
      (Rendering.placeMember m' l') := by
  obtain ⟨tail, tail', htwins, _⟩ := id h
  unfold Rendering.placeMember
  rw [← htwins.fixed]
  split
  · exact h
  · exact h.indent m m'

end Kindred

namespace Twins

/-- A comment behind the first line of a member. -/
theorem attachComment
    (h : Twins o ahead wanted wanted' ordinal False [] [] l l') {c : Comment} (hc : c.IsSigned) :
    Kindred o ahead wanted wanted' ordinal False
      { Rendering.attachComment o c l with endsInComment := true }
      { Rendering.attachComment o c l' with endsInComment := true } := by
  have hattach (k : Line) (hk : k.Shows []) : ∃ n comment,
      ({ Rendering.attachComment o c k with endsInComment := true } : Line).Shows
        (blanks n ++ Comment.sign :: comment) ∧
      (k.placements = [] → ({ Rendering.attachComment o c k with endsInComment := true } :
        Line).beginsWithTerminator = false) := by
    obtain ⟨text, hline, hvalue⟩ := hc
    obtain ⟨n, comment, -, heq⟩ := CommentText.attach_eq o k.text hline
    have htext : (Rendering.attachComment o c k).text =
        k.text ++ (blanks n ++ Comment.sign :: comment) := by
      rw [Rendering.attachComment, hvalue]
      exact heq
    obtain ⟨body, hbody, hspread⟩ := hk
    rw [List.append_nil] at hbody
    refine ⟨n, comment, ⟨body, by rw [htext, hbody], hspread⟩, fun hnil => ?_⟩
    rw [hnil] at hspread
    apply beginsWithTerminator_of_sign
    rw [htext, hbody, hspread.eq_nil]
    rfl
  obtain ⟨n, comment, hshows, hbare⟩ := hattach l h.shows
  obtain ⟨n', comment', hshows', hbare'⟩ := hattach l' h.shows'
  exact ⟨_, _, ⟨rfl, h.fixed, h.paired, False.elim, hshows, hshows'⟩, by simp,
    fun hnil => ⟨hbare hnil, hbare' (h.paired.eq_nil_iff.mp hnil)⟩⟩

/-- The line of a colon with the first line of the first member behind it. -/
theorem absorb_kindred
    {other other' : Line} (h : Twins o ahead wanted wanted' ordinal False [] [] l l')
    (hne : l.placements ≠ []) (h' : Kindred o ahead wanted wanted' ordinal False other other') :
    Kindred o ahead wanted wanted' ordinal False (l.absorb other [' ']) (l'.absorb other' [' ']) := by
  obtain ⟨tail, tail', htwins, htails, hbare⟩ := h'
  have hnonempty : (l.absorb other [' ']).placements ≠ [] := by simp [Line.absorb, hne]
  cases hhead : other.placements.head? with
  | some q =>
      have habsorb := @absorb _ _ _ _ _ _ _ _ _ _ _ _ 0 0 1 q _ h htwins (fun _ => rfl) hhead
        (.one o q.token _)
      refine ⟨tail, tail', habsorb, fun hends => ?_, fun hnil => absurd hnil hnonempty⟩
      obtain ⟨n, n', htail, htail', hsame⟩ := htails hends
      refine ⟨n, n', htail, htail', fun _ => hsame ?_⟩
      intro hnil
      simp [hnil] at hhead
  | none =>
      have hnil : other.placements = [] := List.head?_eq_none_iff.mp hhead
      have hnil' := htwins.paired.eq_nil_iff.mp hnil
      have hshows {k other : Line} {tail : Text} (hk : k.Shows []) (hother : other.Shows tail)
          (hno : other.placements = []) :
          (k.absorb other [' ']).Shows (blanks 1 ++ trimLeft tail) := by
        obtain ⟨body, htext, hspread⟩ := hk
        obtain ⟨more, hmore, hspread'⟩ := hother
        rw [hno] at hspread'
        exact ⟨body, by simp [Line.absorb, htext, hmore, hspread'.eq_nil, blanks],
          by simpa [Line.absorb, hno] using hspread⟩
      refine ⟨blanks 1 ++ trimLeft tail, blanks 1 ++ trimLeft tail', ?_, fun hends => ?_,
        fun hno => absurd hno hnonempty⟩
      · exact ⟨htwins.endsInComment, h.fixed, by simpa [Line.absorb, hnil, hnil'] using h.paired,
          False.elim, hshows h.shows htwins.shows hnil, hshows h.shows' htwins.shows' hnil'⟩
      · obtain ⟨n, n', rfl, rfl, -⟩ := htails hends
        have htrim (n : Nat) : trimLeft (blanks n) = [] := by
          rw [← List.append_nil (blanks n), trimLeft_blanks_append]
          rfl
        exact ⟨1, 1, by rw [htrim, List.append_nil], by rw [htrim, List.append_nil], fun _ => rfl⟩

end Twins

/-! ## Gluing lines -/

namespace Kindred

theorem beginsWithTerminator_eq (h : Kindred o ahead wanted wanted' ordinal anchored l l') :
    l.beginsWithTerminator = l'.beginsWithTerminator := by
  obtain ⟨tail, tail', htwins, -, hbare⟩ := h
  cases hhead : l.placements.head? with
  | none =>
      obtain ⟨hno, hno'⟩ := hbare (List.head?_eq_none_iff.mp hhead)
      rw [hno, hno']
  | some q =>
      obtain ⟨q', hhead', htwin⟩ := htwins.paired.twin_head hhead
      obtain ⟨qs, hqs⟩ := List.head?_eq_some_iff.mp hhead
      obtain ⟨qs', hqs'⟩ := List.head?_eq_some_iff.mp hhead'
      rw [htwins.shows.beginsWithTerminator_eq hqs, htwins.shows'.beginsWithTerminator_eq hqs',
        htwin.printed]

/-- Gluing a line that begins with a period or comma. -/
theorem absorb
    {other other' : Line} {k : Nat} {S : Prop}
    (hpoint : ∀ t : Token, t.role = .punctuation → ∀ p, Spacing.minimum o t p ≤ k)
    (h : Kindred o ahead wanted wanted' ordinal anchored l l')
    (h' : Kindred o ahead wanted wanted' ordinal S other other')
    (hends : l.endsInComment = false) (hbegins : other.beginsWithTerminator = true) :
    Kindred o ahead wanted wanted' ordinal anchored (l.absorb other (blanks k))
      (l'.absorb other' (blanks k)) := by
  obtain ⟨tail, tail', htwins, htails, -⟩ := h
  obtain ⟨n, n', rfl, rfl, hsame⟩ := htails hends
  obtain ⟨more, more', htwins', htails', hbare⟩ := h'
  have hne : other.placements ≠ [] := by
    intro hnil
    rw [(hbare hnil).1] at hbegins
    simp at hbegins
  obtain ⟨q, qs, hqs⟩ := List.exists_cons_of_ne_nil hne
  have hhead : other.placements.head? = some q := by rw [hqs, List.head?_cons]
  obtain ⟨q', -, htwin⟩ := htwins'.paired.twin_head hhead
  have hrole : q.token.role = .punctuation := by
    refine htwin.role ?_
    rwa [← htwins'.shows.beginsWithTerminator_eq hqs]
  have hjoins : Joins o q.token (ahead q.address) (n + k) :=
    .of_punctuation hrole ((hpoint _ hrole _).trans (Nat.le_add_left k n))
  refine ⟨more, more', htwins.absorb htwins' hsame hhead hjoins, fun hends' => ?_,
    fun hnil => ?_⟩
  · obtain ⟨m, m', htail, htail', hsame'⟩ := htails' hends'
    exact ⟨m, m', htail, htail', fun _ => hsame' hne⟩
  · simp [Line.absorb, hqs] at hnil

end Kindred

theorem kindred_glueFrom
    {above above' : Line} {lines lines' : List Line} {k : Nat} (keepLast : Bool)
    (hpoint : ∀ t : Token, t.role = .punctuation → ∀ p, Spacing.minimum o t p ≤ k)
    (habove : Kindred o ahead wanted wanted' ordinal anchored above above')
    (h : List.Forall₂ (Kindred o ahead wanted wanted' ordinal anchored) lines lines') :
    List.Forall₂ (Kindred o ahead wanted wanted' ordinal anchored)
      (Line.glueFrom (blanks k) keepLast above lines)
      (Line.glueFrom (blanks k) keepLast above' lines') := by
  induction h generalizing above above' with
  | nil => simpa [Line.glueFrom] using habove
  | @cons l l' rest rest' hl hrest ih =>
      have hempty : rest.isEmpty = rest'.isEmpty := by
        cases hrest <;> rfl
      have hends : above.endsInComment = above'.endsInComment := by
        obtain ⟨tail, tail', htwins, -⟩ := habove
        exact htwins.endsInComment
      rw [Line.glueFrom, Line.glueFrom, ← hl.beginsWithTerminator_eq, ← hends, ← hempty]
      by_cases hglue : (l.beginsWithTerminator && !above.endsInComment &&
          !(keepLast && rest.isEmpty)) = true
      · rw [if_pos hglue, if_pos hglue]
        simp only [Bool.and_eq_true, Bool.not_eq_true'] at hglue
        exact ih (habove.absorb hpoint hl hglue.1.2 hglue.1.1)
      · rw [if_neg hglue, if_neg hglue]
        exact .cons habove (ih hl)

theorem kindred_glue
    {lines lines' : List Line} {k : Nat} (keepLast : Bool)
    (hpoint : ∀ t : Token, t.role = .punctuation → ∀ p, Spacing.minimum o t p ≤ k)
    (h : List.Forall₂ (Kindred o ahead wanted wanted' ordinal anchored) lines lines') :
    List.Forall₂ (Kindred o ahead wanted wanted' ordinal anchored)
      (Line.glue (blanks k) keepLast lines) (Line.glue (blanks k) keepLast lines') := by
  cases h with
  | nil => exact .nil
  | cons hl hrest => exact kindred_glueFrom keepLast hpoint hl hrest

theorem minimum_le_joiner (o : Options) :
    ∃ k, Rendering.joiner o = blanks k ∧
      ∀ t : Token, t.role = .punctuation → ∀ p, Spacing.minimum o t p ≤ k := by
  have hminimum (t : Token) (ht : t.role = .punctuation) (p : Option Token) :
      Spacing.minimum o t p ≤ if o.spaceBeforePeriod then 1 else 0 := by
    cases p with
    | none => simp [Spacing.minimum]
    | some p => simp [Spacing.minimum, ht]
  unfold Rendering.joiner
  by_cases hspace : o.spaceBeforePeriod = true
  · exact ⟨1, by simp [hspace, blanks], by simpa [hspace] using hminimum⟩
  · exact ⟨0, by simp [hspace], by simpa [hspace] using hminimum⟩

end

/-! ## Rows of tokens -/

namespace Rendering

/-- A token as printing relies on it: there are no blanks at its ends, and only punctuation begins
with a period or comma. -/
def IsRegular (o : Options) (t : Token) : Prop :=
  IsSolid o t ∧ ∀ previous before,
    (tokenText o t previous before).beginsWithTerminator = true → t.role = .punctuation

/-- A row of regular tokens of the given statement behind a token, each of which has the one in front
of it ahead. -/
def Regular (o : Options) (ahead : Address → Option Token) (ordinal : Nat)
    (previous : Option Token) : List (Address × Token) → Prop
  | [] => True
  | (a, t) :: rest =>
    a.statement = ordinal ∧ ahead a = previous ∧ IsRegular o t ∧
      Regular o ahead ordinal (some t) rest

variable {o : Options} {ahead : Address → Option Token} {wanted wanted' : WantedBlanks}
  {ordinal : Nat}

theorem Regular.of_append
    {previous : Option Token} {row more : List (Address × Token)}
    (h : Regular o ahead ordinal previous (row ++ more)) :
    Regular o ahead ordinal previous row := by
  induction row generalizing previous with
  | nil => trivial
  | cons head rest ih => exact ⟨h.1, h.2.1, h.2.2.1, ih h.2.2.2⟩

theorem Regular.filter
    {slot : Nat} {skip : Option Nat} {row : List Token} {previous : Option Token}
    (h : Regular o ahead ordinal previous (addressed ordinal slot row))
    (hskip : ∀ k, skip = some k → slot + row.length ≤ k + 1) :
    Regular o ahead ordinal previous
      ((addressed ordinal slot row).filter fun p => some p.1.slot != skip) := by
  by_cases hlast : ∃ k, skip = some k ∧ k + 1 = slot + row.length
  · obtain ⟨k, rfl, hk⟩ := hlast
    rw [filter_addressed_eq_dropLast hk]
    rcases List.eq_nil_or_concat row with rfl | ⟨init, last, rfl⟩
    · exact h
    · rw [List.concat_eq_append, addressed_append] at h
      rw [List.concat_eq_append, List.dropLast_concat]
      exact h.of_append
  · rw [filter_addressed_eq_self]
    · exact h
    · intro k hk
      have hle := hskip k hk
      have hne : k + 1 ≠ slot + row.length := fun heq => hlast ⟨k, hk, heq⟩
      omega

/-- Two prints of a line in progress behind which the next token of a row is put. -/
inductive Growing (o : Options) (ahead : Address → Option Token) (wanted wanted' : WantedBlanks)
    (ordinal : Nat) : Option Token → Option Line → Option Line → Prop where
  | start (previous : Option Token) : Growing o ahead wanted wanted' ordinal previous none none
  | behind {l l' : Line} {p : Placement} :
      Twins o ahead wanted wanted' ordinal True [] [] l l' → l.placements.getLast? = some p →
      Growing o ahead wanted wanted' ordinal (some p.token) (some l) (some l')

theorem Growing.of_put
    {l k k' : Line} {a : Address} {t : Token} {printed : Text} {n : Nat}
    (h : Twins o ahead wanted wanted' ordinal True [] [] k k')
    (hput : k.placements = (l.put a t printed n).placements) :
    Growing o ahead wanted wanted' ordinal (some t) (some k) (some k') := by
  have hlast : k.placements.getLast? = some
      { address := a, token := t, printed
        column := ((if l.placements.isEmpty then l.text else Text.trimRight l.text) ++
          Text.blanks n).length } := by
    rw [hput]
    simp [Line.put]
  exact .behind h hlast

theorem Growing.toList
    {previous : Option Token} {current current' : Option Line}
    (h : Growing o ahead wanted wanted' ordinal previous current current') :
    List.Forall₂ (Twins o ahead wanted wanted' ordinal True [] []) current.toList
      current'.toList := by
  cases h with
  | start => exact .nil
  | behind htwins => exact .cons htwins .nil

/-- The next token of a row behind the line in progress. -/
theorem twins_put
    {l l' : Line} {p : Placement} {a : Address} {t : Token} {rest : List (Address × Token)}
    (before : Option Token) (h : Twins o ahead wanted wanted' ordinal True [] [] l l')
    (hlast : l.placements.getLast? = some p)
    (hrow : Regular o ahead ordinal (some p.token) ((a, t) :: rest)) :
    Twins o ahead wanted wanted' ordinal True [] []
      (l.put a t (tokenText o t (some p.token) before)
        (Spacing.printed o (wanted a) t (some p.token)))
      (l'.put a t (tokenText o t (some p.token) before)
        (Spacing.printed o (wanted' a) t (some p.token))) := by
  obtain ⟨hstatement, hahead, ⟨hsolid, hrole⟩, -⟩ := hrow
  exact h.put hlast hstatement (hsolid _ _) (hrole _ _) (.inl ⟨hahead, rfl, rfl⟩)

/-! ## Plain statements -/

theorem twins_beginLine
    {indent startColumn : Nat} {a : Address} {t : Token} {previous before : Option Token}
    {rest : List (Address × Token)} (hrow : Regular o ahead ordinal previous ((a, t) :: rest)) :
    Twins o ahead wanted wanted' ordinal True [] []
      (beginLine o indent startColumn a t previous before)
      (beginLine o indent startColumn a t previous before) := by
  obtain ⟨hstatement, -, ⟨hsolid, hrole⟩, -⟩ := hrow
  unfold beginLine
  dsimp only
  split
  · exact .first true hstatement (hsolid _ _) (hrole _ _) fun _ => rfl
  · exact .first false hstatement (hsolid _ _) (hrole _ _) fun _ => rfl

theorem placements_beginLine
    (o : Options) (indent startColumn : Nat) (a : Address) (t : Token)
    (previous before : Option Token) :
    ∃ n, (beginLine o indent startColumn a t previous before).placements =
      (({} : Line).put a t (tokenText o t previous before) n).placements := by
  unfold beginLine
  dsimp only
  split
  · exact ⟨0, rfl⟩
  · exact ⟨_, rfl⟩

/-- The lines of cells break at the same cells in both prints. -/
theorem twins_cellLines
    {indent startColumn : Nat} {previous before : Option Token} {current current' : Option Line}
    {cells : List (Address × Cell)}
    (hcurrent : Growing o ahead wanted wanted' ordinal previous current current')
    (hrow : Regular o ahead ordinal previous (cells.map fun c => (c.1, c.2.token))) :
    List.Forall₂ (Twins o ahead wanted wanted' ordinal True [] [])
      (cellLines o wanted indent startColumn previous before current cells)
      (cellLines o wanted' indent startColumn previous before current' cells) := by
  induction cells generalizing previous before current current' with
  | nil => simpa [cellLines] using hcurrent.toList
  | cons head rest ih =>
      obtain ⟨a, cell⟩ := head
      rw [List.map_cons] at hrow
      have hrest := hrow.2.2.2
      simp only [cellLines]
      cases hcurrent with
      | start =>
          have hline := @twins_beginLine o ahead wanted wanted' ordinal indent startColumn a
            cell.token previous before _ hrow
          obtain ⟨n, hput⟩ := placements_beginLine o indent startColumn a cell.token previous before
          split
          · exact .cons hline (ih (.start _) hrest)
          · exact ih (.of_put hline hput) hrest
      | behind htwins hlast =>
          have hline := twins_put before htwins hlast hrow
          split
          · exact .cons hline (ih (.start _) hrest)
          · exact ih (.of_put hline rfl) hrest

/-! ## Chains -/

/-- The lines of a sequence break behind the same comments in both prints. -/
theorem twins_sequenceLines
    {previous before : Option Token} {current current' : Option Line}
    {tokens : List (Address × Token)}
    (hcurrent : Growing o ahead wanted wanted' ordinal previous current current')
    (hrow : Regular o ahead ordinal previous tokens) :
    List.Forall₂ (Twins o ahead wanted wanted' ordinal True [] [])
      (sequenceLines o wanted previous before current tokens)
      (sequenceLines o wanted' previous before current' tokens) := by
  induction tokens generalizing previous before current current' with
  | nil => simpa [sequenceLines] using hcurrent.toList
  | cons head rest ih =>
      obtain ⟨a, t⟩ := head
      obtain ⟨hstatement, -, ⟨hsolid, hrole⟩, hrest⟩ := id hrow
      have hfresh : Twins o ahead wanted wanted' ordinal True [] []
          { ({} : Line).put a t (tokenText o t previous before) 0 with fixed := t.isStarComment }
          { ({} : Line).put a t (tokenText o t previous before) 0 with fixed := t.isStarComment } :=
        .first t.isStarComment hstatement (hsolid _ _) (hrole _ _) fun _ => rfl
      have hgrown := Growing.of_put (l := {}) (n := 0) hfresh rfl
      simp only [sequenceLines]
      cases hcurrent with
      | start => exact ih hgrown hrest
      | behind htwins hlast =>
          dsimp only
          split
          · exact .cons htwins (ih hgrown hrest)
          · exact ih (.of_put (twins_put before htwins hlast hrow) rfl) hrest

theorem twins_foldl_absorb
    {first first' : Line} {rest rest' : List Line}
    (hfirst : Twins o ahead wanted wanted' ordinal True [] [] first first')
    (hrest : List.Forall₂ (Twins o ahead wanted wanted' ordinal True [] []) rest rest') :
    Twins o ahead wanted wanted' ordinal True [] []
      (rest.foldl (fun l extra => l.absorb extra [' ']) first)
      (rest'.foldl (fun l extra => l.absorb extra [' ']) first') := by
  induction hrest generalizing first first' with
  | nil => exact hfirst
  | @cons l l' rest rest' hl _ ih =>
      obtain ⟨q, qs, hqs⟩ := List.exists_cons_of_ne_nil (hl.anchor trivial).1
      exact ih (@Twins.absorb _ _ _ _ _ _ _ _ _ _ _ _ 0 0 1 q _ hfirst hl (fun _ => rfl)
        (by rw [hqs, List.head?_cons]) (.one o q.token _))

/-- The line with the colon of a chain. -/
theorem twins_keywordLine
    {indent : Nat} {c : Chain} (hcolon : c.colon.role = .colon)
    (hwords : Regular o ahead ordinal none (addressed ordinal 0 c.words)) :
    Twins o ahead wanted wanted' ordinal False [] [] (keywordLine o wanted ordinal indent c)
        (keywordLine o wanted' ordinal indent c) ∧
      (keywordLine o wanted ordinal indent c).placements ≠ [] := by
  have hlines := @twins_sequenceLines o ahead wanted wanted' ordinal none none none none
    (addressed ordinal 0 c.words) (.start none) hwords
  have hne : (keywordLine o wanted ordinal indent c).placements ≠ [] := by
    simp [keywordLine, Line.put]
  refine ⟨?_, hne⟩
  unfold keywordLine
  dsimp only
  cases hwanted : sequenceLines o wanted none none none (addressed ordinal 0 c.words) with
  | nil =>
      have hlisted := listed_sequenceLines o wanted none none none (addressed ordinal 0 c.words)
      rw [hwanted] at hlisted
      simp [Chain.words, addressed, listing] at hlisted
  | cons first rest =>
      rw [hwanted] at hlines
      obtain ⟨first', rest', hfirst, hrest, hwanted'⟩ := List.forall₂_cons_left_iff.mp hlines
      rw [hwanted']
      have hjoined := twins_foldl_absorb hfirst hrest
      obtain ⟨p, hlast⟩ := Option.isSome_iff_exists.mp
        (List.getLast?_isSome.mpr (hjoined.anchor trivial).1)
      have hindent := hjoined.loose.indent (hjoined.anchor trivial).1 indent indent
      refine hindent.put (p := { p with column := p.column + indent }) ?_ rfl solid_colon
        (by simp [Text.beginsWithTerminator]) (.inr ⟨rfl, .of_colon hcolon⟩)
      simp [Line.indent, hlast]

/-- The lines of a member, without the period that is printed apart. -/
theorem kindred_memberLines
    {slot : Nat} {skip : Option Nat} {cells : List Cell} {trailing : Option Comment}
    (hrow : Regular o ahead ordinal none (addressed ordinal slot (cells.map (·.token))))
    (hskip : ∀ k, skip = some k → slot + cells.length ≤ k + 1)
    (htrailing : ∀ c, trailing = some c → c.IsSigned) :
    List.Forall₂ (Kindred o ahead wanted wanted' ordinal False)
      (memberLines o wanted ordinal slot skip cells trailing)
      (memberLines o wanted' ordinal slot skip cells trailing) := by
  have hkept : Regular o ahead ordinal none ((addressed ordinal slot (cells.map (·.token))).filter
      fun p => some p.1.slot != skip) := hrow.filter (by simpa using hskip)
  have hlines := @twins_sequenceLines o ahead wanted wanted' ordinal none none none none _
    (.start none) hkept
  have hfirst : List.Forall₂ (Twins o ahead wanted wanted' ordinal False [] [])
        (memberLines o wanted ordinal slot skip cells none)
        (memberLines o wanted' ordinal slot skip cells none) ∧
      List.Forall₂ (Kindred o ahead wanted wanted' ordinal False)
        (memberLines o wanted ordinal slot skip cells none)
        (memberLines o wanted' ordinal slot skip cells none) := by
    simp only [memberLines]
    revert hlines
    generalize sequenceLines o wanted none none none _ = lines
    generalize sequenceLines o wanted' none none none _ = lines'
    intro hlines
    cases hlines with
    | nil =>
        exact ⟨.cons .empty .nil, .cons ⟨[], [], .empty,
          fun _ => ⟨0, 0, rfl, rfl, fun _ => rfl⟩, fun _ => ⟨rfl, rfl⟩⟩ .nil⟩
    | cons hl hrest =>
        exact ⟨(List.Forall₂.cons hl hrest).imp fun _ _ h => h.loose,
          (List.Forall₂.cons hl hrest).imp fun _ _ h => h.loose.kindred (h.anchor trivial).1⟩
  cases trailing with
  | none => exact hfirst.2
  | some c =>
      -- The comment goes behind the first line; the others stay as they are.
      change List.Forall₂ _
        ((memberLines o wanted ordinal slot skip cells none).modify 0
          fun l => { attachComment o c l with endsInComment := true })
        ((memberLines o wanted' ordinal slot skip cells none).modify 0
          fun l => { attachComment o c l with endsInComment := true })
      revert hfirst
      generalize memberLines o wanted ordinal slot skip cells none = lines
      generalize memberLines o wanted' ordinal slot skip cells none = lines'
      rintro ⟨htwins, hkindred⟩
      cases htwins with
      | nil => exact .nil
      | cons hl _ =>
          rw [List.modify_zero_cons, List.modify_zero_cons]
          exact .cons (hl.attachComment (htrailing c rfl)) (List.forall₂_cons.mp hkindred).2

/-- A comment between members. -/
theorem kindred_standing
    {c : Comment} (indent indent' : Nat) (hc : c.IsMarked) :
    Kindred o ahead wanted wanted' ordinal False
      { text := CommentText.standing o indent c.value, endsInComment := true }
      { text := CommentText.standing o indent' c.value, endsInComment := true } := by
  have hbegins (m : Nat) : ({ text := CommentText.standing o m c.value, endsInComment := true } :
      Line).beginsWithTerminator = false := by
    rcases signed_or_starred_standing
        (l := { text := CommentText.standing o m c.value, endsInComment := true }) o m hc rfl rfl
      with ⟨n, comment, -, body, htext, hspread⟩ | ⟨-, comment, -, htext⟩
    · rw [hspread.eq_nil, List.nil_append] at htext
      exact beginsWithTerminator_of_sign htext
    · rw [Line.beginsWithTerminator, htext, Text.trimLeft_cons (by decide)]
      rfl
  exact ⟨_, _, ⟨rfl, rfl, .nil, False.elim, ⟨[], rfl, .nil 0⟩, ⟨[], rfl, .nil 0⟩⟩, by simp,
    fun _ => ⟨hbegins indent, hbegins indent'⟩⟩

/-- What printing an entry of a chain relies on. -/
structure EntryFits (o : Options) (ahead : Address → Option Token) (ordinal : Nat)
    (skip : Option Nat) (e : Nat × Entry) : Prop where
  sound : e.2.Sound
  regular : Regular o ahead ordinal none (addressed ordinal e.1 (e.2.cells.map (·.token)))
  skip : ∀ k, skip = some k → e.1 + e.2.cells.length ≤ k + 1

theorem kindred_entryLines
    {skip : Option Nat} {e : Nat × Entry} (indent indent' : Nat)
    (h : EntryFits o ahead ordinal skip e) :
    List.Forall₂ (Kindred o ahead wanted wanted' ordinal False)
      (entryLines o wanted ordinal indent skip e) (entryLines o wanted' ordinal indent' skip e) := by
  obtain ⟨slot, e⟩ := e
  cases e with
  | remark comment => exact .cons (kindred_standing indent indent' h.sound) .nil
  | member cells trailing =>
      have hlines := @kindred_memberLines o ahead wanted wanted' ordinal slot skip cells trailing
        h.regular h.skip h.sound
      rw [entryLines, entryLines, List.forall₂_map_left_iff, List.forall₂_map_right_iff]
      exact hlines.imp fun _ _ hl => hl.placeMember indent indent'

theorem kindred_flatMap_entryLines
    {skip : Option Nat} {entries : List (Nat × Entry)} (indent indent' : Nat)
    (h : ∀ e ∈ entries, EntryFits o ahead ordinal skip e) :
    List.Forall₂ (Kindred o ahead wanted wanted' ordinal False)
      (entries.flatMap (entryLines o wanted ordinal indent skip))
      (entries.flatMap (entryLines o wanted' ordinal indent' skip)) := by
  induction entries with
  | nil => exact .nil
  | cons e rest ih =>
      rw [List.flatMap_cons, List.flatMap_cons]
      exact List.rel_append (kindred_entryLines indent indent' (h e (by simp)))
        (ih fun d hd => h d (by simp [hd]))

theorem kindred_entriesLines
    {skip : Option Nat} {inlineFirst : Bool} {keyword keyword' : Line}
    {entries : List (Nat × Entry)} (indent indent' : Nat)
    (hkeyword : Twins o ahead wanted wanted' ordinal False [] [] keyword keyword')
    (hne : keyword.placements ≠ []) (h : ∀ e ∈ entries, EntryFits o ahead ordinal skip e) :
    List.Forall₂ (Kindred o ahead wanted wanted' ordinal False)
      (entriesLines o wanted ordinal indent skip inlineFirst keyword entries)
      (entriesLines o wanted' ordinal indent' skip inlineFirst keyword' entries) := by
  have hbelow (es : List (Nat × Entry)) (hes : ∀ e ∈ es, e ∈ entries) :=
    @kindred_flatMap_entryLines o ahead wanted wanted' ordinal skip es indent indent'
      fun e he => h e (hes e he)
  have hcolon := hkeyword.kindred hne
  unfold entriesLines
  dsimp only
  split
  next slot cells trailing rest =>
    have hfits := h (slot, .member cells trailing) (by simp)
    have hrest := hbelow rest fun e he => by simp [he]
    have hlines := @kindred_memberLines o ahead wanted wanted' ordinal slot skip cells trailing
      hfits.regular hfits.skip hfits.sound
    revert hlines
    generalize memberLines o wanted ordinal slot skip cells trailing = lines
    generalize memberLines o wanted' ordinal slot skip cells trailing = lines'
    intro hlines
    cases hlines with
    | nil => exact .cons hcolon hrest
    | cons hfirst hmore =>
        refine .cons (hkeyword.absorb_kindred hne hfirst) (List.rel_append ?_ hrest)
        rw [List.forall₂_map_left_iff, List.forall₂_map_right_iff]
        exact hmore.imp fun _ _ hl => hl.placeMember indent indent'
  next => exact .cons hcolon (hbelow entries fun e he => he)

/-! ## Statements -/

abbrev RespacedLines (o : Options) (ahead : Address → Option Token)
    (wanted wanted' : WantedBlanks) (ordinal : Nat) (anchored : Prop) (lines lines' : List Line) :
    Prop :=
  List.Forall₂ (Respaced o ahead wanted wanted' ordinal anchored) (lines.map (·.placements))
    (lines'.map (·.placements))

theorem respacedLines_of_kindred
    {anchored : Prop} {lines lines' : List Line}
    (h : List.Forall₂ (Kindred o ahead wanted wanted' ordinal anchored) lines lines') :
    RespacedLines o ahead wanted wanted' ordinal anchored lines lines' := by
  rw [RespacedLines, List.forall₂_map_left_iff, List.forall₂_map_right_iff]
  exact h.imp fun _ _ hl => hl.respaced

/-- The first tokens of the lines of a plain statement keep their columns. -/
theorem respaced_plainLines
    {s : Statement} {cells : List Cell}
    (hrow : Regular o ahead ordinal none (addressed ordinal 0 (cells.map (·.token)))) :
    RespacedLines o ahead wanted wanted' ordinal True (plainLines o wanted ordinal s cells)
      (plainLines o wanted' ordinal s cells) := by
  obtain ⟨k, hk, hpoint⟩ := minimum_le_joiner o
  rw [← map_addressed Cell.token] at hrow
  rw [plainLines, plainLines, RespacedLines, map_placements_attachToLast,
    map_placements_attachTrailing, map_placements_attachToLast, map_placements_attachTrailing, hk]
  refine respacedLines_of_kindred (kindred_glue s.post.isSome hpoint ?_)
  rw [List.forall₂_map_left_iff, List.forall₂_map_right_iff]
  refine (twins_cellLines (.start none) hrow).imp fun l l' h => ?_
  exact h.trimRight.kindred (h.anchor trivial).1

theorem entryFits_of_mem_slotted
    {slot : Nat} {skip : Option Nat} {entries : List Entry}
    (hsound : ∀ e ∈ entries, e.Sound)
    (hregular : ∀ row ∈ addressedRows ordinal slot (entries.filterMap Entry.row?),
      Regular o ahead ordinal none row)
    (hskip : ∀ k, skip = some k → slot + (entries.flatMap Entry.cells).length ≤ k + 1) :
    ∀ e ∈ slotted slot entries, EntryFits o ahead ordinal skip e := by
  induction entries generalizing slot with
  | nil => simp [slotted]
  | cons e rest ih =>
      rw [List.flatMap_cons, List.length_append] at hskip
      have hhead : EntryFits o ahead ordinal skip (slot, e) := by
        refine ⟨hsound e (by simp), ?_, fun k hk => ?_⟩
        swap
        · have := hskip k hk
          dsimp only
          omega
        cases e with
        | remark comment => trivial
        | member cells trailing => exact hregular _ (by simp [addressedRows, Entry.cells])
      have hrest : ∀ d ∈ slotted (slot + e.cells.length) rest, EntryFits o ahead ordinal skip d := by
        refine ih (fun d hd => hsound d (by simp [hd])) (fun row hrow => hregular row ?_)
          fun k hk => by have := hskip k hk; omega
        cases e with
        | remark comment => simpa [Entry.cells, List.filterMap_cons] using hrow
        | member cells trailing => simpa [addressedRows, Entry.cells] using .inr hrow
      exact List.forall_mem_cons.mpr ⟨hhead, hrest⟩

theorem respaced_chainLines
    {s : Statement} {c : Chain} (hcolon : c.colon.role = .colon)
    (hentries : ∀ e ∈ c.entries, e.Sound)
    (hwords : Regular o ahead ordinal none (addressed ordinal 0 c.words))
    (hrows : ∀ row ∈ addressedRows ordinal (c.words.length + 1) (c.entries.filterMap Entry.row?),
      Regular o ahead ordinal none row)
    (hcells : ∀ e ∈ c.entries, ∀ cell ∈ e.cells, IsRegular o cell.token) :
    RespacedLines o ahead wanted wanted' ordinal False (chainLines o wanted ordinal s c)
      (chainLines o wanted' ordinal s c) := by
  obtain ⟨k, hk, hpoint⟩ := minimum_le_joiner o
  obtain ⟨hkeyword, hne⟩ := @twins_keywordLine o ahead wanted wanted' ordinal (baseIndent o s) c
    hcolon hwords
  rw [chainLines, chainLines, RespacedLines, map_placements_attachToLast,
    map_placements_attachToLast, map_placements_attachToLast, map_placements_attachToLast, hk]
  refine respacedLines_of_kindred (kindred_glue _ hpoint (List.rel_append ?_ ?_))
  · refine kindred_entriesLines _ _ hkeyword hne (entryFits_of_mem_slotted hentries hrows ?_)
    intro j hj
    obtain ⟨period, hperiod, rfl⟩ := Option.map_eq_some_iff.mp hj
    obtain ⟨-, -, -, -, -, -, hslot⟩ := closing?_eq_some (k := period.1) (t := period.2) hperiod
    omega
  · rw [List.forall₂_map_left_iff, List.forall₂_map_right_iff, List.forall₂_same]
    rintro ⟨slot, t⟩ hperiod
    obtain ⟨e, he, cell, hcell, rfl⟩ := mem_cells_of_closing? (Option.mem_toList.mp hperiod)
    obtain ⟨hsolid, hrole⟩ := hcells e he cell hcell
    have hfirst (n n' : Nat) := @Twins.first o ahead wanted wanted' ordinal False
      ⟨ordinal, slot⟩ cell.token _ n n' false rfl (hsolid none none) (hrole none none) False.elim
    exact (hfirst _ _).kindred (by simp [Line.put])

/-- The lines of a statement; those of a plain one begin in the same columns. -/
theorem respaced_statementLines
    {s : Statement} (hsound : s.Sound)
    (hrows : ∀ row ∈ addressedRows ordinal 0 s.rows, Regular o ahead ordinal none row)
    (htokens : ∀ row ∈ s.rows, ∀ t ∈ row, IsRegular o t) :
    RespacedLines o ahead wanted wanted' ordinal (s.body.chain? = none)
      (statementLines o wanted ordinal s) (statementLines o wanted' ordinal s) := by
  rw [Statement.rows] at hrows htokens
  cases hbody : s.body with
  | chain c =>
      rw [hbody] at hrows htokens
      rw [Body.rows] at hrows
      rw [statementLines_chain hbody, statementLines_chain hbody]
      simp only [addressedRows, List.mem_cons, List.length_singleton, Nat.zero_add] at hrows
      have hlines := @respaced_chainLines o ahead wanted wanted' ordinal s c (hsound.colon c hbody)
        (hsound.entries c hbody) (hrows _ (.inl rfl)) (fun row hrow => hrows row (.inr (.inr hrow)))
        ?_
      · exact hlines.imp fun _ _ h => ⟨h.1, fun hplain => by simp [Body.chain?] at hplain⟩
      · intro e he cell hcell
        obtain ⟨row, hrow, hmem⟩ := mem_rows_of_mem_cells he hcell
        exact htokens row hrow _ hmem
  | plain cells =>
      cases cells with
      | nil =>
          rw [statementLines_comment hbody, statementLines_comment hbody, RespacedLines,
            List.map_map, List.forall₂_map_left_iff, List.forall₂_map_right_iff, List.forall₂_same]
          exact fun _ _ => ⟨.nil, fun _ => rfl⟩
      | cons cell cells =>
          rw [hbody, Body.rows] at hrows
          rw [statementLines_plain hbody, statementLines_plain hbody]
          have hlines := @respaced_plainLines o ahead wanted wanted' ordinal s (cell :: cells)
            (hrows _ (by simp [addressedRows]))
          exact hlines.imp fun _ _ h => ⟨h.1, fun _ => h.2 trivial⟩

/-! ## Documents -/

/-- Two prints of a line of some statements. -/
def RespacedIn (o : Options) (ahead : Address → Option Token) (wanted wanted' : WantedBlanks)
    (ordinal : Nat) (statements : List Statement) (ps ps' : List Placement) : Prop :=
  ∃ i s, statements[i]? = some s ∧
    Respaced o ahead wanted wanted' (ordinal + i) (s.body.chain? = none) ps ps'

/-- The statements behind the first one. -/
theorem RespacedIn.tail
    {s : Statement} {statements : List Statement} {ps ps' : List Placement}
    (h : RespacedIn o ahead wanted wanted' (ordinal + 1) statements ps ps') :
    RespacedIn o ahead wanted wanted' ordinal (s :: statements) ps ps' := by
  obtain ⟨i, d, hd, hrespaced⟩ := h
  rw [show ordinal + 1 + i = ordinal + (i + 1) by omega] at hrespaced
  exact ⟨i + 1, d, hd, hrespaced⟩

theorem respacedIn_blank (s : Statement) (statements : List Statement) (n : Nat) :
    List.Forall₂ (RespacedIn o ahead wanted wanted' ordinal (s :: statements))
      ((List.replicate n ({} : Line)).map (·.placements))
      ((List.replicate n ({} : Line)).map (·.placements)) := by
  rw [List.map_replicate, List.forall₂_same]
  intro ps hps
  rw [(List.mem_replicate.mp hps).2]
  exact ⟨0, s, rfl, .nil, fun _ => rfl⟩

theorem respaced_linesFrom
    {previous : Option Statement} {statements : List Statement}
    (hsound : ∀ s ∈ statements, s.Sound)
    (hrows : ∀ i s, statements[i]? = some s →
      ∀ row ∈ addressedRows (ordinal + i) 0 s.rows, Regular o ahead (ordinal + i) none row)
    (htokens : ∀ s ∈ statements, ∀ row ∈ s.rows, ∀ t ∈ row, IsRegular o t) :
    List.Forall₂ (RespacedIn o ahead wanted wanted' ordinal statements)
      ((linesFrom o wanted ordinal previous statements).map (·.placements))
      ((linesFrom o wanted' ordinal previous statements).map (·.placements)) := by
  induction statements generalizing ordinal previous with
  | nil => exact .nil
  | cons s rest ih =>
      have hs := @respaced_statementLines o ahead wanted wanted' ordinal s (hsound s (by simp))
        (hrows 0 s rfl) (htokens s (by simp))
      have hrest (previous : Option Statement) := @ih (ordinal + 1) previous
        (fun d hd => hsound d (by simp [hd]))
        (fun i d hd => by
          rw [show ordinal + 1 + i = ordinal + (i + 1) by omega]
          exact hrows (i + 1) d hd)
        fun d hd => htokens d (by simp [hd])
      -- Both prints have lines for the statement, or neither has.
      have hnone : statementLines o wanted ordinal s = [] ↔
          statementLines o wanted' ordinal s = [] := by
        have hlength := hs.length_eq
        rw [List.length_map, List.length_map] at hlength
        rw [← List.length_eq_zero_iff, hlength, List.length_eq_zero_iff]
      simp only [linesFrom_cons, hnone, List.map_append]
      refine List.rel_append (respacedIn_blank s rest _) (List.rel_append ?_ ?_)
      · exact hs.imp fun _ _ h => ⟨0, s, rfl, h⟩
      · exact (hrest _).imp fun _ _ h => h.tail

/-- Printing with another table changes only the blanks in front of tokens that are not the first on
their line. -/
theorem respaced_render
    (wanted wanted' : WantedBlanks) {statements : List Statement}
    (hsound : ∀ s ∈ statements, s.Sound)
    (hrows : ∀ i s, statements[i]? = some s →
      ∀ row ∈ addressedRows i 0 s.rows, Regular o ahead i none row)
    (htokens : ∀ s ∈ statements, ∀ row ∈ s.rows, ∀ t ∈ row, IsRegular o t) :
    List.Forall₂ (RespacedIn o ahead wanted wanted' 0 statements)
      ((render o wanted statements).map (·.placements))
      ((render o wanted' statements).map (·.placements)) :=
  respaced_linesFrom hsound (by simpa using hrows) htokens

end Rendering

end AbapLayout
