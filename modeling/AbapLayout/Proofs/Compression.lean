import Mathlib.Data.List.Nodup
import AbapLayout.Proofs.Respacing
import AbapLayout.Proofs.WantedTable

/-!
# Compression removes blanks only

A source is printed with the blanks of its spacing rules, and once more with the blanks that
alignment wants.  The second print has the same lines with the same tokens on them, and in front of
no token more blanks than the first one; where blanks are mandatory they stay, and where there are
some one is left (`format_compressed`).
-/

namespace AbapLayout

open Rendering

/-! ## The token in front of another one in its row -/

/-- The tokens in front of those of a row. -/
def predecessors (previous : Option Token) : List Token → List (Option Token)
  | [] => []
  | t :: rest => previous :: predecessors (some t) rest

/-- The token in front of the one with the given address: in its plain statement, in its member of a
chain, or among the shared words. -/
def tokenBefore (statements : List Statement) (a : Address) : Option Token :=
  match statements[a.statement]? with
  | some s => ((s.rows.flatMap (predecessors none))[a.slot]?).join
  | none => none

@[simp] theorem length_predecessors (previous : Option Token) (row : List Token) :
    (predecessors previous row).length = row.length := by
  induction row generalizing previous with
  | nil => rfl
  | cons t rest ih => simp [predecessors, ih]

section

variable {o : Options} {ahead : Address → Option Token} {ordinal : Nat}

theorem regular_addressed
    {slot : Nat} {previous : Option Token} {row : List Token} (htokens : ∀ t ∈ row, IsRegular o t)
    (hahead : ∀ i p, (predecessors previous row)[i]? = some p → ahead ⟨ordinal, slot + i⟩ = p) :
    Regular o ahead ordinal previous (addressed ordinal slot row) := by
  induction row generalizing slot previous with
  | nil => trivial
  | cons t rest ih =>
      refine ⟨rfl, hahead 0 previous rfl, htokens t (by simp),
        ih (fun u hu => htokens u (by simp [hu])) fun i p hp => ?_⟩
      have := hahead (i + 1) p hp
      rwa [show slot + (i + 1) = slot + 1 + i by omega] at this

theorem regular_addressedRows
    {slot : Nat} {rows : List (List Token)} (htokens : ∀ row ∈ rows, ∀ t ∈ row, IsRegular o t)
    (hahead : ∀ i p, (rows.flatMap (predecessors none))[i]? = some p →
      ahead ⟨ordinal, slot + i⟩ = p) :
    ∀ row ∈ addressedRows ordinal slot rows, Regular o ahead ordinal none row := by
  induction rows generalizing slot with
  | nil => simp [addressedRows]
  | cons row rest ih =>
      rw [List.flatMap_cons] at hahead
      refine List.forall_mem_cons.mpr ⟨?_, ih (fun r hr => htokens r (by simp [hr])) ?_⟩
      · refine regular_addressed (htokens row (by simp)) fun i p hp => hahead i p ?_
        rw [List.getElem?_append_left, hp]
        exact (List.getElem?_eq_some_iff.mp hp).1
      · intro i p hp
        rw [Nat.add_assoc]
        refine hahead (row.length + i) p ?_
        rw [List.getElem?_append_right (by simp), length_predecessors, Nat.add_sub_cancel_left, hp]

/-- Every token of a statement has the one in front of it in its row ahead. -/
theorem regular_rows
    {statements : List Statement}
    (htokens : ∀ s ∈ statements, ∀ row ∈ s.rows, ∀ t ∈ row, IsRegular o t) {i : Nat}
    {s : Statement} (hs : statements[i]? = some s) :
    ∀ row ∈ addressedRows i 0 s.rows, Regular o (tokenBefore statements) i none row := by
  refine regular_addressedRows (htokens s (List.mem_of_getElem? hs)) ?_
  intro j p hp
  simp [tokenBefore, hs, hp]

end

/-- Only punctuation is printed with a period or comma in front. -/
theorem Token.Lexed.isRegular {t : Token} (o : Options) (h : t.Lexed) : IsRegular o t := by
  refine ⟨fun previous before => solid_tokenText o previous before h, fun previous before => ?_⟩
  intro hbegins
  cases hstar : t.isStarComment with
  | true =>
      have hhead : t.text.head? = some '*' := by
        rw [Token.isStarComment, Bool.and_eq_true, beq_iff_eq] at hstar
        exact hstar.2
      obtain ⟨cs, hcs⟩ := List.head?_eq_some_iff.mp hhead
      simp [tokenText, hstar, Text.beginsWithTerminator, hcs] at hbegins
  | false =>
      obtain ⟨c, cs, d, ds, htext, hprinted, hhead⟩ := h.head_tokenText o previous before hstar
      have hd : d = '.' ∨ d = ',' := by
        simpa [hprinted, Text.beginsWithTerminator] using hbegins
      have hc : c = '.' ∨ c = ',' := by
        rcases hhead with rfl | ⟨-, halpha⟩
        · exact hd
        · rcases hd with rfl | rfl <;> exact absurd halpha (by decide)
      have hunit : t.IsUnit := h.unit.resolve_right fun hno => by simp [hstar] at hno
      obtain ⟨e, es, rest, htext', -, hmeasure⟩ := hunit
      rw [htext] at htext'
      injection htext' with he
      rw [← he] at hmeasure
      rcases Lexeme.measure_cases hmeasure with
        ⟨hsign, -⟩ | ⟨hquote, -⟩ | ⟨hbar, -⟩ | ⟨hnumber, -⟩ | ⟨-, hplain⟩
      · rcases hc with rfl | rfl <;> simp at hsign
      · rcases hc with rfl | rfl <;> simp [Literal.isQuote] at hquote
      · rcases hc with rfl | rfl <;> simp at hbar
      · rcases hc with rfl | rfl <;> simp at hnumber
      · rcases Lexeme.measurePlain_role c (es ++ rest) with
          ⟨-, hrole⟩ | ⟨hcolon, -⟩ | ⟨hdot, hcomma, -⟩
        · rw [hplain] at hrole
          exact (Prod.mk.inj hrole).1
        · rcases hc with rfl | rfl <;> simp at hcolon
        · exact absurd hc (by simp [hdot, hcomma])

/-! ## Addresses -/

theorem le_slot_of_mem_addressed
    {α : Type} {ordinal slot : Nat} {as : List α} {p : Address × α}
    (h : p ∈ addressed ordinal slot as) :
    p.1.statement = ordinal ∧ slot ≤ p.1.slot := by
  induction as generalizing slot with
  | nil => simp [addressed] at h
  | cons a rest ih =>
      rw [addressed, List.mem_cons] at h
      rcases h with rfl | h
      · exact ⟨rfl, Nat.le_refl slot⟩
      · exact ⟨(ih h).1, Nat.le_of_succ_le (ih h).2⟩

theorem nodup_addressed {α : Type} (ordinal slot : Nat) (as : List α) :
    ((addressed ordinal slot as).map Prod.fst).Nodup := by
  induction as generalizing slot with
  | nil => exact List.nodup_nil
  | cons a rest ih =>
      rw [addressed, List.map_cons, List.nodup_cons]
      refine ⟨fun hmem => ?_, ih (slot + 1)⟩
      obtain ⟨p, hp, heq⟩ := List.mem_map.mp hmem
      have hle := (le_slot_of_mem_addressed hp).2
      rw [heq] at hle
      exact absurd hle (Nat.not_succ_le_self slot)

theorem flatten_addressedRows (ordinal slot : Nat) (rows : List (List Token)) :
    (addressedRows ordinal slot rows).flatten = addressed ordinal slot rows.flatten := by
  induction rows generalizing slot with
  | nil => rfl
  | cons row rest ih => simp [addressedRows, ih, addressed_append]

theorem le_statement_of_mem_addressedStatements
    {ordinal : Nat} {statements : List Statement} {row : List (Address × Token)}
    {p : Address × Token} (hrow : row ∈ addressedStatements ordinal statements) (hp : p ∈ row) :
    ordinal ≤ p.1.statement := by
  induction statements generalizing ordinal with
  | nil => simp [addressedStatements] at hrow
  | cons s rest ih =>
      rw [addressedStatements, List.mem_append] at hrow
      rcases hrow with hrow | hrow
      · have hmem : p ∈ (addressedRows ordinal 0 s.rows).flatten := List.mem_flatten_of_mem hrow hp
        rw [flatten_addressedRows] at hmem
        exact (le_slot_of_mem_addressed hmem).1.ge
      · exact Nat.le_of_succ_le (ih hrow)

theorem nodup_addressedStatements (ordinal : Nat) (statements : List Statement) :
    ((addressedStatements ordinal statements).flatten.map Prod.fst).Nodup := by
  induction statements generalizing ordinal with
  | nil => exact List.nodup_nil
  | cons s rest ih =>
      rw [addressedStatements, List.flatten_append, flatten_addressedRows, List.map_append,
        List.nodup_append]
      refine ⟨nodup_addressed ordinal 0 _, ih (ordinal + 1), ?_⟩
      intro a ha b hb hab
      obtain ⟨p, hp, rfl⟩ := List.mem_map.mp ha
      obtain ⟨q, hq, rfl⟩ := List.mem_map.mp hb
      obtain ⟨row, hrow, hq⟩ := List.mem_flatten.mp hq
      have hbelow := le_statement_of_mem_addressedStatements hrow hq
      rw [← hab, (le_slot_of_mem_addressed hp).1] at hbelow
      omega

theorem map_listing
    (o : Options) (previous before : Option Token) (row : List (Address × Token)) :
    (listing o previous before row).map (fun e => (e.1, e.2.1)) = row := by
  induction row generalizing previous before with
  | nil => rfl
  | cons head rest ih => simp [listing, ih]

/-- The printed tokens are those of the rows of the statements, with their addresses. -/
theorem map_placements_render
    (o : Options) (wanted : WantedBlanks) {statements : List Statement}
    (hcolon : ∀ s ∈ statements, ∀ c, s.body = .chain c → c.colon.Lexed ∧ c.colon.role = .colon) :
    ((render o wanted statements).flatMap (·.placements)).map (fun p => (p.address, p.token)) =
      (addressedStatements 0 statements).flatten := by
  have hlisted := congrArg (List.map fun e => (e.1, e.2.1)) (listed_render o wanted hcolon)
  rw [List.map_flatMap] at hlisted
  simp only [map_listing, List.flatMap_id'] at hlisted
  rw [← hlisted]
  simp [listedLines, Line.listed, List.map_flatMap, Function.comp_def]

/-- No two tokens are printed with one address. -/
theorem nodup_addresses_render
    (o : Options) (wanted : WantedBlanks) {statements : List Statement}
    (hcolon : ∀ s ∈ statements, ∀ c, s.body = .chain c → c.colon.Lexed ∧ c.colon.role = .colon) :
    ((render o wanted statements).flatMap fun l => l.placements.map (·.address)).Nodup := by
  have hall := nodup_addressedStatements 0 statements
  rw [← map_placements_render o wanted hcolon] at hall
  simpa [List.map_flatMap, Function.comp_def] using hall

theorem mem_rows_of_mem_placements
    {o : Options} {wanted : WantedBlanks} {statements : List Statement}
    (hcolon : ∀ s ∈ statements, ∀ c, s.body = .chain c → c.colon.Lexed ∧ c.colon.role = .colon)
    {l : Line} (hl : l ∈ render o wanted statements) {p : Placement} (hp : p ∈ l.placements) :
    ∃ s ∈ statements, ∃ row ∈ s.rows, p.token ∈ row := by
  have hmem : (p.address, p.token) ∈ (addressedStatements 0 statements).flatten := by
    rw [← map_placements_render o wanted hcolon]
    exact List.mem_map.mpr ⟨p, List.mem_flatMap.mpr ⟨l, hl, hp⟩, rfl⟩
  obtain ⟨row, hrow, hmem⟩ := List.mem_flatten.mp hmem
  have hrow' : row.map Prod.snd ∈ statements.flatMap Statement.rows := by
    rw [← map_snd_addressedStatements 0 statements]
    exact List.mem_map_of_mem hrow
  obtain ⟨s, hs, hrow'⟩ := List.mem_flatMap.mp hrow'
  exact ⟨s, hs, _, hrow', List.mem_map_of_mem (f := Prod.snd) hmem⟩

/-! ## The blanks between two tokens -/

/-- One token stands behind another on a line, with the given number of blanks in between. -/
structure Line.Gap (l : Line) (p q : Placement) (w : Nat) : Prop where
  column : q.column = p.endColumn + w
  blanks : (l.text.drop p.endColumn).take w = Text.blanks w

theorem Spread.gap
    {column : Nat} {before after : List Placement} {p q : Placement} {body : Text}
    (tail : Text) (h : Spread column (before ++ p :: q :: after) body) :
    ∃ w, q.column = p.endColumn + w ∧
      ((body ++ tail).drop (p.endColumn - column)).take w = Text.blanks w := by
  induction before generalizing column body with
  | nil =>
      rw [List.nil_append] at h
      cases h with
      | @cons _ n _ _ more hcolumn _ hrest =>
          cases hrest with
          | @cons _ w _ _ rest hgap _ _ =>
              refine ⟨w, hgap, ?_⟩
              have hend : p.endColumn - column = (Text.blanks n ++ p.printed).length := by
                rw [Placement.endColumn, List.length_append, Text.length_blanks]
                omega
              rw [hend, List.append_assoc, List.append_assoc, ← List.append_assoc (Text.blanks n),
                List.drop_left, List.append_assoc]
              exact List.take_left' (Text.length_blanks w)
  | cons r before ih =>
      rw [List.cons_append] at h
      cases h with
      | @cons _ n _ _ more hcolumn _ hrest =>
          obtain ⟨w, hgap, hblanks⟩ := ih hrest
          have hle := (hrest.slice [] p (by simp)).1
          refine ⟨w, hgap, ?_⟩
          have hend : p.endColumn - column =
              (Text.blanks n ++ r.printed).length + (p.endColumn - r.endColumn) := by
            simp only [Placement.endColumn, List.length_append, Text.length_blanks] at hle ⊢
            omega
          rw [hend, ← List.drop_drop, List.append_assoc, List.append_assoc,
            ← List.append_assoc (Text.blanks n), List.drop_left]
          exact hblanks

theorem eq_take_append
    {α : Type} {as : List α} {i : Nat} {a b : α} (ha : as[i]? = some a)
    (hb : as[i + 1]? = some b) :
    as = as.take i ++ a :: b :: as.drop (i + 2) := by
  obtain ⟨hi, rfl⟩ := List.getElem?_eq_some_iff.mp ha
  obtain ⟨hi', rfl⟩ := List.getElem?_eq_some_iff.mp hb
  rw [← List.drop_eq_getElem_cons hi', ← List.drop_eq_getElem_cons hi, List.take_append_drop]

theorem mem_of_lookup
    {α β : Type} [BEq α] [LawfulBEq α] {entries : List (α × β)} {a : α} {b : β}
    (h : entries.lookup a = some b) :
    (a, b) ∈ entries := by
  obtain ⟨before, after, rfl, -⟩ := List.lookup_eq_some_iff.mp h
  simp

theorem Line.Laid.gap
    {l : Line} {i : Nat} {p q : Placement} (h : l.Laid) (hp : l.placements[i]? = some p)
    (hq : l.placements[i + 1]? = some q) :
    ∃ w, l.Gap p q w := by
  obtain ⟨tail, body, htext, hspread⟩ := h.shows
  rw [eq_take_append hp hq] at hspread
  obtain ⟨w, hcolumn, hblanks⟩ := hspread.gap tail
  exact ⟨w, hcolumn, by rwa [htext]⟩

/-! ## Compressed lines -/

/-- The least number of blanks is printed. -/
theorem Spacing.minimum_le_printed
    (o : Options) (wanted : Option Nat) (t p : Token) :
    Spacing.minimum o t (some p) ≤ Spacing.printed o wanted t (some p) := by
  unfold Spacing.printed
  cases wanted with
  | some n => exact Nat.le_max_right _ _
  | none =>
      dsimp only
      split
      · omega
      · exact Nat.le_max_right _ _

/-- The blanks that the table of a print without wanted blanks leaves in front of a token. -/
theorem Spacing.printed_le
    {o : Options} {t p : Token} {wanted : Option Nat}
    (h : ∀ n, wanted = some n → n ≤ Spacing.printed o none t (some p) ∧
      (n = 0 → Spacing.printed o none t (some p) ≠ 0)) :
    Spacing.printed o wanted t (some p) ≤ Spacing.printed o none t (some p) ∧
      (1 ≤ Spacing.printed o none t (some p) → 1 ≤ Spacing.printed o wanted t (some p)) := by
  cases wanted with
  | none => exact ⟨Nat.le_refl _, id⟩
  | some n =>
      have hleast := Spacing.minimum_le_printed o none t p
      obtain ⟨hle, hzero⟩ := h n rfl
      have hprinted : Spacing.printed o (some n) t (some p) =
          max n (Spacing.minimum o t (some p)) := rfl
      rw [hprinted]
      refine ⟨Nat.max_le.mpr ⟨hle, hleast⟩, fun _ => ?_⟩
      by_cases hn : n = 0
      · -- Where no blank is mandatory none is printed, so one is mandatory here.
        have hmandatory : Spacing.minimum o t (some p) ≠ 0 := by
          intro hnone
          exact hzero hn (by simp [Spacing.printed, hnone])
        omega
      · omega

/-- A token that closes an empty pair of brackets is not a separator. -/
theorem Token.Lexed.class_of_closesEmptyPair
    {t p : Token} (h : t.Lexed) (hcloses : Alignment.closesEmptyPair p t = true) :
    (TokenClass.ofToken t).isSeparator = false ∧ TokenClass.ofToken t ≠ .comment := by
  have htext : t.text = [')'] ∨ t.text = [']'] := by
    simp only [Alignment.closesEmptyPair, Bool.or_eq_true, Bool.and_eq_true, beq_iff_eq] at hcloses
    exact hcloses.imp And.right And.right
  have hcolon : t.role ≠ .colon := fun hrole => by
    have := h.separator_iff.2.mp hrole
    rcases htext with htext | htext <;> simp [htext] at this
  have hpunctuation : t.role ≠ .punctuation := fun hrole => by
    have := h.separator_iff.1.mp hrole
    rcases htext with htext | htext <;> simp [htext] at this
  have hcomment : t.role ≠ .comment := fun hrole => by
    have := h.text_of_isComment (by simp [Token.isComment, hrole])
    rcases htext with htext | htext <;> simp [htext, Comment.sign] at this
  unfold TokenClass.ofToken
  rw [if_neg hcolon, if_neg hpunctuation]
  repeat' split
  all_goals simp [TokenClass.isSeparator] at *

/-- What compression does to a line of some statements: the tokens and what is printed for them stay,
a line of a plain statement begins in the same column, and in front of the other tokens blanks are
removed, but neither mandatory ones nor the last one. -/
structure Compressed (o : Options) (statements : List Statement) (loose final : Line) : Prop where
  listed : final.listed = loose.listed
  begins : ∀ p p' s, loose.placements.head? = some p → final.placements.head? = some p' →
    statements[p.address.statement]? = some s → s.body.chain? = none → p'.column = p.column
  blanks : ∀ (i : Nat) p q p' q', loose.placements[i]? = some p →
    loose.placements[i + 1]? = some q → final.placements[i]? = some p' →
    final.placements[i + 1]? = some q' →
    ∃ w₀ w₁, loose.Gap p q w₀ ∧ final.Gap p' q' w₁ ∧
      Spacing.minimum o q.token (tokenBefore statements q.address) ≤ w₁ ∧ w₁ ≤ w₀ ∧
      (1 ≤ w₀ → 1 ≤ w₁)

section

variable {o : Options} {statements : List Statement}

/-- What the layout of statements relies on: they are sound, and their tokens come from a source. -/
def FromSource (statements : List Statement) : Prop :=
  ∀ s ∈ statements, s.Sound ∧ ∀ row ∈ s.rows, ∀ t ∈ row, t.Lexed

theorem FromSource.colon (h : FromSource statements) :
    ∀ s ∈ statements, ∀ c, s.body = .chain c → c.colon.Lexed ∧ c.colon.role = .colon :=
  lexed_colon (fun s hs => (h s hs).1) fun s hs => (h s hs).2

theorem FromSource.laid (h : FromSource statements) (wanted : WantedBlanks) :
    ∀ l ∈ render o wanted statements, l.Laid :=
  laid_render (fun s hs => (h s hs).1) (isSolid_rows (fun s hs => (h s hs).2) o)

theorem Layout.fromSource_of_split
    {source : Text} {filename : Option String} {raws : List RawStatement}
    (hsplit : Source.split source filename = .ok raws)
    (harrange : Layout.arrange raws = .ok statements) :
    FromSource statements := by
  obtain ⟨-, hsound, hlexed⟩ := Layout.sound_of_split hsplit harrange
  exact fun s hs => ⟨hsound s hs, hlexed s hs⟩

/-- No two positions have one address. -/
theorem nodup_positions (h : FromSource statements) :
    ((Alignment.positions (Alignment.looseLines o statements)).map (·.address)).Nodup := by
  rw [Alignment.positions, Position.map_address_ofLines]
  exact nodup_addresses_render o _ h.colon

/-- The position with the address of a printed token is its own. -/
theorem eq_ofPlacement
    (h : FromSource statements) {l : Line} {before after : List Placement} {q : Placement}
    {P : Position} (hl : l ∈ Alignment.looseLines o statements)
    (hps : l.placements = before ++ q :: after)
    (hP : P ∈ Alignment.positions (Alignment.looseLines o statements))
    (haddress : P.address = q.address) :
    ∃ number last, P = Position.ofPlacement number last before.getLast? q := by
  obtain ⟨number, last, hmem⟩ := Position.mem_ofLines 0 none hl hps
  exact ⟨number, last, List.inj_on_of_nodup_map (nodup_positions h) hP hmem haddress⟩

/-- An entry of the table belongs to a token that is not the first of its line and is neither a
comment nor a separator.  It asks for no more blanks than there are, and for none only where there
are some. -/
theorem wantedTable_spec
    (h : FromSource statements) {l : Line} {before after : List Placement} {q : Placement} {n : Nat}
    (hl : l ∈ Alignment.looseLines o statements) (hps : l.placements = before ++ q :: after)
    (hentry : (q.address, n) ∈ Alignment.wantedTable o statements) :
    (TokenClass.ofToken q.token).isSeparator = false ∧ TokenClass.ofToken q.token ≠ .comment ∧
      ∃ p, before.getLast? = some p ∧
        ∀ w, q.column = p.endColumn + w → n ≤ w ∧ (n = 0 → w ≠ 0) := by
  have hsound : ∀ P ∈ Alignment.positions (Alignment.looseLines o statements),
      P.spaces = P.start - P.previousEnd :=
    fun _ => Position.spaces_of_mem_ofLines
  have hlast (P : Position) (number : Nat) (last : Option Position)
      (hP : P = Position.ofPlacement number last before.getLast? q) (hleading : P.leading = false) :
      ∃ p, before.getLast? = some p := by
    rw [hP] at hleading
    exact Option.isSome_iff_exists.mp (by simpa [Position.ofPlacement] using hleading)
  rcases Alignment.earned_wantedAt _ hsound hentry with
    ⟨P, hP, haddress, ⟨hleading, hseparator, hcomment⟩, hpos, hle⟩ |
    ⟨P, hP, haddress, hleading, hne, hzero, hcloses⟩
  · obtain ⟨number, last, hown⟩ := eq_ofPlacement h hl hps hP haddress
    obtain ⟨p, hp⟩ := hlast P number last hown hleading
    rw [hown] at hseparator hcomment hle
    refine ⟨hseparator, hcomment, p, hp, fun w hw => ?_⟩
    rw [hp, Position.spaces_ofPlacement_some hw] at hle
    dsimp only at hpos hle
    omega
  · obtain ⟨number, last, hown⟩ := eq_ofPlacement h hl hps hP haddress
    obtain ⟨p, hp⟩ := hlast P number last hown hleading
    have hlexed : q.token.Lexed := by
      obtain ⟨s, hs, row, hrow, ht⟩ := mem_rows_of_mem_placements h.colon hl
        (show q ∈ l.placements by simp [hps])
      exact (h s hs).2 row hrow _ ht
    rw [hown, hp] at hne hcloses
    obtain ⟨hseparator, hcomment⟩ := hlexed.class_of_closesEmptyPair (p := p.token)
      (by simpa [Position.ofPlacement] using hcloses)
    refine ⟨hseparator, hcomment, p, hp, fun w hw => ?_⟩
    rw [Position.spaces_ofPlacement_some hw] at hne
    dsimp only at hzero
    omega

/-- The blanks of the final print, where the ones of the other print and the entry are known. -/
theorem gap_of_spaced
    (h : FromSource statements) {l : Line} {i w₀ w₁ : Nat} {p q p' q' : Placement}
    (hl : l ∈ Alignment.looseLines o statements) (hp : l.placements[i]? = some p)
    (hq : l.placements[i + 1]? = some q) (hgap : q.column = p.endColumn + w₀)
    (hgap' : q'.column = p'.endColumn + w₁)
    (hspaced : Spaced o (tokenBefore statements) (fun _ => none)
      (fun a => (Alignment.wantedTable o statements).lookup a) (p, p') (q, q')) :
    Spacing.minimum o q.token (tokenBefore statements q.address) ≤ w₁ ∧ w₁ ≤ w₀ ∧
      (1 ≤ w₀ → 1 ≤ w₁) := by
  obtain ⟨n, n', hn, hn', hchoice⟩ := hspaced
  obtain rfl : w₀ = n := Nat.add_left_cancel (hgap.symm.trans hn)
  obtain rfl : w₁ = n' := Nat.add_left_cancel (hgap'.symm.trans hn')
  rcases hchoice with ⟨hahead, hloose, hfinal⟩ | ⟨rfl, hjoins⟩
  · -- The token stands behind the one in front of it in its row.
    have hentry (m : Nat) (hm : (Alignment.wantedTable o statements).lookup q.address = some m) :
        m ≤ w₀ ∧ (m = 0 → w₀ ≠ 0) := by
      have hps : l.placements =
          (l.placements.take i ++ [p]) ++ q :: l.placements.drop (i + 2) := by
        rw [List.append_assoc]
        exact eq_take_append hp hq
      obtain ⟨-, -, r, hr, hbounds⟩ := wantedTable_spec h hl hps (mem_of_lookup hm)
      rw [List.getLast?_concat, Option.some.injEq] at hr
      exact hbounds w₀ (hr ▸ hgap)
    rw [hloose] at hentry
    obtain ⟨hle, hpos⟩ := Spacing.printed_le hentry
    rw [hahead]
    dsimp only at hloose hfinal ⊢
    rw [hloose, hfinal]
    exact ⟨Spacing.minimum_le_printed o _ _ _, hle, hpos⟩
  · exact ⟨hjoins.minimum, Nat.le_refl _, id⟩

/-- The line of statements with an index, from its two prints. -/
theorem compressed_of_respaced
    (h : FromSource statements) {l l' : Line} {i : Nat} {s : Statement}
    (hl : l ∈ Alignment.looseLines o statements) (hl' : l' ∈ Layout.lines o statements)
    (hs : statements[i]? = some s)
    (hrespaced : Respaced o (tokenBefore statements) (fun _ => none)
      (fun a => (Alignment.wantedTable o statements).lookup a) i (s.body.chain? = none)
      l.placements l'.placements) :
    Compressed o statements l l' := by
  obtain ⟨hpaired, hbegins⟩ := hrespaced
  constructor
  · exact hpaired.listed_eq.symm
  · intro p p' d hp hp' hd hplain
    obtain ⟨_, -, htwin⟩ := hpaired.twin_head hp
    rw [htwin.statement, hs, Option.some.injEq] at hd
    have hcolumn := hbegins (hd ▸ hplain)
    rw [hp, hp', Option.map_some, Option.map_some, Option.some.injEq] at hcolumn
    exact hcolumn.symm
  · intro j p q p' q' hp hq hp' hq'
    obtain ⟨w₀, hgap⟩ := (h.laid (o := o) _ l hl).gap hp hq
    obtain ⟨w₁, hgap'⟩ := (h.laid (o := o) _ l' hl').gap hp' hq'
    exact ⟨w₀, w₁, hgap, hgap',
      gap_of_spaced h hl hp hq hgap.column hgap'.column (hpaired.spaced hp hq hp' hq')⟩

/-- The lines of statements are printed twice, without wanted blanks and with those of the table. -/
theorem respaced_lines (h : FromSource statements) :
    (Alignment.looseLines o statements).length = (Layout.lines o statements).length ∧
      ∀ l l', (l, l') ∈ (Alignment.looseLines o statements).zip (Layout.lines o statements) →
        ∃ i s, statements[i]? = some s ∧
          Respaced o (tokenBefore statements) (fun _ => none)
            (fun a => (Alignment.wantedTable o statements).lookup a) i (s.body.chain? = none)
            l.placements l'.placements := by
  have hregular : ∀ s ∈ statements, ∀ row ∈ s.rows, ∀ t ∈ row, IsRegular o t :=
    fun s hs row hrow t ht => ((h s hs).2 row hrow t ht).isRegular o
  have hrender := respaced_render (fun _ => none)
    (fun a => (Alignment.wantedTable o statements).lookup a) (fun s hs => (h s hs).1)
    (fun i s hs => regular_rows hregular hs) hregular
  rw [List.forall₂_map_left_iff, List.forall₂_map_right_iff, List.forall₂_iff_zip] at hrender
  refine ⟨hrender.1, fun l l' hzip => ?_⟩
  obtain ⟨i, s, hs, hrespaced⟩ := hrender.2 hzip
  rw [Nat.zero_add] at hrespaced
  exact ⟨i, s, hs, hrespaced⟩

/-- The lines of statements are compressed, and no token that is the first of its line, a separator
or a comment has an entry in the table. -/
theorem compressed_lines (h : FromSource statements) :
    List.Forall₂ (Compressed o statements) (Alignment.looseLines o statements)
        (Layout.lines o statements) ∧
      ∀ l ∈ Alignment.looseLines o statements, ∀ p ∈ l.placements,
        (l.placements.head? = some p ∨
          TokenClass.ofToken p.token ∈ [.comma, .period, .colon, .comment]) →
        (Alignment.wantedTable o statements).lookup p.address = none := by
  constructor
  · obtain ⟨hlength, hrespaced⟩ := @respaced_lines o statements h
    refine List.forall₂_iff_zip.mpr ⟨hlength, fun {l l'} hzip => ?_⟩
    obtain ⟨hl, hl'⟩ := List.of_mem_zip hzip
    obtain ⟨i, s, hs, hrespaced⟩ := hrespaced l l' hzip
    exact compressed_of_respaced h hl hl' hs hrespaced
  · intro l hl p hp hfixed
    by_contra hentry
    obtain ⟨n, hn⟩ := Option.ne_none_iff_exists'.mp hentry
    rcases hfixed with hhead | hclass
    · obtain ⟨after, hps⟩ := List.head?_eq_some_iff.mp hhead
      obtain ⟨-, -, r, hr, -⟩ := @wantedTable_spec o _ h l [] after p n hl hps (mem_of_lookup hn)
      simp at hr
    · obtain ⟨before, after, hps⟩ := List.append_of_mem hp
      obtain ⟨hseparator, hcomment, -⟩ := wantedTable_spec h hl hps (mem_of_lookup hn)
      simp only [List.mem_cons, List.not_mem_nil, or_false] at hclass
      rcases hclass with hclass | hclass | hclass | hclass
      · simp [hclass, TokenClass.isSeparator] at hseparator
      · simp [hclass, TokenClass.isSeparator] at hseparator
      · simp [hclass, TokenClass.isSeparator] at hseparator
      · exact hcomment hclass

end

/-- A source that is formatted and not passed through is printed as its spacing rules say, less some
of the blanks. -/
theorem format_compressed
    {o : Options} {source : Text} {filename : Option String} {f : Formatted}
    (h : Layout.format o source filename = .ok f) (hrejection : f.rejection = none) :
    ∃ raws statements, Source.split source filename = .ok raws ∧
      Layout.arrange raws = .ok statements ∧ f.text = Layout.print o statements ∧
      List.Forall₂ (Compressed o statements) (Alignment.looseLines o statements)
        (Layout.lines o statements) ∧
      ∀ l ∈ Alignment.looseLines o statements, ∀ p ∈ l.placements,
        (l.placements.head? = some p ∨
          TokenClass.ofToken p.token ∈ [.comma, .period, .colon, .comment]) →
        (Alignment.wantedTable o statements).lookup p.address = none := by
  obtain ⟨raws, statements, hsplit, harrange, rfl⟩ := Layout.format_eq_ok h hrejection
  exact ⟨raws, statements, hsplit, harrange, rfl,
    compressed_lines (Layout.fromSource_of_split hsplit harrange)⟩

/-- The case of three assignments whose operators stay below one another, and of a chain. -/
theorem format_compressed_assignments :
    ∃ raws statements,
      Source.split "aa    =  1.\nb     =  2.\nccc   =  3.\ndata:  x  type   i.".toList none =
        .ok raws ∧
      Layout.arrange raws = .ok statements ∧
      "aa  = 1.\nb   = 2.\nccc = 3.\nDATA: x TYPE i.\n".toList =
        Layout.print .default statements ∧
      List.Forall₂ (Compressed .default statements) (Alignment.looseLines .default statements)
        (Layout.lines .default statements) ∧
      ∀ l ∈ Alignment.looseLines .default statements, ∀ p ∈ l.placements,
        (l.placements.head? = some p ∨
          TokenClass.ofToken p.token ∈ [.comma, .period, .colon, .comment]) →
        (Alignment.wantedTable .default statements).lookup p.address = none :=
  format_compressed
    (f := { text := "aa  = 1.\nb   = 2.\nccc = 3.\nDATA: x TYPE i.\n".toList })
    (eq_ok_of_toOption (by decide +kernel)) rfl

end AbapLayout
