import AbapLayout.Layout.Rendering
import AbapLayout.Proofs.DocumentLines

/-!
# Tokens spread over a line

`Spread` relates the tokens on a line to its text: every token is printed in its column, and between
tokens stand blanks only.  A line is *open* if nothing but blanks follows its tokens, *signed* if a
sign comment does, and *starred* if it is a full-line comment without tokens.

Putting a token behind an open line, indenting a line and gluing lines together keep this, so a
printed line shows each of its tokens where it says, from left to right (`Spread.slice`,
`Spread.ascending`).
-/

namespace AbapLayout

/-! ## Texts without blanks at their ends -/

namespace Text

@[simp] theorem isBlank_blank : isBlank ' ' = true := by
  decide

theorem isBlank_of_mem_blanks
    {n : Nat} {c : Char} (h : c ∈ blanks n) :
    isBlank c = true := by
  rw [blanks, List.mem_replicate] at h
  rw [h.2, isBlank_blank]

@[simp] theorem blanks_zero : blanks 0 = [] := rfl

theorem blanks_append_blanks (m n : Nat) : blanks m ++ blanks n = blanks (m + n) := by
  simp [blanks, List.replicate_append_replicate]

theorem trimLeft_blanks_append (n : Nat) (t : Text) : trimLeft (blanks n ++ t) = trimLeft t := by
  rw [trimLeft, List.dropWhile_append_of_pos fun c hc => isBlank_of_mem_blanks hc, trimLeft]

theorem trimLeft_cons
    {c : Char} (h : isBlank c = false) (cs : Text) :
    trimLeft (c :: cs) = c :: cs := by
  rw [trimLeft, List.dropWhile_cons_of_neg (by simp [h])]

theorem trimRight_append_singleton
    (t : Text) {c : Char} (h : isBlank c = false) :
    trimRight (t ++ [c]) = t ++ [c] := by
  induction t with
  | nil => simp [trimRight, h]
  | cons d ds ih =>
      rw [List.cons_append, trimRight, ih]
      cases ds <;> rfl

/-- A trimmed text ends in a character that is not blank. -/
theorem trimRight_ends (t : Text) :
    trimRight t = [] ∨ ∃ init c, trimRight t = init ++ [c] ∧ isBlank c = false := by
  induction t with
  | nil => exact .inl rfl
  | cons c cs ih =>
      rw [trimRight]
      split
      · by_cases hc : isBlank c = true
        · exact .inl (by simp [hc])
        · exact .inr ⟨[], c, by simp [hc], by simpa using hc⟩
      next d ds hds =>
        rcases ih with ih | ⟨init, e, ih, he⟩
        · simp [hds] at ih
        · exact .inr ⟨c :: init, e, by simp [← hds, ih], he⟩

/-- A text on one line that neither begins nor ends in a blank character. -/
structure Solid (t : Text) : Prop where
  begins : ∃ c cs, t = c :: cs ∧ isBlank c = false
  ends : ∃ cs c, t = cs ++ [c] ∧ isBlank c = false
  oneLine : OneLine t

theorem Solid.trimLeft_append {t : Text} (h : Solid t) (s : Text) : trimLeft (t ++ s) = t ++ s := by
  obtain ⟨c, cs, rfl, hc⟩ := h.begins
  exact trimLeft_cons hc (cs ++ s)

theorem Solid.length_takeWhile
    {t : Text} (h : Solid t) (n : Nat) (s : Text) :
    ((blanks n ++ (t ++ s)).takeWhile isBlank).length = n := by
  obtain ⟨c, cs, rfl, hc⟩ := h.begins
  rw [List.takeWhile_append_of_pos fun c hc => isBlank_of_mem_blanks hc, List.cons_append,
    List.takeWhile_cons_of_neg (by simp [hc])]
  simp

end Text

open Text

/-! ## Spread tokens -/

/-- The tokens of a stretch of a line that starts in the given column and ends with the last of
them. -/
inductive Spread : Nat → List Placement → Text → Prop where
  | nil (column : Nat) : Spread column [] []
  | cons {column n : Nat} {p : Placement} {ps : List Placement} {body : Text} :
      p.column = column + n → p.printed.Solid → Spread p.endColumn ps body →
      Spread column (p :: ps) (blanks n ++ (p.printed ++ body))

namespace Spread

theorem eq_nil
    {column : Nat} {body : Text} (h : Spread column [] body) :
    body = [] := by
  cases h
  rfl

theorem append
    {column : Nat} {ps qs : List Placement} {body more : Text}
    (h : Spread column ps body) (h' : Spread (column + body.length) qs more) :
    Spread column (ps ++ qs) (body ++ more) := by
  induction h with
  | nil column => simpa using h'
  | @cons column n p ps body hcolumn hsolid _ ih =>
      have hmore := ih (by
        simp only [List.length_append, length_blanks] at h'
        rw [Placement.endColumn, hcolumn]
        rwa [show column + n + p.printed.length + body.length =
          column + (n + (p.printed.length + body.length)) by omega])
      have hall := Spread.cons hcolumn hsolid hmore
      simpa using hall

/-- The tokens end in a character that is not blank. -/
theorem ends
    {column : Nat} {ps : List Placement} {body : Text} (h : Spread column ps body) :
    ps = [] ∧ body = [] ∨ ∃ cs c, body = cs ++ [c] ∧ isBlank c = false := by
  induction h with
  | nil column => exact .inl ⟨rfl, rfl⟩
  | @cons column n p ps body _ hsolid _ ih =>
      rcases ih with ⟨-, rfl⟩ | ⟨cs, c, rfl, hc⟩
      · obtain ⟨cs, c, hcs, hc⟩ := hsolid.ends
        exact .inr ⟨blanks n ++ cs, c, by simp [hcs], hc⟩
      · exact .inr ⟨blanks n ++ (p.printed ++ cs), c, by simp, hc⟩

theorem solid
    {column : Nat} {ps : List Placement} {body : Text} (h : Spread column ps body) :
    ∀ p ∈ ps, p.printed.Solid := by
  induction h with
  | nil column => simp
  | cons _ hsolid _ ih => exact List.forall_mem_cons.mpr ⟨hsolid, ih⟩

/-- The last token ends where the stretch does. -/
theorem endColumn_getLast
    {column : Nat} {ps : List Placement} {body : Text} {p : Placement}
    (h : Spread column ps body) (hlast : ps.getLast? = some p) :
    p.endColumn = column + body.length := by
  induction h with
  | nil column => simp at hlast
  | @cons column n q qs body hcolumn _ hrest ih =>
      simp only [List.length_append, length_blanks]
      cases qs with
      | nil =>
          rw [List.getLast?_singleton, Option.some.injEq] at hlast
          rw [hrest.eq_nil, ← hlast, Placement.endColumn, hcolumn, List.length_nil]
          omega
      | cons r rs =>
          rw [ih (by rwa [List.getLast?_cons_cons] at hlast), Placement.endColumn, hcolumn]
          omega

theorem trimRight_append_blanks
    {column : Nat} {ps : List Placement} {body : Text} (h : Spread column ps body) (n : Nat) :
    trimRight (body ++ blanks n) = body := by
  rw [trimRight_append_blank body (blanks n) fun c hc => isBlank_of_mem_blanks hc]
  rcases h.ends with ⟨-, rfl⟩ | ⟨cs, c, rfl, hc⟩
  · rfl
  · exact trimRight_append_singleton cs hc

/-- The tokens in other columns. -/
theorem move
    {column : Nat} {ps : List Placement} {body : Text} (d e : Nat)
    (h : Spread column ps body) (he : e ≤ column) :
    Spread (column + d - e) (ps.map fun p => { p with column := p.column + d - e }) body := by
  induction h with
  | nil column => exact .nil _
  | @cons column n p ps body hcolumn hsolid _ ih =>
      have hmore := ih (by rw [Placement.endColumn]; omega)
      refine .cons ?_ hsolid ?_
      · dsimp only
        omega
      · have hend : ({ p with column := p.column + d - e } : Placement).endColumn =
            p.endColumn + d - e := by
          simp only [Placement.endColumn]
          omega
        rw [hend]
        exact hmore

theorem blanks_append
    {column : Nat} {p : Placement} {ps : List Placement} {body : Text} (n : Nat)
    (h : Spread (column + n) (p :: ps) body) :
    Spread column (p :: ps) (blanks n ++ body) := by
  cases h with
  | @cons _ k _ _ body hcolumn hsolid hrest =>
      rw [← List.append_assoc, blanks_append_blanks]
      exact .cons (by omega) hsolid hrest

/-- A token is what stands in its columns. -/
theorem slice
    {column : Nat} {ps : List Placement} {body : Text}
    (h : Spread column ps body) (tail : Text) :
    ∀ p ∈ ps, column ≤ p.column ∧
      ((body ++ tail).drop (p.column - column)).take p.printed.length = p.printed := by
  induction h with
  | nil column => simp
  | @cons column n p ps body hcolumn hsolid _ ih =>
      intro q hq
      rw [List.mem_cons] at hq
      rcases hq with rfl | hq
      · refine ⟨by omega, ?_⟩
        have hn : q.column - column = (blanks n).length := by simp; omega
        rw [hn, List.append_assoc, List.drop_left, List.append_assoc, List.take_left]
      · obtain ⟨hle, hslice⟩ := ih q hq
        rw [Placement.endColumn] at hle hslice
        refine ⟨by omega, ?_⟩
        have hn : q.column - column =
            (blanks n ++ p.printed).length + (q.column - (p.column + p.printed.length)) := by
          simp
          omega
        rw [hn, ← List.drop_drop, ← List.append_assoc, List.append_assoc _ body, List.drop_left]
        exact hslice

theorem oneLine
    {column : Nat} {ps : List Placement} {body : Text} (h : Spread column ps body) :
    OneLine body := by
  induction h with
  | nil => exact OneLine.nil
  | @cons _ n _ _ _ _ hsolid _ ih =>
      simp only [oneLine_append]
      exact ⟨oneLine_blanks n, hsolid.oneLine, ih⟩

/-- Tokens stand from left to right and do not overlap. -/
theorem ascending
    {column : Nat} {ps : List Placement} {body : Text} (h : Spread column ps body) :
    ps.Pairwise fun p q => p.endColumn ≤ q.column := by
  induction h with
  | nil column => exact .nil
  | cons _ _ hrest ih =>
      exact List.pairwise_cons.mpr ⟨fun q hq => (hrest.slice [] q hq).1, ih⟩

end Spread

/-! ## Lines -/

namespace Line

/-- The tokens of a line stand where it says, and behind them stands the given text. -/
def Shows (l : Line) (tail : Text) : Prop :=
  ∃ body, l.text = body ++ tail ∧ Spread 0 l.placements body

/-- Behind the tokens stand blanks only. -/
def Open (l : Line) : Prop :=
  ∃ n, l.Shows (blanks n)

/-- Behind the tokens stands a sign comment. -/
def Signed (l : Line) : Prop :=
  ∃ n comment, OneLine comment ∧ l.Shows (blanks n ++ Comment.sign :: comment)

/-- The line is a full-line comment. -/
def Starred (l : Line) : Prop :=
  l.placements = [] ∧ ∃ comment, OneLine comment ∧ l.text = '*' :: comment

/-- A line to which others may be glued, unless it ends in a comment. -/
def Ready (l : Line) : Prop :=
  l.Open ∨ l.endsInComment = true ∧ (l.Signed ∨ l.Starred)

/-- A line as it is printed. -/
def Laid (l : Line) : Prop :=
  l.Open ∨ l.Signed ∨ l.Starred

theorem Ready.laid {l : Line} (h : l.Ready) : l.Laid := by
  rcases h with h | ⟨-, h⟩
  · exact .inl h
  · exact .inr h

theorem Laid.shows {l : Line} (h : l.Laid) : ∃ tail, l.Shows tail := by
  rcases h with ⟨n, h⟩ | ⟨n, comment, -, h⟩ | ⟨hnone, -⟩
  · exact ⟨_, h⟩
  · exact ⟨_, h⟩
  · exact ⟨l.text, [], rfl, hnone ▸ .nil 0⟩

/-- A printed line has no line breaks inside. -/
theorem Laid.oneLine {l : Line} (h : l.Laid) : OneLine l.text := by
  rcases h with ⟨n, body, hbody, hspread⟩ | ⟨n, comment, hcomment, body, hbody, hspread⟩ |
    ⟨-, comment, hcomment, hbody⟩ <;> rw [hbody]
  · exact oneLine_append.mpr ⟨hspread.oneLine, oneLine_blanks n⟩
  · simp only [oneLine_append, oneLine_cons]
    exact ⟨hspread.oneLine, oneLine_blanks n, by decide, hcomment⟩
  · exact oneLine_cons.mpr ⟨by decide, hcomment⟩

theorem Open.empty : ({} : Line).Open :=
  ⟨0, [], rfl, .nil 0⟩

/-- A token put behind an open line is what the line ends with. -/
theorem Shows.put
    {l : Line} {n : Nat} (h : l.Shows (blanks n)) (a : Address) (t : Token) {printed : Text}
    (spaces : Nat) (hsolid : printed.Solid) :
    (l.put a t printed spaces).Shows [] := by
  obtain ⟨body, htext, hspread⟩ := h
  cases hps : l.placements with
  | nil =>
      rw [hps] at hspread
      have hbody := hspread.eq_nil
      refine ⟨blanks (n + spaces) ++ (printed ++ []), ?_, ?_⟩
      · simp [Line.put, hps, htext, hbody, ← blanks_append_blanks]
      · simp only [Line.put, hps, htext, hbody, List.nil_append]
        exact .cons (by simp) hsolid (.nil _)
  | cons p ps =>
      have htrim := hspread.trimRight_append_blanks n
      have hlast : Spread (0 + body.length)
          [{ address := a, token := t, column := (body ++ blanks spaces).length, printed }]
          (blanks spaces ++ (printed ++ [])) :=
        .cons (by simp) hsolid (.nil _)
      have hall := hspread.append hlast
      refine ⟨body ++ (blanks spaces ++ (printed ++ [])), ?_, ?_⟩
      · simp [Line.put, hps, htext, htrim]
      · simpa [Line.put, hps, htext, htrim] using hall

theorem Open.put
    {l : Line} (h : l.Open) (a : Address) (t : Token) {printed : Text} (spaces : Nat)
    (hsolid : printed.Solid) :
    (l.put a t printed spaces).Open := by
  obtain ⟨n, h⟩ := h
  exact ⟨0, h.put a t spaces hsolid⟩

theorem Shows.indent_of_ne_nil
    {l : Line} {tail : Text} (h : l.Shows tail) (hne : l.placements ≠ []) (n : Nat) :
    (l.indent n).Shows tail := by
  obtain ⟨body, htext, hspread⟩ := h
  cases hps : l.placements with
  | nil => exact absurd hps hne
  | cons p ps =>
      have hmoved := hspread.move n 0 (by omega)
      rw [hps, List.map_cons] at hmoved
      refine ⟨blanks n ++ body, ?_, ?_⟩
      · simp [Line.indent, htext]
      · simpa [Line.indent, hps] using hmoved.blanks_append n

theorem Shows.indent
    {l : Line} {tail : Text} (h : l.Shows tail) (n : Nat) :
    ∃ m, (l.indent n).Shows (blanks m ++ tail) := by
  by_cases hne : l.placements = []
  · obtain ⟨body, htext, hspread⟩ := h
    rw [hne] at hspread
    refine ⟨n, [], ?_, ?_⟩
    · simp [Line.indent, htext, hspread.eq_nil]
    · simpa [Line.indent, hne] using Spread.nil 0
  · exact ⟨0, h.indent_of_ne_nil hne n⟩

theorem Open.indent {l : Line} (h : l.Open) (n : Nat) : (l.indent n).Open := by
  obtain ⟨k, h⟩ := h
  obtain ⟨m, h⟩ := h.indent n
  exact ⟨m + k, blanks_append_blanks m k ▸ h⟩

theorem Signed.indent {l : Line} (h : l.Signed) (n : Nat) : (l.indent n).Signed := by
  obtain ⟨k, comment, hcomment, h⟩ := h
  obtain ⟨m, h⟩ := h.indent n
  refine ⟨m + k, comment, hcomment, ?_⟩
  rwa [← blanks_append_blanks, List.append_assoc]

/-- The margin of a line reaches to its first token. -/
theorem Shows.margin
    {l : Line} {tail : Text} {q : Placement} {qs : List Placement} (h : l.Shows tail)
    (hps : l.placements = q :: qs) :
    l.margin = q.column ∧ ∃ rest, trimLeft l.text = q.printed ++ rest ++ tail ∧
      Spread q.column (q :: qs) (q.printed ++ rest) := by
  obtain ⟨body, htext, hspread⟩ := h
  rw [hps] at hspread
  cases hspread with
  | @cons _ d _ _ rest hcolumn hsolid hrest =>
      have hd : q.column = d := by omega
      refine ⟨?_, rest, ?_, ?_⟩
      · rw [Line.margin, htext, List.append_assoc, List.append_assoc, hd]
        exact hsolid.length_takeWhile d (rest ++ tail)
      · rw [htext, List.append_assoc, trimLeft_blanks_append, List.append_assoc]
        exact hsolid.trimLeft_append _
      · exact @Spread.cons q.column 0 q qs rest rfl hsolid hrest

/-- An open line shows its tokens and those of the line it absorbs. -/
theorem Shows.absorb_of_ne_nil
    {l other : Line} {tail : Text} (h : l.Open) (h' : other.Shows tail)
    (hne : other.placements ≠ []) (k : Nat) :
    (l.absorb other (blanks k)).Shows tail := by
  obtain ⟨n, body, htext, hspread⟩ := h
  cases hps : other.placements with
  | nil => exact absurd hps hne
  | cons q qs =>
      obtain ⟨hmargin, rest, htrim, hfrom⟩ := h'.margin hps
      -- The tokens of the other line without its margin, behind this line and the joint.
      have hmoved := hfrom.move (l.text.length + k) q.column (Nat.le_refl _)
      have hlength : l.text.length = body.length + n := by simp [htext]
      rw [show q.column + (l.text.length + k) - q.column = 0 + body.length + (n + k) by omega,
        List.map_cons] at hmoved
      have hall := hspread.append (hmoved.blanks_append (n + k))
      refine ⟨body ++ (blanks (n + k) ++ (q.printed ++ rest)), ?_, ?_⟩
      · simp [Line.absorb, htext, htrim, ← blanks_append_blanks]
      · simpa [Line.absorb, hps, hmargin] using hall

theorem Shows.absorb
    {l other : Line} {tail : Text} (h : l.Open) (h' : other.Shows tail) (k : Nat) :
    ∃ m, (l.absorb other (blanks k)).Shows
      (blanks m ++ if other.placements = [] then trimLeft tail else tail) := by
  by_cases hps : other.placements = []
  · obtain ⟨n, body, htext, hspread⟩ := h
    obtain ⟨more, hmore, hspread'⟩ := h'
    rw [hps] at hspread'
    refine ⟨n + k, body, ?_, ?_⟩
    · simp [Line.absorb, htext, hmore, hspread'.eq_nil, hps, ← blanks_append_blanks]
    · simpa [Line.absorb, hps] using hspread
  · rw [if_neg hps]
    exact ⟨0, Shows.absorb_of_ne_nil h h' hps k⟩

theorem Open.absorb {l other : Line} (h : l.Open) (h' : other.Open) (k : Nat) :
    (l.absorb other (blanks k)).Open := by
  obtain ⟨n, h'⟩ := h'
  obtain ⟨m, hshows⟩ := Shows.absorb h h' k
  split at hshows
  · have htrim : trimLeft (blanks n) = [] := by
      rw [← List.append_nil (blanks n), trimLeft_blanks_append]
      rfl
    rw [htrim, List.append_nil] at hshows
    exact ⟨m, hshows⟩
  · rw [blanks_append_blanks] at hshows
    exact ⟨m + n, hshows⟩

theorem Signed.absorb {l other : Line} (h : l.Open) (h' : other.Signed) (k : Nat) :
    (l.absorb other (blanks k)).Signed := by
  obtain ⟨n, comment, hcomment, h'⟩ := h'
  obtain ⟨m, hshows⟩ := Shows.absorb h h' k
  split at hshows
  · rw [trimLeft_blanks_append, trimLeft_cons (by decide)] at hshows
    exact ⟨m, comment, hcomment, hshows⟩
  · rw [← List.append_assoc, blanks_append_blanks] at hshows
    exact ⟨m + n, comment, hcomment, hshows⟩

/-- Gluing lines together keeps them ready. -/
theorem ready_glueFrom
    {above : Line} {lines : List Line} (k : Nat) (keepLast : Bool)
    (h : above.Ready) (hlines : ∀ l ∈ lines, l.Ready) :
    ∀ l ∈ glueFrom (blanks k) keepLast above lines, l.Ready := by
  induction lines generalizing above with
  | nil => simpa [glueFrom] using h
  | cons next rest ih =>
      have hrest : ∀ l ∈ rest, l.Ready := fun l hl => hlines l (by simp [hl])
      rw [glueFrom]
      split
      next hglue =>
        simp only [Bool.and_eq_true, Bool.not_eq_true'] at hglue
        have hopen : above.Open := by
          rcases h with h | ⟨hends, -⟩
          · exact h
          · simp [hends] at hglue
        refine ih ?_ hrest
        rcases hlines next (by simp) with hnext | ⟨hends, hnext | ⟨-, comment, -, htext⟩⟩
        · exact .inl (hopen.absorb hnext k)
        · exact .inr ⟨hends, .inl (Signed.absorb hopen hnext k)⟩
        · have hstar := hglue.1.1
          rw [beginsWithTerminator, htext, trimLeft_cons (by decide)] at hstar
          simp at hstar
      next =>
        intro l hl
        rw [List.mem_cons] at hl
        rcases hl with rfl | hl
        · exact h
        · exact ih (hlines next (by simp)) hrest l hl

theorem ready_glue
    {lines : List Line} (k : Nat) (keepLast : Bool) (hlines : ∀ l ∈ lines, l.Ready) :
    ∀ l ∈ glue (blanks k) keepLast lines, l.Ready := by
  cases lines with
  | nil => simp [glue]
  | cons l rest =>
      exact ready_glueFrom k keepLast (hlines l (by simp)) fun l hl => hlines l (by simp [hl])

theorem Open.trimRight {l : Line} (h : l.Open) :
    ({ l with text := Text.trimRight l.text } : Line).Open := by
  obtain ⟨n, body, htext, hspread⟩ := h
  refine ⟨0, body, ?_, hspread⟩
  simp [htext, hspread.trimRight_append_blanks]

end Line

/-! ## Comments behind lines -/

/-- A comment with the sign of comments behind code. -/
def Comment.IsSigned (c : Comment) : Prop :=
  ∃ text, OneLine text ∧ c.value = Comment.sign :: text

/-- A comment with either sign. -/
def Comment.IsMarked (c : Comment) : Prop :=
  c.IsSigned ∨ ∃ text, OneLine text ∧ c.value = '*' :: text

theorem CommentText.normalize_sign
    (o : Options) {text : Text} (h : OneLine text) :
    ∃ comment, OneLine comment ∧
      CommentText.normalize o (Comment.sign :: text) = Comment.sign :: comment := by
  have hblank : isBlank Comment.sign = false := by decide
  unfold CommentText.normalize
  split
  · rw [List.dropWhile_cons_of_neg (by simp [hblank])]
    split
    next first following rest heq =>
      split
      · injection heq with hfirst hrest
        rw [List.takeWhile_cons_of_neg (by simp [hblank])]
        refine ⟨' ' :: following :: rest, ?_, by simp [← hfirst]⟩
        exact oneLine_cons.mpr ⟨by decide, hrest ▸ h⟩
      · exact ⟨text, h, rfl⟩
    next => exact ⟨text, h, rfl⟩
  · exact ⟨text, h, rfl⟩

/-- A comment is put behind a line with at most one blank in front of it. -/
theorem CommentText.attach_eq
    (o : Options) (line : Text) {text : Text} (h : OneLine text) :
    ∃ n comment, OneLine comment ∧ CommentText.attach o line (Comment.sign :: text) =
      line ++ (blanks n ++ Comment.sign :: comment) := by
  obtain ⟨comment, hcomment, heq⟩ := CommentText.normalize_sign o h
  unfold CommentText.attach
  rw [heq]
  dsimp only
  split
  · exact ⟨0, comment, hcomment, by simp⟩
  · exact ⟨1, comment, hcomment, by simp [blanks]⟩

namespace Line

open Rendering

theorem Open.attachComment
    {l : Line} {c : Comment} (o : Options) (h : l.Open) (hc : c.IsSigned) :
    (attachComment o c l).Signed := by
  obtain ⟨text, htext, hvalue⟩ := hc
  obtain ⟨m, comment, hcomment, hattach⟩ := CommentText.attach_eq o l.text htext
  obtain ⟨n, body, hbody, hspread⟩ := h
  refine ⟨n + m, comment, hcomment, body, ?_, hspread⟩
  rw [Rendering.attachComment, hvalue]
  dsimp only
  rw [hattach, hbody, ← blanks_append_blanks]
  simp

/-- A line with a sign comment put behind it is signed, or a full-line comment as before. -/
theorem Laid.attachComment
    {l : Line} {c : Comment} (o : Options) (h : l.Laid) (hc : c.IsSigned) :
    (attachComment o c l).Laid := by
  have hlonger : ∀ first m comment, OneLine first → OneLine comment →
      OneLine (first ++ (blanks m ++ Comment.sign :: comment)) := by
    intro first m comment hfirst hcomment
    simp only [oneLine_append, oneLine_cons]
    exact ⟨hfirst, oneLine_blanks m, by decide, hcomment⟩
  rcases h with h | ⟨n, first, hfirst, body, hbody, hspread⟩ | ⟨hnone, first, hfirst, hbody⟩
  · exact .inr (.inl (h.attachComment o hc))
  · obtain ⟨text, htext, hvalue⟩ := hc
    obtain ⟨m, comment, hcomment, hattach⟩ := CommentText.attach_eq o l.text htext
    refine .inr (.inl ⟨n, first ++ (blanks m ++ Comment.sign :: comment),
      hlonger first m comment hfirst hcomment, body, ?_, hspread⟩)
    rw [Rendering.attachComment, hvalue]
    dsimp only
    rw [hattach, hbody]
    simp
  · obtain ⟨text, htext, hvalue⟩ := hc
    obtain ⟨m, comment, hcomment, hattach⟩ := CommentText.attach_eq o l.text htext
    refine .inr (.inr ⟨hnone, first ++ (blanks m ++ Comment.sign :: comment),
      hlonger first m comment hfirst hcomment, ?_⟩)
    rw [Rendering.attachComment, hvalue]
    dsimp only
    rw [hattach, hbody]
    simp

end Line
end AbapLayout
