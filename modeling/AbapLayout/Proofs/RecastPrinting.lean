import AbapLayout.Proofs.RecastStatements

/-!
# Printing recast statements

Two runs print statements and a recast of them, one under some options and the other with keywords
in another case.  If their tokens are printed with the same letters, up to a map of the characters,
and the lines of every plain statement move to the right by one number, then the lines of the two
runs are alike: they show the same tokens in the same columns (`Rendering.alike_render`).
-/

namespace AbapLayout

open Text (IsCaseMap)

def Options.withCase (o : Options) (k : KeywordCase) : Options :=
  { o with keywordCase := k }

/-! ## Texts with the same letters -/

namespace Text

variable {κ : Char → Char}

theorem isBlank_map (hκ : IsCaseMap κ) (c : Char) : isBlank (κ c) = isBlank c :=
  hκ.class_eq (class_of_isAlpha (b := false) (by decide)) c

theorem trimLeft_map (hκ : IsCaseMap κ) (t : Text) : trimLeft (t.map κ) = (trimLeft t).map κ := by
  have hblank : isBlank ∘ κ = isBlank := funext (isBlank_map hκ)
  rw [trimLeft, List.dropWhile_map, hblank, trimLeft]

theorem trimRight_map (hκ : IsCaseMap κ) (t : Text) :
    trimRight (t.map κ) = (trimRight t).map κ := by
  induction t with
  | nil => rfl
  | cons c cs ih =>
      rw [List.map_cons, trimRight, trimRight, ih, isBlank_map hκ]
      cases trimRight cs with
      | nil => by_cases hc : isBlank c = true <;> simp [hc]
      | cons d ds => rfl

theorem isBlankText_map (hκ : IsCaseMap κ) (t : Text) :
    isBlankText (t.map κ) = isBlankText t := by
  have hblank : isBlank ∘ κ = isBlank := funext (isBlank_map hκ)
  rw [isBlankText, List.all_map, hblank, isBlankText]

theorem getLast?_map_beq (hκ : IsCaseMap κ) {d : Char} (hd : d.isAlpha = false) (t : Text) :
    ((t.map κ).getLast? == some d) = (t.getLast? == some d) := by
  rw [List.getLast?_map]
  cases t.getLast? with
  | none => rfl
  | some c =>
      rw [Bool.eq_iff_iff]
      simp [hκ.apply_eq_iff hd c]

theorem beginsWithTerminator_map (hκ : IsCaseMap κ) (t : Text) :
    (match trimLeft (t.map κ) with
      | [] => false
      | c :: _ => c == '.' || c == ',') =
    (match trimLeft t with
      | [] => false
      | c :: _ => c == '.' || c == ',') := by
  rw [trimLeft_map hκ]
  cases trimLeft t with
  | nil => rfl
  | cons c cs =>
      simp only [List.map_cons, Word.beq_map hκ (d := '.') (by decide),
        Word.beq_map hκ (d := ',') (by decide)]

/-- What does not tell the characters apart that the map makes one is the same of two texts. -/
theorem congr_of_map
    {α : Type} {g : Text → α} (hg : ∀ t, g (t.map κ) = g t) {t t' : Text}
    (h : t'.map κ = t.map κ) :
    g t' = g t := by
  rw [← hg t', h, hg]

theorem length_of_map {t t' : Text} (h : t'.map κ = t.map κ) : t'.length = t.length :=
  congr_of_map (g := List.length) (fun _ => List.length_map _) h

theorem map_trimLeft_congr (hκ : IsCaseMap κ) {t t' : Text} (h : t'.map κ = t.map κ) :
    (trimLeft t').map κ = (trimLeft t).map κ := by
  rw [← trimLeft_map hκ, h, trimLeft_map hκ]

theorem map_trimRight_congr (hκ : IsCaseMap κ) {t t' : Text} (h : t'.map κ = t.map κ) :
    (trimRight t').map κ = (trimRight t).map κ := by
  rw [← trimRight_map hκ, h, trimRight_map hκ]

end Text

theorem CommentText.map_attach_congr
    {κ : Char → Char} (hκ : IsCaseMap κ) (o : Options) (value : Text) {t t' : Text}
    (h : t'.map κ = t.map κ) :
    (attach o t' value).map κ = (attach o t value).map κ := by
  have hempty : t'.isEmpty = t.isEmpty :=
    Text.congr_of_map (g := List.isEmpty) (fun _ => List.isEmpty_map) h
  have hlast : (t'.getLast? == some ' ') = (t.getLast? == some ' ') :=
    Text.congr_of_map (g := fun t => t.getLast? == some ' ')
      (Text.getLast?_map_beq hκ (by decide)) h
  unfold attach
  simp only [hempty, hlast]
  split <;> simp [h]

/-! ## Lines -/

section Alike

variable (φ : Recast) (κ : Char → Char)

/-- Whether two runs place a token and its recast alike. -/
structure Placement.Alike (p p' : Placement) : Prop where
  address : p'.address = p.address
  token : p'.token = φ p.token
  column : p'.column = p.column
  printed : p'.printed.map κ = p.printed.map κ

structure Line.Alike (l l' : Line) : Prop where
  text : l'.text.map κ = l.text.map κ
  startLine : l'.startLine = l.startLine
  endLine : l'.endLine = l.endLine
  endsInComment : l'.endsInComment = l.endsInComment
  fixed : l'.fixed = l.fixed
  placements : List.Forall₂ (Placement.Alike φ κ) l.placements l'.placements

end Alike

namespace Line.Alike

variable {φ : Recast} {κ : Char → Char} {l l' : Line}

theorem ofText (t : Text) (endsInComment : Bool) :
    Line.Alike φ κ { text := t, endsInComment } { text := t, endsInComment } :=
  ⟨rfl, rfl, rfl, rfl, rfl, .nil⟩

theorem length_text (h : Line.Alike φ κ l l') : l'.text.length = l.text.length :=
  Text.length_of_map h.text

theorem isEmpty_placements (h : Line.Alike φ κ l l') :
    l'.placements.isEmpty = l.placements.isEmpty := by
  rw [Bool.eq_iff_iff, List.isEmpty_iff_length_eq_zero, List.isEmpty_iff_length_eq_zero,
    h.placements.length_eq]

/-- The same text in front of the placements of two lines moves them alike. -/
theorem moved (f : Nat → Nat) {ps ps' : List Placement}
    (h : List.Forall₂ (Placement.Alike φ κ) ps ps') :
    List.Forall₂ (Placement.Alike φ κ) (ps.map fun p => { p with column := f p.column })
      (ps'.map fun p => { p with column := f p.column }) :=
  List.forall₂_map_left_iff.mpr <| List.forall₂_map_right_iff.mpr <| h.imp fun _ _ hp =>
    { hp with column := congrArg f hp.column }

theorem put
    (hκ : IsCaseMap κ) (h : Line.Alike φ κ l l') (a : Address) (t : Token) {printed printed' : Text}
    (hprinted : printed'.map κ = printed.map κ) (spaces : Nat) :
    Line.Alike φ κ (l.put a t printed spaces) (l'.put a (φ t) printed' spaces) := by
  have hbase : ((if l'.placements.isEmpty then l'.text else Text.trimRight l'.text) ++
        Text.blanks spaces).map κ =
      ((if l.placements.isEmpty then l.text else Text.trimRight l.text) ++
        Text.blanks spaces).map κ := by
    rw [h.isEmpty_placements, List.map_append, List.map_append]
    split
    · rw [h.text]
    · rw [Text.map_trimRight_congr hκ h.text]
  have hcolumn := Text.length_of_map hbase
  refine ⟨?_, ?_, ?_, φ.isComment t, h.fixed, ?_⟩
  · have htext : ∀ {base base' : Text}, base'.map κ = base.map κ →
        (base' ++ printed').map κ = (base ++ printed).map κ := fun h => by
      rw [List.map_append, List.map_append, h, hprinted]
    exact htext hbase
  · simp only [Line.put, h.isEmpty_placements, φ.span, Span.startLine_moved, h.startLine]
  · simp only [Line.put, φ.span, Span.startLine_moved]
  · exact List.rel_append h.placements (.cons ⟨rfl, rfl, hcolumn, hprinted⟩ .nil)

theorem indent (h : Line.Alike φ κ l l') (n : Nat) :
    Line.Alike φ κ (l.indent n) (l'.indent n) where
  text := by simp [Line.indent, h.text]
  startLine := h.startLine
  endLine := h.endLine
  endsInComment := h.endsInComment
  fixed := h.fixed
  placements := moved (· + n) h.placements

theorem margin (hκ : IsCaseMap κ) (h : Line.Alike φ κ l l') : l'.margin = l.margin :=
  Text.congr_of_map (g := fun t => (t.takeWhile Text.isBlank).length)
    (fun t => by rw [Word.takeWhile_map_of_class (Text.isBlank_map hκ), List.length_map]) h.text

theorem absorb
    (hκ : IsCaseMap κ) {m m' : Line} (h : Line.Alike φ κ l l') (hm : Line.Alike φ κ m m')
    (joiner : Text) :
    Line.Alike φ κ (l.absorb m joiner) (l'.absorb m' joiner) where
  text := by simp [Line.absorb, h.text, Text.map_trimLeft_congr hκ hm.text]
  startLine := h.startLine
  endLine := hm.endLine
  endsInComment := hm.endsInComment
  fixed := h.fixed
  placements := by
    simp only [Line.absorb, h.length_text, hm.margin hκ]
    exact List.rel_append h.placements
      (moved (fun n => n + (l.text.length + joiner.length) - m.margin) hm.placements)

theorem beginsWithTerminator (hκ : IsCaseMap κ) (h : Line.Alike φ κ l l') :
    l'.beginsWithTerminator = l.beginsWithTerminator :=
  Text.congr_of_map (g := fun t => match Text.trimLeft t with
    | [] => false
    | c :: _ => c == '.' || c == ',') (Text.beginsWithTerminator_map hκ) h.text

theorem trimRight (hκ : IsCaseMap κ) (h : Line.Alike φ κ l l') :
    Line.Alike φ κ { l with text := Text.trimRight l.text }
      { l' with text := Text.trimRight l'.text } :=
  { h with text := Text.map_trimRight_congr hκ h.text }

theorem attachComment (hκ : IsCaseMap κ) (h : Line.Alike φ κ l l') (o : Options) (k : KeywordCase)
    {c c' : Comment} (hc : c'.value = c.value) :
    Line.Alike φ κ (Rendering.attachComment o c l)
      (Rendering.attachComment (o.withCase k) c' l') := by
  refine { h with text := ?_ }
  have hcase : CommentText.attach (o.withCase k) l'.text c.value =
      CommentText.attach o l'.text c.value := rfl
  rw [Rendering.attachComment, hc, hcase]
  exact CommentText.map_attach_congr hκ o c.value h.text

end Line.Alike

/-! ## Lists of lines -/

section Lists

variable {α β : Type} {R : α → β → Prop}

theorem forall₂_modify
    {f : α → α} {g : β → β} (hfg : ∀ a b, R a b → R (f a) (g b)) {as : List α} {bs : List β}
    (h : List.Forall₂ R as bs) (i : Nat) :
    List.Forall₂ R (as.modify i f) (bs.modify i g) := by
  induction h generalizing i with
  | nil => simp
  | @cons a b as bs hab hrest ih =>
      cases i with
      | zero => exact .cons (hfg a b hab) hrest
      | succ i => exact .cons hab (ih i)

theorem findIdx?_of_forall₂
    {p : α → Bool} {q : β → Bool} (hpq : ∀ a b, R a b → q b = p a) {as : List α} {bs : List β}
    (h : List.Forall₂ R as bs) :
    bs.findIdx? q = as.findIdx? p := by
  induction h with
  | nil => rfl
  | @cons a b as bs hab hrest ih => rw [List.findIdx?_cons, List.findIdx?_cons, hpq a b hab, ih]

end Lists

namespace Rendering

variable {o : Options} {k : KeywordCase} {φ : Recast} {κ : Char → Char} {lines lines' : List Line}

abbrev AlikeLines (φ : Recast) (κ : Char → Char) (lines lines' : List Line) : Prop :=
  List.Forall₂ (Line.Alike φ κ) lines lines'

theorem alike_map
    {f g : Line → Line} (hfg : ∀ l l', Line.Alike φ κ l l' → Line.Alike φ κ (f l) (g l'))
    (h : AlikeLines φ κ lines lines') :
    AlikeLines φ κ (lines.map f) (lines'.map g) :=
  List.forall₂_map_left_iff.mpr (List.forall₂_map_right_iff.mpr (h.imp hfg))

theorem alike_glue
    (hκ : IsCaseMap κ) (joiner : Text) (keepLast : Bool) (h : AlikeLines φ κ lines lines') :
    AlikeLines φ κ (Line.glue joiner keepLast lines) (Line.glue joiner keepLast lines') := by
  have hfrom : ∀ {above above' : Line}, Line.Alike φ κ above above' →
      ∀ {lines lines' : List Line}, AlikeLines φ κ lines lines' →
        AlikeLines φ κ (Line.glueFrom joiner keepLast above lines)
          (Line.glueFrom joiner keepLast above' lines') := by
    intro above above' habove lines lines' hlines
    induction hlines generalizing above above' with
    | nil => exact .cons habove .nil
    | @cons l l' rest rest' hl hrest ih =>
        have hlast : rest'.isEmpty = rest.isEmpty := by cases hrest <;> rfl
        rw [Line.glueFrom, Line.glueFrom, hl.beginsWithTerminator hκ, habove.endsInComment, hlast]
        split
        · exact ih (habove.absorb hκ hl joiner)
        · exact .cons habove (ih hl)
  cases h with
  | nil => exact .nil
  | cons hl hrest => exact hfrom hl hrest

/-- Comments behind alike lines: the second run has the comments of the first in other columns. -/
theorem alike_attachToLast
    (hκ : IsCaseMap κ) (comment : Option Comment) (h : AlikeLines φ κ lines lines') :
    AlikeLines φ κ (attachToLast o comment lines)
      (attachToLast (o.withCase k) (comment.map (·.moved φ.shift)) lines') := by
  cases comment with
  | none => exact h
  | some c =>
      simp only [Option.map_some, attachToLast, h.length_eq]
      exact forall₂_modify (fun l l' hl => hl.attachComment hκ o k rfl) h _

theorem alike_attachTrailing
    (hκ : IsCaseMap κ) (comment : Option Comment) (h : AlikeLines φ κ lines lines') :
    AlikeLines φ κ (attachTrailing o comment lines)
      (attachTrailing (o.withCase k) (comment.map (·.moved φ.shift)) lines') := by
  cases comment with
  | none => exact h
  | some c =>
      have hhere : ∀ l l', Line.Alike φ κ l l' →
          (l'.startLine ≤ (c.moved φ.shift).span.startLine &&
              (c.moved φ.shift).span.startLine ≤ l'.endLine : Bool) =
            (l.startLine ≤ c.span.startLine && c.span.startLine ≤ l.endLine : Bool) := by
        intro l l' hl
        rw [hl.startLine, hl.endLine]
        rfl
      simp only [Option.map_some, attachTrailing]
      rw [findIdx?_of_forall₂ hhere h]
      split
      · exact forall₂_modify (fun l l' hl => hl.attachComment hκ o k rfl) h _
      · exact alike_attachToLast hκ (some c) h

/-! ## Tokens behind one another -/

variable (o k φ κ) in
/-- Whether the tokens of a row behind two others are printed with the same letters in two runs. -/
def SpelledAlike (previous before : Option Token) : List Token → Prop
  | [] => True
  | t :: ts =>
    (tokenText (o.withCase k) (φ t) (previous.map φ) (before.map φ)).map κ =
        (tokenText o t previous before).map κ ∧
      SpelledAlike (some t) previous ts

theorem SpelledAlike.take
    {previous before : Option Token} {ts : List Token} (h : SpelledAlike o k φ κ previous before ts)
    (n : Nat) :
    SpelledAlike o k φ κ previous before (ts.take n) := by
  induction ts generalizing previous before n with
  | nil => simpa using h
  | cons t ts ih =>
      cases n with
      | zero => trivial
      | succ n => exact ⟨h.1, ih h.2 n⟩

theorem printed_withCase
    (wanted : Option Nat) (t : Token) (previous : Option Token) :
    Spacing.printed (o.withCase k) wanted (φ t) (previous.map φ) =
      Spacing.printed o wanted t previous :=
  (φ.spacing t (o.withCase k) wanted previous).trans rfl

/-- Tokens put behind alike lines give alike lines. -/
theorem alike_sequenceLines
    (hκ : IsCaseMap κ) (wanted : WantedBlanks) {previous before : Option Token}
    {current current' : Option Line} {tokens : List (Address × Token)}
    (hcurrent : Option.Rel (Line.Alike φ κ) current current')
    (h : SpelledAlike o k φ κ previous before (tokens.map Prod.snd)) :
    AlikeLines φ κ (sequenceLines o wanted previous before current tokens)
      (sequenceLines (o.withCase k) wanted (previous.map φ) (before.map φ) current'
        (tokens.map fun p => (p.1, φ p.2))) := by
  induction tokens generalizing previous before current current' with
  | nil =>
      cases hcurrent with
      | none => exact .nil
      | some hl => exact .cons hl .nil
  | cons head rest ih =>
      obtain ⟨a, t⟩ := head
      obtain ⟨htext, hrest⟩ := h
      have hfresh : Line.Alike φ κ
          { ({} : Line).put a t (tokenText o t previous before) 0 with fixed := t.isStarComment }
          { ({} : Line).put a (φ t) (tokenText (o.withCase k) (φ t) (previous.map φ)
              (before.map φ)) 0 with fixed := (φ t).isStarComment } :=
        { (Line.Alike.ofText [] false).put hκ a t htext 0 with fixed := φ.isStarComment t }
      cases hcurrent with
      | none => exact ih (.some hfresh) hrest
      | @some l l' hl =>
          have hcomment : (previous.map φ).any Token.isComment = previous.any Token.isComment := by
            cases previous <;> simp
          simp only [List.map_cons, sequenceLines, hcomment, printed_withCase]
          split
          · exact .cons hl (ih (.some hfresh) hrest)
          · exact ih (.some (hl.put hκ a t htext _)) hrest

/-! ## Chains -/

theorem alike_foldl_absorb
    (hκ : IsCaseMap κ) (joiner : Text) {first first' : Line}
    (hfirst : Line.Alike φ κ first first') (h : AlikeLines φ κ lines lines') :
    Line.Alike φ κ (lines.foldl (fun l extra => l.absorb extra joiner) first)
      (lines'.foldl (fun l extra => l.absorb extra joiner) first') := by
  induction h generalizing first first' with
  | nil => exact hfirst
  | cons hl _ ih => exact ih (hfirst.absorb hκ hl joiner)

theorem alike_keywordLine
    (hκ : IsCaseMap κ) (wanted : WantedBlanks) (ordinal indent : Nat) {c : Chain}
    (h : SpelledAlike o k φ κ none none c.words) :
    Line.Alike φ κ (keywordLine o wanted ordinal indent c)
      (keywordLine (o.withCase k) wanted ordinal indent (c.recast φ)) := by
  have hlines := alike_sequenceLines hκ wanted .none
    ((map_snd_addressed ordinal 0 c.words).symm ▸ h)
  rw [map_addressed, Option.map_none] at hlines
  have hwords : (c.recast φ).words = c.words.map φ := rfl
  rw [keywordLine, keywordLine, hwords, List.length_map]
  refine Line.Alike.put hκ (.indent ?_ indent) _ c.colon rfl 0
  revert hlines
  generalize sequenceLines o wanted none none none _ = lines
  generalize sequenceLines (o.withCase k) wanted none none none _ = lines'
  intro hlines
  cases hlines with
  | nil => exact .ofText [] false
  | cons hfirst hrest => exact alike_foldl_absorb hκ [' '] hfirst hrest

/-- All tokens of a member are printed on its lines, or all but the last. -/
theorem filter_addressed_eq_take
    {α : Type} (ordinal : Nat) {slot : Nat} {skip : Option Nat} (as : List α)
    (h : ∀ j, skip = some j → slot + as.length ≤ j + 1) :
    ∃ n, (addressed ordinal slot as).filter (fun p => some p.1.slot != skip) =
      addressed ordinal slot (as.take n) := by
  by_cases hlast : ∃ j, skip = some j ∧ j + 1 = slot + as.length
  · obtain ⟨j, rfl, hj⟩ := hlast
    exact ⟨as.length - 1, by rw [filter_addressed_eq_dropLast hj, List.dropLast_eq_take]⟩
  · refine ⟨as.length, ?_⟩
    rw [List.take_length, filter_addressed_eq_self]
    intro j hj
    have hle := h j hj
    have hne : j + 1 ≠ slot + as.length := fun heq => hlast ⟨j, hj, heq⟩
    omega

theorem alike_memberLines
    (hκ : IsCaseMap κ) (wanted : WantedBlanks) (ordinal : Nat) {slot : Nat} {skip : Option Nat}
    {cells : List Cell} (trailing : Option Comment)
    (hskip : ∀ j, skip = some j → slot + cells.length ≤ j + 1)
    (h : SpelledAlike o k φ κ none none (cells.map (·.token))) :
    AlikeLines φ κ (memberLines o wanted ordinal slot skip cells trailing)
      (memberLines (o.withCase k) wanted ordinal slot skip (cells.map (·.recast φ))
        (trailing.map (·.moved φ.shift))) := by
  have hcells : (cells.map (·.recast φ)).map (·.token) = (cells.map (·.token)).map φ := by
    simp [Cell.recast]
  obtain ⟨n, hn⟩ := filter_addressed_eq_take ordinal (cells.map (·.token))
    (by simpa using hskip)
  have htokens : (addressed ordinal slot ((cells.map (·.token)).map φ)).filter
        (fun p => some p.1.slot != skip) =
      (addressed ordinal slot ((cells.map (·.token)).take n)).map fun p => (p.1, φ p.2) := by
    rw [← map_addressed, List.filter_map, ← hn]
    rfl
  have hlines := alike_sequenceLines hκ wanted .none
    ((map_snd_addressed ordinal slot ((cells.map Cell.token).take n)).symm ▸ h.take n)
  rw [Option.map_none] at hlines
  have hshown : AlikeLines φ κ (memberLines o wanted ordinal slot skip cells none)
      (memberLines (o.withCase k) wanted ordinal slot skip (cells.map (·.recast φ)) none) := by
    simp only [memberLines, hcells, hn, htokens]
    revert hlines
    generalize sequenceLines o wanted none none none _ = lines
    generalize sequenceLines (o.withCase k) wanted none none none _ = lines'
    intro hlines
    cases hlines with
    | nil => exact .cons (Line.Alike.ofText [] false) .nil
    | cons hl hrest => exact .cons hl hrest
  cases trailing with
  | none => exact hshown
  | some c =>
      exact forall₂_modify
        (fun _ _ hl => { hl.attachComment hκ o k rfl with endsInComment := rfl }) hshown 0

theorem alike_placeMember
    (indent : Nat) (l l' : Line) (h : Line.Alike φ κ l l') :
    Line.Alike φ κ (placeMember indent l) (placeMember indent l') := by
  rw [placeMember, placeMember, h.fixed]
  split
  · exact h
  · exact h.indent indent

/-- An entry and its slot in a recast chain. -/
def recastEntry (φ : Recast) (p : Nat × Entry) : Nat × Entry :=
  (p.1, p.2.recast φ)

/-- Whether an entry is printed alike: the token that is left out, if any, is its last, and the row
of its tokens has the same letters. -/
def EntryAlike (o : Options) (k : KeywordCase) (φ : Recast) (κ : Char → Char) (skip : Option Nat)
    (p : Nat × Entry) : Prop :=
  (∀ j, skip = some j → p.1 + p.2.cells.length ≤ j + 1) ∧
    ∀ row ∈ p.2.row?, SpelledAlike o k φ κ none none row

theorem alike_entryLines
    (hκ : IsCaseMap κ) (wanted : WantedBlanks) (ordinal indent : Nat) {skip : Option Nat}
    {p : Nat × Entry} (h : EntryAlike o k φ κ skip p) :
    AlikeLines φ κ (entryLines o wanted ordinal indent skip p)
      (entryLines (o.withCase k) wanted ordinal indent skip (recastEntry φ p)) := by
  obtain ⟨slot, e⟩ := p
  cases e with
  | remark c => exact .cons (.ofText _ true) .nil
  | member cells trailing =>
      exact alike_map (alike_placeMember indent)
        (alike_memberLines hκ wanted ordinal trailing h.1 (h.2 _ rfl))

theorem alike_flatMap_entryLines
    (hκ : IsCaseMap κ) (wanted : WantedBlanks) (ordinal indent : Nat) {skip : Option Nat}
    {entries : List (Nat × Entry)} (h : ∀ p ∈ entries, EntryAlike o k φ κ skip p) :
    AlikeLines φ κ (entries.flatMap (entryLines o wanted ordinal indent skip))
      ((entries.map (recastEntry φ)).flatMap
        (entryLines (o.withCase k) wanted ordinal indent skip)) := by
  induction entries with
  | nil => exact .nil
  | cons p rest ih =>
      rw [List.map_cons, List.flatMap_cons, List.flatMap_cons]
      exact List.rel_append (alike_entryLines hκ wanted ordinal indent (h p (by simp)))
        (ih fun q hq => h q (by simp [hq]))

theorem alike_entriesLines
    (hκ : IsCaseMap κ) (wanted : WantedBlanks) (ordinal indent : Nat) {skip : Option Nat}
    (inlineFirst : Bool) {keyword keyword' : Line} (hkeyword : Line.Alike φ κ keyword keyword')
    {entries : List (Nat × Entry)} (h : ∀ p ∈ entries, EntryAlike o k φ κ skip p) :
    AlikeLines φ κ (entriesLines o wanted ordinal indent skip inlineFirst keyword entries)
      (entriesLines (o.withCase k) wanted ordinal indent skip inlineFirst keyword'
        (entries.map (recastEntry φ))) := by
  have hbelow : AlikeLines φ κ
      (keyword :: entries.flatMap (entryLines o wanted ordinal indent skip))
      (keyword' :: (entries.map (recastEntry φ)).flatMap
        (entryLines (o.withCase k) wanted ordinal indent skip)) :=
    .cons hkeyword (alike_flatMap_entryLines hκ wanted ordinal indent h)
  cases inlineFirst with
  | false => exact hbelow
  | true =>
      cases entries with
      | nil => exact hbelow
      | cons p rest =>
          obtain ⟨slot, e⟩ := p
          cases e with
          | remark c => exact hbelow
          | member cells trailing =>
              obtain ⟨hskip, hrow⟩ := h (slot, .member cells trailing) (by simp)
              dsimp only [Entry.cells] at hskip
              have hlines := alike_memberLines (o := o) (k := k) hκ wanted ordinal trailing hskip
                (hrow _ rfl)
              have hrest := alike_flatMap_entryLines hκ wanted ordinal indent
                fun q hq => h q (List.mem_cons_of_mem _ hq)
              obtain ⟨first, more, hmember⟩ := List.exists_cons_of_ne_nil
                (memberLines_ne_nil o wanted ordinal slot skip cells trailing)
              obtain ⟨first', more', hmember'⟩ := List.exists_cons_of_ne_nil
                (memberLines_ne_nil (o.withCase k) wanted ordinal slot skip
                  (cells.map (·.recast φ)) (trailing.map (·.moved φ.shift)))
              rw [hmember, hmember'] at hlines
              obtain _ | ⟨hfirst, hmore⟩ := hlines
              simp only [List.map_cons, recastEntry, Entry.recast, entriesLines, hmember, hmember']
              exact .cons (hkeyword.absorb hκ hfirst [' '])
                (List.rel_append (alike_map (alike_placeMember indent) hmore) hrest)

theorem slotted_recast (slot : Nat) (entries : List Entry) :
    slotted slot (entries.map (·.recast φ)) = (slotted slot entries).map (recastEntry φ) := by
  induction entries generalizing slot with
  | nil => rfl
  | cons e rest ih =>
      have hcells : (e.recast φ).cells.length = e.cells.length := by
        rw [Assembly.cells_entryRecast, List.length_map]
      rw [List.map_cons, slotted, hcells, ih]
      rfl

theorem entryAlike_of_mem_slotted
    {slot : Nat} {skip : Option Nat} {entries : List Entry}
    (hskip : ∀ j, skip = some j → slot + (entries.flatMap Entry.cells).length ≤ j + 1)
    (h : ∀ row ∈ entries.filterMap Entry.row?, SpelledAlike o k φ κ none none row) :
    ∀ p ∈ slotted slot entries, EntryAlike o k φ κ skip p := by
  induction entries generalizing slot with
  | nil => simp [slotted]
  | cons e rest ih =>
      rw [List.flatMap_cons, List.length_append] at hskip
      refine List.forall_mem_cons.mpr ⟨⟨fun j hj => ?_, fun row hrow => ?_⟩, ih ?_ ?_⟩
      · have := hskip j hj
        dsimp only
        omega
      · exact h row (List.mem_filterMap.mpr ⟨e, by simp, hrow⟩)
      · intro j hj
        have := hskip j hj
        omega
      · intro row hrow
        obtain ⟨d, hd, hrow⟩ := List.mem_filterMap.mp hrow
        exact h row (List.mem_filterMap.mpr ⟨d, by simp [hd], hrow⟩)

theorem closing?_recast (s : Statement) (c : Chain) (wording : Text) :
    closing? (s.recast φ wording) (c.recast φ) =
      (closing? s c).map fun p => (p.1, φ p.2) := by
  have hmembers : ((c.recast φ).entries.filter fun e => !e.isRemark) =
      (c.entries.filter fun e => !e.isRemark).map (·.recast φ) := by
    have hremark : (fun e : Entry => !e.isRemark) ∘ Entry.recast φ = fun e => !e.isRemark := by
      funext e
      cases e <;> rfl
    have hentries : (c.recast φ).entries = c.entries.map (·.recast φ) := rfl
    rw [hentries, List.filter_map, hremark]
  have hslot : (c.recast φ).words.length +
        ((c.recast φ).entries.flatMap Entry.cells).length =
      c.words.length + (c.entries.flatMap Entry.cells).length := by
    have hcells := Assembly.flatMap_cells_recast φ c.entries
    have hwords : (c.recast φ).words = c.words.map φ := rfl
    simp only [Chain.recast] at hcells ⊢
    simp [hcells, Chain.words]
  rw [closing?, closing?, hmembers, hslot, List.getLast?_map]
  cases hpost : s.post with
  | none => simp [Statement.recast, hpost]
  | some post =>
      cases (c.entries.filter fun e => !e.isRemark).getLast? with
      | none => simp [Statement.recast, hpost]
      | some e =>
          simp only [Statement.recast, hpost, Option.map_some, Assembly.cells_entryRecast,
            List.getLast?_map]
          cases e.cells.getLast? with
          | none => rfl
          | some cell =>
              have hperiod : (cell.recast φ).token.isPeriod = cell.token.isPeriod :=
                φ.isPeriod cell.token
              simp only [Option.map_some, hperiod]
              split <;> rfl

theorem baseIndent_recast
    {s : Statement} (hlevel : s.level.isSome = true) (wording : Text) :
    baseIndent (o.withCase k) (s.recast φ wording) = baseIndent o s := by
  obtain ⟨level, hlevel⟩ := Option.isSome_iff_exists.mp hlevel
  simp only [baseIndent, Statement.recast, hlevel, Options.withCase]

/-- The period on a line of its own is printed alike. -/
theorem alike_closing
    (hκ : IsCaseMap κ) (ordinal indent : Nat) (s : Statement) (c : Chain) :
    AlikeLines φ κ
      ((closing? s c).toList.map fun p =>
        ({} : Line).put ⟨ordinal, p.1⟩ p.2 (tokenText o p.2 none none) indent)
      (((closing? s c).map fun p => (p.1, φ p.2)).toList.map fun p =>
        ({} : Line).put ⟨ordinal, p.1⟩ p.2 (tokenText (o.withCase k) p.2 none none) indent) := by
  cases hclosing : closing? s c with
  | none => exact .nil
  | some p =>
      obtain ⟨slot, t⟩ := p
      obtain ⟨-, cell, -, -, hperiod, rfl, -⟩ := closing?_eq_some hclosing
      have hperiod' : (φ cell.token).isPeriod = true := by rw [φ.isPeriod, hperiod]
      have htext : (φ cell.token).text = cell.token.text := by
        rw [Token.isPeriod, Bool.and_eq_true, beq_iff_eq, beq_iff_eq] at hperiod hperiod'
        rw [hperiod.2, hperiod'.2]
      refine .cons ((Line.Alike.ofText [] false).put hκ _ cell.token ?_ indent) .nil
      rw [tokenText_of_isPeriod _ hperiod', tokenText_of_isPeriod _ hperiod, htext]

/-- The comment of the chain itself, which it has if its last entry holds none. -/
theorem alike_attachOwn
    (hκ : IsCaseMap κ) (s : Statement) (wording : Text) (c : Chain)
    (h : AlikeLines φ κ lines lines') :
    AlikeLines φ κ
      (attachToLast o (match c.entries.getLast? with
        | some (.member _ _) => none
        | _ => s.note) lines)
      (attachToLast (o.withCase k) (match (c.recast φ).entries.getLast? with
        | some (.member _ _) => none
        | _ => (s.recast φ wording).note) lines') := by
  have hlast : (c.recast φ).entries.getLast? = c.entries.getLast?.map (·.recast φ) :=
    List.getLast?_map
  rw [hlast]
  cases c.entries.getLast? with
  | none => exact alike_attachToLast hκ s.note h
  | some e =>
      cases e with
      | member cells trailing => exact h
      | remark comment => exact alike_attachToLast hκ s.note h

theorem alike_chainLines
    (hκ : IsCaseMap κ) (wanted : WantedBlanks) (ordinal : Nat) {s : Statement} (wording : Text)
    {c : Chain} (hlevel : s.level.isSome = true)
    (hwords : SpelledAlike o k φ κ none none c.words)
    (hmembers : ∀ row ∈ c.entries.filterMap Entry.row?, SpelledAlike o k φ κ none none row) :
    AlikeLines φ κ (chainLines o wanted ordinal s c)
      (chainLines (o.withCase k) wanted ordinal (s.recast φ wording) (c.recast φ)) := by
  have hkeyword := alike_keywordLine hκ wanted ordinal (baseIndent o s) hwords
  have hblock : startsInline (c.recast φ) = startsInline c := by
    have hupper : (c.recast φ).keyword.upper = c.keyword.upper := φ.upper c.keyword
    rw [startsInline, hupper, startsInline]
  have hlength : (c.recast φ).words.length = c.words.length := by simp [Chain.recast, Chain.words]
  have hskip : ∀ j, (closing? s c).map (·.1) = some j →
      c.words.length + 1 + (c.entries.flatMap Entry.cells).length ≤ j + 1 := by
    intro j hj
    obtain ⟨⟨slot, t⟩, hsome, rfl⟩ := Option.map_eq_some_iff.mp hj
    obtain ⟨-, -, -, -, -, -, rfl⟩ := closing?_eq_some hsome
    dsimp only
    omega
  have hentries : ∀ indent, AlikeLines φ κ
      (entriesLines o wanted ordinal indent ((closing? s c).map (·.1)) (startsInline c)
        (keywordLine o wanted ordinal (baseIndent o s) c) (slotted (c.words.length + 1) c.entries))
      (entriesLines (o.withCase k) wanted ordinal indent ((closing? s c).map (·.1))
        (startsInline c) (keywordLine (o.withCase k) wanted ordinal (baseIndent o s) (c.recast φ))
        (slotted (c.words.length + 1) (c.recast φ).entries)) := by
    intro indent
    have hslotted := slotted_recast (φ := φ) (c.words.length + 1) c.entries
    exact hslotted ▸ alike_entriesLines hκ wanted ordinal indent (startsInline c) hkeyword
      (entryAlike_of_mem_slotted hskip hmembers)
  have hslot : ((closing? s c).map fun p => (p.1, φ p.2)).map (·.1) = (closing? s c).map (·.1) := by
    cases closing? s c <;> rfl
  unfold chainLines
  simp only [baseIndent_recast hlevel, hblock, hlength, closing?_recast, hslot,
    hkeyword.length_text, Option.isSome_map]
  refine alike_attachToLast hκ s.post (alike_attachOwn hκ s wording c (alike_glue hκ _ _ ?_))
  exact List.rel_append (hentries _) (alike_closing hκ ordinal _ s c)

/-! ## Plain statements -/

/-- The first token of a line keeps its distance to the column of its statement if both are moved to
the right by one number. -/
theorem alike_beginLine
    (hκ : IsCaseMap κ) (indent startColumn n : Nat) (a : Address) {t : Token}
    {previous before : Option Token}
    (hshift : t.isStarComment = false → φ.shift t.span.startLine = n)
    (htext : (tokenText (o.withCase k) (φ t) (previous.map φ) (before.map φ)).map κ =
      (tokenText o t previous before).map κ) :
    Line.Alike φ κ (beginLine o indent startColumn a t previous before)
      (beginLine (o.withCase k) indent (startColumn + n) a (φ t) (previous.map φ)
        (before.map φ)) := by
  have hempty := Line.Alike.ofText (φ := φ) (κ := κ) [] false
  unfold beginLine
  rw [φ.isStarComment, Option.isNone_map]
  dsimp only
  split
  next => exact { hempty.put hκ a t htext 0 with fixed := rfl }
  next hstar =>
    have hcolumn : (φ t).span.startColumn = t.span.startColumn + n := by
      rw [← hshift (by simpa using hstar), φ.span]
      rfl
    rw [hcolumn, Nat.add_sub_add_right]
    exact hempty.put hκ a t htext _

theorem alike_cellLines
    (hκ : IsCaseMap κ) (wanted : WantedBlanks) (indent startColumn n : Nat)
    {previous before : Option Token} {current current' : Option Line}
    {cells : List (Address × Cell)}
    (hshift : ∀ c ∈ cells, c.2.token.isStarComment = false →
      φ.shift c.2.token.span.startLine = n)
    (hcurrent : Option.Rel (Line.Alike φ κ) current current')
    (h : SpelledAlike o k φ κ previous before (cells.map (·.2.token))) :
    AlikeLines φ κ (cellLines o wanted indent startColumn previous before current cells)
      (cellLines (o.withCase k) wanted indent (startColumn + n) (previous.map φ) (before.map φ)
        current' (cells.map fun c => (c.1, c.2.recast φ))) := by
  induction cells generalizing previous before current current' with
  | nil =>
      cases hcurrent with
      | none => exact .nil
      | some hl => exact .cons hl .nil
  | cons head rest ih =>
      obtain ⟨a, cell⟩ := head
      obtain ⟨htext, hrest⟩ := h
      have hbehind := fun {current current'} hcurrent =>
        @ih (some cell.token) previous current current'
          (fun c hc => hshift c (List.mem_cons_of_mem _ hc)) hcurrent hrest
      have hgrown : ∀ {line line' : Line}, Line.Alike φ κ line line' →
          AlikeLines φ κ
            (if cell.breakAfter then
              line :: cellLines o wanted indent startColumn (some cell.token) previous none rest
            else cellLines o wanted indent startColumn (some cell.token) previous (some line) rest)
            (if (cell.recast φ).breakAfter then
              line' :: cellLines (o.withCase k) wanted indent (startColumn + n)
                (some (φ cell.token)) (previous.map φ) none
                (rest.map fun c => (c.1, c.2.recast φ))
            else cellLines (o.withCase k) wanted indent (startColumn + n) (some (φ cell.token))
              (previous.map φ) (some line') (rest.map fun c => (c.1, c.2.recast φ))) := by
        intro line line' hline
        have hbreak : (cell.recast φ).breakAfter = cell.breakAfter := rfl
        rw [hbreak]
        split
        · exact .cons hline (hbehind .none)
        · exact hbehind (.some hline)
      cases hcurrent with
      | none =>
          exact hgrown (alike_beginLine hκ indent startColumn n a (hshift (a, cell) (by simp)) htext)
      | some hl =>
          refine hgrown ?_
          dsimp only [Cell.recast]
          rw [printed_withCase]
          exact hl.put hκ a cell.token htext _

theorem alike_plainLines
    (hκ : IsCaseMap κ) (wanted : WantedBlanks) (ordinal : Nat) {s : Statement} (wording : Text)
    {cells : List Cell} (hlevel : s.level.isSome = true)
    (hshift : ∀ span ∈ s.span, ∀ c ∈ cells, c.token.isStarComment = false →
      φ.shift c.token.span.startLine = φ.shift span.startLine)
    (hspan : s.span.isSome = true)
    (h : SpelledAlike o k φ κ none none (cells.map (·.token))) :
    AlikeLines φ κ (plainLines o wanted ordinal s cells)
      (plainLines (o.withCase k) wanted ordinal (s.recast φ wording)
        (cells.map (·.recast φ))) := by
  obtain ⟨span, hspan⟩ := Option.isSome_iff_exists.mp hspan
  have hcells : (addressed ordinal 0 cells).map (·.2.token) = cells.map (·.token) := by
    rw [← map_snd_addressed ordinal 0 cells, List.map_map, map_snd_addressed]
    rfl
  have hlines := alike_cellLines hκ wanted (baseIndent o s) span.startColumn
    (φ.shift span.startLine) (fun c hc => hshift span hspan c.2 (mem_of_mem_addressed hc)) .none
    (hcells.symm ▸ h)
  rw [map_addressed] at hlines
  have hspan' : (s.recast φ wording).span = some (span.moved φ.shift) := by
    rw [Statement.recast, hspan]
    rfl
  have hpost : (s.recast φ wording).post.isSome = s.post.isSome := Option.isSome_map
  unfold plainLines
  rw [baseIndent_recast hlevel, hspan, hspan', hpost]
  exact alike_attachToLast hκ s.post (alike_attachTrailing hκ s.note
    (alike_glue hκ _ _ (alike_map (fun _ _ hl => hl.trimRight hκ) hlines)))

/-! ## Documents -/

variable (o k φ κ) in
/-- What lets a recast statement be printed like the statement: it has a level and stands somewhere,
the lines of a plain statement move to the right by one number, and its rows are spelled alike. -/
structure Steady (s : Statement) : Prop where
  level : s.level.isSome = true
  span : s.span.isSome = true
  shift : ∀ cells, s.body = .plain cells → ∀ span ∈ s.span, ∀ c ∈ cells,
    c.token.isStarComment = false → φ.shift c.token.span.startLine = φ.shift span.startLine
  spelled : ∀ row ∈ s.rows, SpelledAlike o k φ κ none none row

theorem alike_statementLines
    (hκ : IsCaseMap κ) (wanted : WantedBlanks) (ordinal : Nat) {s s' : Statement}
    (hs : s.IsRecast φ s') (h : Steady o k φ κ s) :
    AlikeLines φ κ (statementLines o wanted ordinal s)
      (statementLines (o.withCase k) wanted ordinal s') := by
  obtain ⟨wording, rfl⟩ := hs
  have hrows := h.spelled
  rw [Statement.rows] at hrows
  cases hbody : s.body with
  | chain c =>
      have hbody' : (s.recast φ wording).body = .chain (c.recast φ) := by
        rw [Statement.recast, hbody]
        rfl
      rw [hbody] at hrows
      rw [statementLines_chain hbody, statementLines_chain hbody']
      exact alike_chainLines hκ wanted ordinal wording h.level (hrows _ (by simp [Body.rows]))
        fun row hrow => hrows row (by simp [Body.rows, hrow])
  | plain cells =>
      have hbody' : (s.recast φ wording).body = .plain (cells.map (·.recast φ)) := by
        rw [Statement.recast, hbody]
        rfl
      cases cells with
      | nil =>
          rw [statementLines_comment hbody, statementLines_comment hbody',
            baseIndent_recast h.level]
          cases hnote : s.note with
          | none => simp [Statement.recast, hnote]
          | some c =>
              simp only [Statement.recast, hnote]
              exact .cons (.ofText _ false) .nil
      | cons cell cells =>
          rw [hbody] at hrows
          rw [statementLines_plain hbody, statementLines_plain hbody']
          exact alike_plainLines hκ wanted ordinal wording h.level (h.shift _ hbody) h.span
            (hrows _ (by simp [Body.rows]))

theorem blankLinesBetween_recast
    {previous previous' : Option Statement} (hprevious : Assembly.RecastFront φ previous previous')
    {s s' : Statement} (hs : s.IsRecast φ s') :
    blankLinesBetween previous' s' = blankLinesBetween previous s := by
  obtain ⟨wording, rfl⟩ := hs
  cases hprevious with
  | none => rfl
  | @some p _ hp =>
      obtain ⟨wording', rfl⟩ := hp
      unfold blankLinesBetween
      simp only [Option.bind_some, Statement.recast]
      cases p.span with
      | none => rfl
      | some above => cases s.span <;> rfl

/-- Statements and recasts of them are printed alike. -/
theorem alike_linesFrom
    (hκ : IsCaseMap κ) (wanted : WantedBlanks) (ordinal : Nat)
    {previous previous' : Option Statement} (hprevious : Assembly.RecastFront φ previous previous')
    {statements statements' : List Statement}
    (hrecast : List.Forall₂ (Statement.IsRecast φ) statements statements')
    (h : ∀ s ∈ statements, Steady o k φ κ s) :
    AlikeLines φ κ (linesFrom o wanted ordinal previous statements)
      (linesFrom (o.withCase k) wanted ordinal previous' statements') := by
  induction hrecast generalizing ordinal previous previous' with
  | nil => exact .nil
  | @cons s s' rest rest' hs hrest ih =>
      have hlines := alike_statementLines hκ wanted ordinal hs (h s (by simp))
      have hnil : statementLines (o.withCase k) wanted ordinal s' = [] ↔
          statementLines o wanted ordinal s = [] := by
        rw [← List.length_eq_zero_iff, ← List.length_eq_zero_iff, hlines.length_eq]
      have hbehind := fun {previous previous'} hprevious =>
        @ih (ordinal + 1) previous previous' hprevious fun r hr => h r (List.mem_cons_of_mem s hr)
      rw [linesFrom_cons, linesFrom_cons]
      simp only [hnil, blankLinesBetween_recast hprevious hs]
      refine List.rel_append ?_ (List.rel_append hlines ?_)
      · refine List.forall₂_same.mpr fun l hl => ?_
        rw [List.eq_of_mem_replicate hl]
        exact .ofText [] false
      · split
        · exact hbehind hprevious
        · exact hbehind (.some hs)

/-- Two runs print statements and recasts of them alike. -/
theorem alike_render
    (hκ : IsCaseMap κ) (wanted : WantedBlanks) {statements statements' : List Statement}
    (hrecast : List.Forall₂ (Statement.IsRecast φ) statements statements')
    (h : ∀ s ∈ statements, Steady o k φ κ s) :
    AlikeLines φ κ (render o wanted statements) (render (o.withCase k) wanted statements') :=
  alike_linesFrom hκ wanted 0 .none hrecast h

end Rendering
end AbapLayout
