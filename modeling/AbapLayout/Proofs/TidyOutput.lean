import AbapLayout.Proofs.CommentMerge
import AbapLayout.Proofs.PassThrough
import AbapLayout.Proofs.TokenCover

/-!
# Tidy output

A formatted text is empty or ends in one line feed, and its last line is not blank.  If it has been
laid out, its first line is not blank either; if it has been passed through, its first line is the
first line of the source.  No line ends in a blank character (`format_tidy`), with two exceptions
that `Layout.leavesBlanks` names: a comment that is nothing but its sign may be put into another one,
and a chain may be left with a last member that has nothing to print.  What is laid out is never empty
(`Layout.lines_ne_nil`): a source that is not blank has a first statement, and nothing moves away from
it.
-/

namespace AbapLayout

/-! ## Texts -/

namespace Text

/-- Whether a text ends in a character that is not blank. -/
def EndsInInk (t : Text) : Prop :=
  ∃ init c, t = init ++ [c] ∧ isBlank c = false

theorem EndsInInk.trimRight {t : Text} (h : EndsInInk t) : trimRight t = t := by
  obtain ⟨init, c, rfl, hc⟩ := h
  exact trimRight_append_singleton init hc

theorem EndsInInk.append {t : Text} (h : EndsInInk t) (s : Text) : EndsInInk (s ++ t) := by
  obtain ⟨init, c, rfl, hc⟩ := h
  exact ⟨s ++ init, c, by simp, hc⟩

theorem EndsInInk.isBlankText {t : Text} (h : EndsInInk t) : isBlankText t = false := by
  obtain ⟨init, c, rfl, hc⟩ := h
  simp [Text.isBlankText, hc]

theorem isBlankText_append (s t : Text) :
    isBlankText (s ++ t) = (isBlankText s && isBlankText t) :=
  List.all_append

/-- A text that has nothing to trim is empty or not blank. -/
theorem isBlankText_of_trimmed {t : Text} (h : trimRight t = t) (hne : t ≠ []) :
    isBlankText t = false := by
  rw [Bool.eq_false_iff, isBlankText, Ne, List.all_eq_true, ← trimRight_eq_nil_iff, h]
  exact hne

/-- A text ends in one line feed, behind a line that is not blank. -/
structure EndsProperly (t : Text) : Prop where
  feed : ∃ init c, t = init ++ [c, '\n'] ∧ c ≠ '\n'
  last : ∃ front l, lines t = front ++ [l, []] ∧ isBlankText l = false

/-- What is expected of every formatted text: no line ends in a blank character, and the text is empty
or ends in one line feed and has no blank line at either end. -/
structure IsTidy (t : Text) : Prop where
  trimmed : ∀ l ∈ lines t, trimRight l = l
  ends : t = [] ∨ t.EndsProperly ∧ ∀ l ∈ (lines t).head?, isBlankText l = false

theorem exists_unlines_concat (ls : List Text) (l : Text) :
    ∃ front, unlines (ls ++ [l]) = front ++ l := by
  induction ls with
  | nil => exact ⟨[], by simp [unlines, join]⟩
  | cons m rest ih =>
      obtain ⟨front, hfront⟩ := ih
      obtain ⟨k, more, hmore⟩ : ∃ k more, rest ++ [l] = k :: more := by
        cases rest <;> simp
      refine ⟨m ++ '\n' :: front, ?_⟩
      rw [List.cons_append, hmore, unlines_cons_cons, ← hmore, hfront]
      simp

theorem endsProperly_document
    {ls : List Text} {l : Text} (hline : ∀ m ∈ ls ++ [l], OneLine m) (hl : isBlankText l = false) :
    (document (ls ++ [l])).EndsProperly where
  feed := by
    have hne : l ≠ [] := by
      rintro rfl
      simp [isBlankText] at hl
    obtain ⟨init, c, rfl⟩ : ∃ init c, l = init ++ [c] :=
      ⟨l.dropLast, l.getLast hne, (List.dropLast_concat_getLast hne).symm⟩
    have hc : c ≠ '\n' := by
      rintro rfl
      exact absurd (hline (init ++ ['\n']) (by simp) '\n' (by simp)) (by decide)
    obtain ⟨front, hfront⟩ := exists_unlines_concat ls (init ++ [c])
    exact ⟨front ++ init, c, by simp [document, hfront], hc⟩
  last := ⟨ls, l, by rw [lines_document hline]; simp, hl⟩

end Text

open Text

/-! ## Lines that are made of tokens and comments -/

namespace Line

variable {o : Options} {cs : List Comment} {l : Line}

theorem Trail.isBlankText
    {tail : Text} (h : Trail o cs tail) (hne : cs ≠ []) :
    isBlankText tail = false := by
  cases h with
  | nil => exact absurd rfl hne
  | @cons c rest more n hc _ =>
      obtain ⟨text, hline, hvalue⟩ := hc
      obtain ⟨comment, -, heq⟩ := CommentText.normalize_sign o hline
      have hsign : Text.isBlankText (Comment.sign :: (comment ++ more)) = false := by
        simp [Text.isBlankText, show isBlank Comment.sign = false by decide]
      rw [hvalue, heq, isBlankText_append, List.cons_append, hsign, Bool.and_false]

/-- Comments that do not end in a blank character are printed so. -/
theorem Trail.endsInInk
    {tail : Text} (h : Trail o cs tail) (hne : cs ≠ []) (hsolid : ∀ c ∈ cs, c.value.Solid) :
    tail.EndsInInk := by
  induction h with
  | nil => exact absurd rfl hne
  | @cons c rest more n hc hrest ih =>
      cases hrest with
      | nil =>
          rw [List.append_nil]
          exact EndsInInk.append (CommentText.solid_normalize o (hsolid c (by simp))).ends _
      | cons m hd hmore =>
          exact ((ih (by simp) fun d hd => hsolid d (by simp [hd])).append _).append _

theorem Shows.isBlankText
    {tail : Text} (h : l.Shows tail) (hne : l.placements ≠ []) :
    isBlankText l.text = false := by
  obtain ⟨body, htext, hspread⟩ := h
  rcases hspread.ends with ⟨hnone, -⟩ | hends
  · exact absurd hnone hne
  · rw [htext, isBlankText_append, EndsInInk.isBlankText hends, Bool.false_and]

/-- A line that is not hollow is not blank. -/
theorem Composed.isBlankText
    (h : l.Composed o False cs) : isBlankText l.text = false := by
  rcases h with h | ⟨-, c, rest, tail, -, hstar, -, htext⟩
  · rcases h.made with ⟨tail, hshows, htrail, hfull⟩ | ⟨hhollow, -⟩
    · by_cases hnone : l.placements = []
      · obtain ⟨body, htext, -⟩ := hshows
        rw [htext, isBlankText_append, htrail.isBlankText (hfull hnone), Bool.and_false]
      · exact hshows.isBlankText hnone
    · exact hhollow.elim
  · have hstarred : Comment.isStarText l.text = true := by
      rw [← Rendering.isStarText_trimRight, Comment.isStarText, beq_iff_eq] at hstar
      obtain ⟨text, htrimmed⟩ := List.head?_eq_some_iff.mp hstar
      rw [htext, htrimmed]
      rfl
    obtain ⟨text, hvalue⟩ := List.head?_eq_some_iff.mp (beq_iff_eq.mp hstarred)
    simp [hvalue, Text.isBlankText, show isBlank '*' = false by decide]

/-- A line ends in the last of its comments, or in its last token. -/
theorem Composed.trimRight
    (h : l.Composed o False cs) (hsolid : ∀ c ∈ cs, c.value.Solid) :
    trimRight l.text = l.text := by
  rcases h with h | ⟨-, c, rest, tail, rfl, -, htrail, htext⟩
  · rcases h.made with ⟨tail, ⟨body, htext, hspread⟩, htrail, hfull⟩ | ⟨hhollow, -⟩
    · refine EndsInInk.trimRight ?_
      rw [htext]
      by_cases hcs : cs = []
      · subst hcs
        cases htrail
        rw [List.append_nil]
        rcases hspread.ends with ⟨hnone, -⟩ | hends
        · exact absurd rfl (hfull hnone)
        · exact hends
      · exact (htrail.endsInInk hcs hsolid).append body
    · exact hhollow.elim
  · rw [htext]
    by_cases hrest : rest = []
    · subst hrest
      cases htrail
      rw [List.append_nil, trimRight_trimRight]
    · exact ((htrail.endsInInk hrest fun d hd => hsolid d (by simp [hd])).append _).trimRight

end Line

/-! ## The first and the last line -/

/-- The first and the last of some lines are not blank. -/
structure Framed (lines : List Line) : Prop where
  first : ∀ l ∈ lines.head?, isBlankText l.text = false
  last : ∀ l ∈ lines.getLast?, isBlankText l.text = false

theorem Framed.of_forall {lines : List Line} (h : ∀ l ∈ lines, isBlankText l.text = false) :
    Framed lines :=
  ⟨fun l hl => h l (List.mem_of_mem_head? hl), fun l hl => h l (List.mem_of_mem_getLast? hl)⟩

theorem Framed.modify
    {f : Line → Line} {lines : List Line} (h : Framed lines) (i : Nat)
    (hf : ∀ l, isBlankText l.text = false → isBlankText (f l).text = false) :
    Framed (lines.modify i f) := by
  have hplace (j : Nat) (hj : ∀ l ∈ lines[j]?, isBlankText l.text = false) :
      ∀ l ∈ (lines.modify i f)[j]?, isBlankText l.text = false := by
    intro l hl
    rw [List.getElem?_modify, Option.mem_def, Option.map_eq_map, Option.map_eq_some_iff] at hl
    obtain ⟨k, hk, rfl⟩ := hl
    split
    · exact hf k (hj k hk)
    · exact hj k hk
  constructor
  · rw [List.head?_eq_getElem?]
    exact hplace 0 (List.head?_eq_getElem? ▸ h.first)
  · rw [List.getLast?_eq_getElem?, List.length_modify]
    exact hplace _ (List.getLast?_eq_getElem? ▸ h.last)

namespace Line

/-- The line above begins what it is glued to. -/
theorem isBlankText_head?_glueFrom
    {joiner : Text} {keepLast : Bool} {above : Line} {lines : List Line}
    (h : isBlankText above.text = false) :
    ∀ l ∈ (glueFrom joiner keepLast above lines).head?, isBlankText l.text = false := by
  induction lines generalizing above with
  | nil => simpa [glueFrom] using h
  | cons next rest ih =>
      rw [glueFrom]
      split
      · exact ih (by simp [absorb, isBlankText_append, h])
      · simpa using h

/-- The last line stays as it is if it shall be kept. -/
theorem getLast?_glueFrom
    (joiner : Text) (above : Line) (lines : List Line) (l : Line) :
    (glueFrom joiner true above (lines ++ [l])).getLast? = some l := by
  induction lines generalizing above with
  | nil => simp [glueFrom]
  | cons next rest ih =>
      rw [List.cons_append, glueFrom]
      split
      · exact ih _
      · rw [List.getLast?_cons_of_ne_nil, ih]
        intro hnil
        have hnone := ih next
        simp [hnil] at hnone

end Line

namespace Rendering

open Line

variable {o : Options} {wanted : WantedBlanks} {ordinal : Nat}

theorem framed_attachToLast
    {comment : Option Comment} {lines : List Line} (h : Framed lines) :
    Framed (attachToLast o comment lines) := by
  cases comment with
  | none => exact h
  | some c =>
      refine h.modify _ fun l hl => ?_
      obtain ⟨n, hattach⟩ := CommentText.exists_attach_eq o l.text c.value
      rw [attachComment, hattach, isBlankText_append, hl, Bool.false_and]

theorem isBlankText_put
    (l : Line) (a : Address) (t : Token) {printed : Text} (spaces : Nat) (h : printed.EndsInInk) :
    isBlankText (l.put a t printed spaces).text = false := by
  rw [put, isBlankText_append, h.isBlankText, Bool.and_false]

theorem closing?_of_leavesHollow
    {s : Statement} {c : Chain} (hbody : s.body = .chain c) (h : s.leavesHollow = true) :
    ∃ k t, closing? s c = some (k, t) ∧ t.isPeriod = true := by
  rw [Statement.leavesHollow, hbody, Bool.and_eq_true] at h
  obtain ⟨hpost, hlast⟩ := h
  obtain ⟨d, hpost⟩ := Option.isSome_iff_exists.mp hpost
  dsimp only at hlast
  split at hlast
  next cell hmember =>
    exact ⟨_, cell.token, by simp [closing?, hpost, hmember, Entry.cells, hlast]; rfl, hlast⟩
  next => simp at hlast

/-- The lines of the entries of a chain begin with its words. -/
theorem isBlankText_head_entriesLines
    {skip : Option Nat} {inlineFirst : Bool} {keyword : Line} {entries : List (Nat × Entry)}
    (indent : Nat) (h : isBlankText keyword.text = false) :
    ∃ above more, entriesLines o wanted ordinal indent skip inlineFirst keyword entries =
      above :: more ∧ isBlankText above.text = false := by
  unfold entriesLines
  dsimp only
  split
  · split
    · exact ⟨_, _, rfl, h⟩
    · exact ⟨_, _, rfl, by simp [absorb, isBlankText_append, h]⟩
  · exact ⟨_, _, rfl, h⟩

/-- A chain begins with its words, and a period that is printed apart ends it. -/
theorem framed_chainLines
    {s : Statement} {c : Chain} (hbody : s.body = .chain c) (hhollow : s.leavesHollow = true) :
    Framed (chainLines o wanted ordinal s c) := by
  obtain ⟨k, t, hclosing, ht⟩ := closing?_of_leavesHollow hbody hhollow
  unfold chainLines
  extract_lets indent keyword inlineFirst memberIndent closing entries skip lines period glued own
  refine framed_attachToLast (framed_attachToLast ?_)
  have hkeyword : isBlankText keyword.text = false := isBlankText_put _ _ _ 0 solid_colon.ends
  obtain ⟨above, more, hlines, habove⟩ := @isBlankText_head_entriesLines o wanted ordinal skip
    inlineFirst keyword entries memberIndent hkeyword
  have hperiod : period =
      [({} : Line).put ⟨ordinal, k⟩ t (tokenText o t none none) memberIndent] := by
    simp only [period, closing, hclosing]
    rfl
  have hglued : glued = glueFrom (joiner o) true above (more ++ period) := by
    simp only [glued, closing, hclosing, lines, hlines]
    rfl
  rw [hglued, hperiod]
  constructor
  · exact isBlankText_head?_glueFrom habove
  · rw [getLast?_glueFrom]
    intro l hl
    rw [Option.mem_some_iff] at hl
    have htext : t.text = ['.'] := by
      rw [Token.isPeriod, Bool.and_eq_true, beq_iff_eq, beq_iff_eq] at ht
      exact ht.2
    rw [← hl, tokenText_of_isPeriod o ht, htext]
    exact isBlankText_put _ _ _ _ ⟨[], '.', rfl, by decide⟩

theorem framed_statementLines
    {s : Statement} (hsound : s.Sound) (hfilled : s.Filled)
    (hsolid : ∀ row ∈ s.rows, ∀ t ∈ row, IsSolid o t) :
    Framed (statementLines o wanted ordinal s) := by
  cases hhollow : s.leavesHollow with
  | false =>
      have hlines := @distributed_statementLines o wanted ordinal False s hsound hfilled hsolid
        (by simp [hhollow])
      refine .of_forall fun l hl => ?_
      obtain ⟨share, hcomposed, -⟩ := hlines.exists_of_mem hl
      exact hcomposed.isBlankText
  | true =>
      cases hbody : s.body with
      | plain cells => simp [Statement.leavesHollow, hbody] at hhollow
      | chain c =>
          rw [statementLines_chain hbody]
          exact framed_chainLines hbody hhollow

/-- The last line of a document is not blank. -/
theorem isBlankText_last_linesFrom
    {previous : Option Statement} {statements : List Statement}
    (hframed : ∀ s ∈ statements, ∀ ordinal, Framed (statementLines o wanted ordinal s)) :
    ∀ l ∈ (linesFrom o wanted ordinal previous statements).getLast?, isBlankText l.text = false := by
  induction statements generalizing ordinal previous with
  | nil => simp [linesFrom]
  | cons s rest ih =>
      have hrest := fun ordinal previous => @ih ordinal previous fun t ht => hframed t (by simp [ht])
      have hs := hframed s (by simp) ordinal
      intro l hl
      rw [linesFrom_cons] at hl
      split at hl
      next hnone =>
        rw [hnone, List.replicate_zero, List.nil_append, List.nil_append] at hl
        exact hrest _ _ l hl
      next hsome =>
        rw [← List.append_assoc, List.getLast?_append, Option.mem_def, Option.or_eq_some_iff] at hl
        rcases hl with hl | ⟨-, hl⟩
        · exact hrest _ _ l hl
        · rw [List.getLast?_append_of_ne_nil _ hsome] at hl
          exact hs.last l hl

/-- A document begins with the first line of a statement. -/
theorem isBlankText_head_linesFrom
    {statements : List Statement}
    (hframed : ∀ s ∈ statements, ∀ ordinal, Framed (statementLines o wanted ordinal s)) :
    ∀ l ∈ (linesFrom o wanted ordinal none statements).head?, isBlankText l.text = false := by
  induction statements generalizing ordinal with
  | nil => simp [linesFrom]
  | cons s rest ih =>
      have hrest := fun ordinal => @ih ordinal fun t ht => hframed t (by simp [ht])
      intro l hl
      rw [linesFrom_cons] at hl
      split at hl
      next hnone =>
        rw [hnone, List.replicate_zero, List.nil_append, List.nil_append] at hl
        exact hrest _ l hl
      next hsome =>
        obtain ⟨first, more, hlines⟩ := List.exists_cons_of_ne_nil hsome
        refine (hframed s (by simp) ordinal).first l ?_
        simpa [blankLinesBetween, hlines] using hl

theorem framed_render
    {statements : List Statement} (hsound : ∀ s ∈ statements, s.Sound)
    (hfilled : ∀ s ∈ statements, s.Filled)
    (hsolid : ∀ s ∈ statements, ∀ row ∈ s.rows, ∀ t ∈ row, IsSolid o t) :
    Framed (render o wanted statements) := by
  have hframed : ∀ s ∈ statements, ∀ ordinal, Framed (statementLines o wanted ordinal s) :=
    fun s hs ordinal => framed_statementLines (hsound s hs) (hfilled s hs) (hsolid s hs)
  exact ⟨isBlankText_head_linesFrom hframed, isBlankText_last_linesFrom hframed⟩

end Rendering

/-! ## The texts of comments -/

/-- A comment to be printed beside the tokens is one that the statement carries. -/
theorem Statement.mark_mem_comments_of_mem_attached
    {s : Statement} {c : Comment} (h : c ∈ s.attached) :
    c.mark ∈ s.comments := by
  have hentry : ∀ e : Entry, c ∈ e.attached → c.mark ∈ e.comments := by
    intro e he
    cases e with
    | remark comment =>
        rw [Entry.attached, List.mem_singleton] at he
        simp [Entry.comments, he]
    | member cells trailing =>
        exact List.mem_append_right _ (List.mem_map_of_mem he)
  rw [Statement.comments, List.mem_append, List.mem_append]
  rw [Statement.attached, List.mem_append] at h
  rcases h with h | h
  · cases hbody : s.body with
    | plain cells =>
        rw [hbody, Body.attached] at h
        exact .inl (.inr (List.mem_map_of_mem h))
    | chain chain =>
        rw [hbody, Body.attached, List.mem_append, List.mem_flatMap] at h
        rcases h with ⟨e, he, h⟩ | h
        · exact .inl (.inl (List.mem_flatMap.mpr ⟨e, he, hentry e h⟩))
        · refine .inl (.inr (List.mem_map_of_mem ?_))
          split at h
          · simp at h
          · exact h
  · exact .inr (List.mem_map_of_mem h)

/-- The comments of the statements that are built are written as tokens of the source. -/
theorem solid_of_mem_attached
    {source : Text} {filename : Option String} {raws : List RawStatement} {built : List Statement}
    (hsplit : Source.split source filename = .ok raws) (hbuilt : assemble raws = .ok built) :
    ∀ s ∈ built, ∀ c ∈ s.attached, c.value.Solid := by
  obtain ⟨ts, hts, hcarried⟩ := assemble_comments hsplit hbuilt
  intro s hs c hc
  have hmark : c.mark ∈ commentMarks ts := hcarried.mem_iff.mp (List.mem_append_right _
    (List.mem_flatMap.mpr ⟨s, hs, Statement.mark_mem_comments_of_mem_attached hc⟩))
  obtain ⟨t, ht, heq⟩ := List.mem_map.mp hmark
  have hvalue : t.text = c.value := congrArg Prod.fst heq
  rw [← hvalue]
  exact (Source.lexed_of_mem_tokens hts t (List.mem_filter.mp ht).1).solid

theorem Comment.endsInInk_body {c : Comment} (h : c.body ≠ []) : c.body.EndsInInk := by
  have htrim : ∀ t : Text, trim t ≠ [] → (trim t).EndsInInk := fun t ht =>
    (trimRight_ends _).resolve_left ht
  unfold Comment.body at h ⊢
  split
  next hnil => simp [hnil] at h
  next first rest heq =>
    rw [heq] at h
    dsimp only at h
    split at h
    next hsign => simpa [hsign] using htrim rest h
    next hsign => simpa [hsign] using htrim _ h

namespace Bracket

/-- Whether a comment that is nothing but its sign is put into another one, or into one of its own. -/
def mergesBareSign (statements : List Statement) : Bool :=
  (List.range statements.length).any fun i => (taken? statements i).any fun c =>
    c.body.isEmpty && !(kept? statements i).any Comment.isPseudo

theorem TakesOver.solid
    {s s' : Statement} {kept taken : Option Comment} (h : TakesOver s s' kept taken)
    (hsound : s'.Sound) (hs : ∀ c ∈ s.attached, c.value.Solid)
    (hkept : ∀ c, kept = some c → c.value.Solid) (htaken : ∀ c, taken = some c → c.value.Solid)
    (hbody : ∀ c, taken = some c → (c.isPseudo || kept.any Comment.isPseudo) = false →
      c.body ≠ []) :
    ∀ c ∈ s'.attached, c.value.Solid := by
  have hcore : ∀ c ∈ s.core.1.attached s.core.2, c.value.Solid := fun c hc =>
    hs c (s.attached_perm.mem_iff.mpr (List.mem_append_left _ hc))
  intro c hc
  have hmem := s'.attached_perm.mem_iff.mp hc
  simp only [List.mem_append, Option.mem_toList, h.core] at hmem
  rcases hmem with hmem | hmem
  · exact hcore c hmem
  cases htakes : taken with
  | none =>
      obtain ⟨htrailing, hpost⟩ := h.alone htakes
      rw [htrailing, hpost] at hmem
      exact hkept c (by simpa using hmem)
  | some d =>
      cases hpseudo : d.isPseudo || kept.any Comment.isPseudo with
      | true =>
          obtain ⟨htrailing, hpost⟩ := h.apart d htakes hpseudo
          rw [htrailing, hpost] at hmem
          rcases hmem with hmem | hmem
          · exact hkept c hmem
          · exact htaken c (htakes.trans hmem)
      | false =>
          obtain ⟨hpost, m, htrailing, hvalue⟩ := h.merged d htakes hpseudo
          have hends := (Comment.endsInInk_body (hbody d htakes hpseudo)).append
          have hline := (hsound.isMarked_of_trailing htrailing).oneLine
          rw [htrailing, hpost] at hmem
          obtain rfl : c = m := by simpa [eq_comm] using hmem
          have hink : c.value.EndsInInk := by
            rw [hvalue]
            cases kept with
            | none => simpa [join] using hends (Comment.sign :: [' '])
            | some k =>
                simpa [join, List.intercalate] using
                  hends (Comment.sign :: ' ' :: (k.body ++ [';', ' ']))
          exact ⟨⟨Comment.sign, _, hvalue, by decide⟩, hink, hline⟩

end Bracket

/-! ## Sources -/

namespace Layout

/-- Whether the layout of a source may leave blank characters at the end of a line. -/
def leavesBlanks (source : Text) (filename : Option String) : Bool :=
  match Source.split source filename with
  | .error _ => false
  | .ok raws =>
    match assemble raws, arrange raws with
    | .ok built, .ok statements =>
      Bracket.mergesBareSign built || statements.any Statement.leavesHollow
    | _, _ => false

/-- Unless a bare sign is put into a comment, no comment to be printed ends in a blank character. -/
theorem solid_of_mem_attached_arrange
    {source : Text} {filename : Option String} {raws : List RawStatement}
    {built statements : List Statement} (hsplit : Source.split source filename = .ok raws)
    (hbuilt : assemble raws = .ok built) (harrange : arrange raws = .ok statements)
    (hsigns : Bracket.mergesBareSign built = false) :
    ∀ s ∈ statements, ∀ c ∈ s.attached, c.value.Solid := by
  obtain ⟨hgrouped, hsound, -⟩ := sound_of_split hsplit harrange
  have hwritten := solid_of_mem_attached hsplit hbuilt
  have htrailing : ∀ s ∈ built, ∀ c, s.trailing? = some c → c.value.Solid := fun s hs c hc =>
    hwritten s hs c (s.attached_perm.mem_iff.mpr (by simp [hc]))
  intro s' hs'
  obtain ⟨i, hi, rfl⟩ := List.getElem_of_mem hs'
  have hlength := length_arrange hbuilt harrange
  obtain ⟨s, hs⟩ : ∃ s, built[i]? = some s := ⟨_, List.getElem?_eq_getElem (hlength ▸ hi)⟩
  obtain ⟨t, ht, htakes⟩ := takesOver_arrange hgrouped hbuilt harrange hs
  rw [List.getElem?_eq_getElem hi, Option.some.injEq] at ht
  subst ht
  refine htakes.solid (hsound _ hs') (hwritten s (List.mem_of_getElem? hs)) ?_ ?_ ?_
  · intro c hc
    rcases Bracket.kept_or_moved hs with ⟨hkept, -⟩ | ⟨hkept, -⟩
    · exact htrailing s (List.mem_of_getElem? hs) c (hkept ▸ hc)
    · simp [hkept] at hc
  · intro c hc
    obtain ⟨next, hnext, hc⟩ := Bracket.trailing?_of_taken? hc
    exact htrailing next (List.mem_of_getElem? hnext) c hc
  · intro c hc hno
    rw [Bool.or_eq_false_iff] at hno
    have hplace : i ∈ List.range built.length := List.mem_range.mpr (hlength ▸ hi)
    have hsign := List.any_eq_false.mp hsigns i hplace
    simpa [hc, hno.2] using hsign

variable {source : Text} {filename : Option String} {raws : List RawStatement}
  {statements : List Statement}

/-- What is laid out has its statements at both ends. -/
theorem endsProperly_print
    (hsplit : Source.split source filename = .ok raws) (harrange : arrange raws = .ok statements)
    (o : Options) :
    print o statements = [] ∨ (print o statements).EndsProperly ∧
      ∀ l ∈ (Text.lines (print o statements)).head?, isBlankText l = false := by
  obtain ⟨hgrouped, hsound, hlexed⟩ := sound_of_split hsplit harrange
  have hlaid := laid_arranged hsound hlexed o
  have hframed : Framed (lines o statements) :=
    Rendering.framed_render hsound (filled_arrange hgrouped harrange) (isSolid_rows hlexed o)
  rcases List.eq_nil_or_concat (lines o statements) with hnone | ⟨front, last, hlines⟩
  · exact .inl (by simp [print, hnone, document])
  rw [List.concat_eq_append] at hlines
  refine .inr ⟨?_, fun l hl => ?_⟩
  · rw [print, hlines, List.map_append, List.map_singleton]
    refine endsProperly_document ?_ (hframed.last last (by simp [hlines]))
    have hline := List.forall_mem_map.mpr fun l hl => (hlaid l hl).oneLine
    simpa [hlines] using hline
  · rw [lines_print hlaid, List.head?_append_of_ne_nil _ (by simp [hlines]), List.head?_map,
      Option.mem_def, Option.map_eq_some_iff] at hl
    obtain ⟨k, hk, rfl⟩ := hl
    exact hframed.first k hk

/-- Where the layout leaves no blanks, lines end in tokens and comments. -/
theorem trimmed_print
    (hsplit : Source.split source filename = .ok raws) (harrange : arrange raws = .ok statements)
    (o : Options) (hclean : leavesBlanks source filename = false) :
    ∀ l ∈ Text.lines (print o statements), trimRight l = l := by
  obtain ⟨-, hsound, hlexed⟩ := sound_of_split hsplit harrange
  obtain ⟨built, hbuilt, -⟩ := map_eq_ok_iff.mp harrange
  simp only [leavesBlanks, hsplit, hbuilt, harrange, Bool.or_eq_false_iff] at hclean
  have hsolid := solid_of_mem_attached_arrange hsplit hbuilt harrange hclean.1
  have hfull : ¬ ∃ s ∈ statements, s.leavesHollow = true := by
    rw [← List.any_eq_true, hclean.2]
    simp
  intro l hl
  rw [lines_print (laid_arranged hsound hlexed o), List.mem_append, List.mem_map,
    List.mem_singleton] at hl
  rcases hl with ⟨k, hk, rfl⟩ | rfl
  · obtain ⟨share, hprinted, hshare⟩ := (distributed_render hsplit harrange o _).exists_of_mem hk
    rcases hprinted with ⟨rfl, -⟩ | hcomposed
    · rfl
    · simp only [hfull] at hcomposed
      refine hcomposed.trimRight fun c hc => ?_
      obtain ⟨s, hs, hc⟩ := List.mem_flatMap.mp (hshare c hc)
      exact hsolid s hs c hc
  · rfl

end Layout

/-! ## What is laid out is not empty -/

namespace Statement

/-- A statement with a comment behind it is not empty. -/
theorem isEmpty_setTrailing (s : Statement) (c : Comment) :
    (s.setTrailing (some c)).isEmpty = false := by
  unfold setTrailing
  split
  next hbody => simp [isEmpty, hbody]
  next hbody =>
    split
    · rfl
    · simp [isEmpty, hbody]

/-- Whether a statement is empty does not depend on where its lines end. -/
theorem isEmpty_withCells
    {s : Statement} {cells : List Cell} {t : Statement} (hbody : t.body = s.body.withCells cells)
    (hnote : t.note = s.note) (hlength : cells.length = s.cells.length) :
    t.isEmpty = s.isEmpty := by
  cases hs : s.body with
  | chain c => simp [isEmpty, hs, hbody, Body.withCells]
  | plain own =>
      have hcells : cells.isEmpty = own.isEmpty := by
        rw [Statement.cells, hs] at hlength
        rw [Bool.eq_iff_iff, List.isEmpty_iff_length_eq_zero, List.isEmpty_iff_length_eq_zero,
          hlength]
        rfl
      simp [isEmpty, hs, hbody, hnote, Body.withCells, hcells]

end Statement

namespace Bracket

/-- A statement that takes over a comment is not empty. -/
theorem isEmpty_receive {s : Statement} (h : s.isEmpty = false) (incoming : Comment) :
    (receive s incoming).isEmpty = false := by
  unfold receive
  dsimp only
  split
  · rw [← h]
    exact Statement.isEmpty_withCells (s := { s with post := some incoming }) rfl rfl (by
      rw [List.length_reverse, length_breakBeforePeriod, List.length_reverse])
  · exact s.isEmpty_setTrailing _

/-- No comment moves away from the first statement. -/
theorem isEmpty_head_reposition
    {s : Statement} {rest : List Statement} (h : s.isEmpty = false) :
    ∃ t more, reposition (s :: rest) = t :: more ∧ t.isEmpty = false := by
  have hswept : (sweepStatement s).isEmpty = false := by
    rw [← h]
    exact Statement.isEmpty_withCells rfl rfl (length_sweep s.cells)
  rw [reposition, List.map_cons, mergeAll]
  cases rest.map sweepStatement with
  | nil => exact ⟨_, [], rfl, hswept⟩
  | cons next others =>
      rw [mergeFrom]
      split
      next c _ => exact ⟨_, _, rfl, isEmpty_receive hswept c⟩
      next => exact ⟨_, _, rfl, hswept⟩

end Bracket

namespace Assembly

/-- No statement is put together from nothing. -/
theorem isEmpty_assemble
    {raws : List RawStatement} {statements : List Statement} (hgrouped : Grouped none raws)
    (h : assemble raws = .ok statements) :
    ∀ s ∈ statements, s.isEmpty = false := by
  refine forall_assemble hgrouped ?_ ?_ ?_ ?_ h
  · intro index shared colon first rest s hopening hall hs
    unfold ofChain at hs
    rw [hopening] at hs
    dsimp only at hs
    split at hs
    · simp at hs
    · obtain ⟨draft, -, rfl⟩ := map_eq_ok_iff.mp hs
      rfl
  · intro index body pragmas hends _
    have hrows := rows_ofSingle index pragmas hends
    cases hcells : (ofSingle index (RawStatement.ofTokens .none body pragmas)).body with
    | chain c => simp [Statement.isEmpty, hcells]
    | plain cells =>
        cases cells with
        | cons cell more => simp [Statement.isEmpty, hcells]
        | nil => simp [Statement.rows, Body.rows, hcells] at hrows
  · exact fun _ _ _ _ _ => rfl
  · exact fun s _ _ _ _ _ => s.isEmpty_setTrailing _

/-- Of raw statements something is put together. -/
theorem buildFrom_ne_nil
    {index : Nat} {previous : Option Statement} {raws : List RawStatement}
    {statements : List Statement} (hne : previous ≠ none ∨ raws ≠ [])
    (h : buildFrom index previous raws = .ok statements) :
    statements ≠ [] := by
  fun_induction buildFrom index previous raws generalizing statements with
  | case1 index previous =>
      injection h with h
      cases previous with
      | none => simp at hne
      | some s => simp [← h]
  | case2 => simp at h
  | case3 => simp at h
  | case4 index previous r rest colon hcolon n hextent s hbuilt ih =>
      obtain ⟨more, hmore, rfl⟩ := map_eq_ok_iff.mp h
      simp [ih (.inl (by simp)) hmore]
  | case5 => simp at h
  | case6 index previous r rest hcolon hkind finished s hadd ih =>
      obtain ⟨more, hmore, rfl⟩ := map_eq_ok_iff.mp h
      simp [ih (.inl (by simp)) hmore]
  | case7 index previous r rest hcolon hkind ih =>
      obtain ⟨more, hmore, rfl⟩ := map_eq_ok_iff.mp h
      simp [ih (.inl (by simp)) hmore]

end Assembly

/-- Lines without tokens are blank. -/
theorem isBlankText_of_tokenizeLines
    {first : Nat} {lines : List Text} (h : tokenizeLines first lines = .ok []) :
    ∀ l ∈ lines, isBlankText l = true := by
  induction lines generalizing first with
  | nil => simp
  | cons l rest ih =>
      rw [tokenizeLines] at h
      cases htokens : tokenize first l with
      | error fault => simp [htokens] at h
      | ok ts =>
          rw [htokens] at h
          obtain ⟨more, hmore, hnone⟩ := map_eq_ok_iff.mp h
          obtain ⟨rfl, rfl⟩ := List.append_eq_nil_iff.mp hnone
          refine List.forall_mem_cons.mpr ⟨List.all_eq_true.mpr fun c hc => ?_, ih hmore⟩
          obtain ⟨i, hi⟩ := List.getElem?_of_mem hc
          exact gaps_of_tokenize htokens hi (by simp)

/-- A source that is cut into statements has tokens. -/
theorem Source.tokens_ne_nil
    {source : Text} {ts : List Token} {raws : List RawStatement}
    (hts : tokens source = .ok ts) (h : splitText source = .ok raws) :
    ts ≠ [] := by
  rintro rfl
  have hblank := isBlankText_of_tokenizeLines hts
  unfold splitText at h
  split at h
  · simp at h
  next hnot =>
    refine hnot (List.all_eq_true.mpr fun c hc => ?_)
    rw [← unlines_lines (clean source)] at hc
    rcases mem_unlines hc with rfl | ⟨l, hl, hc⟩
    · decide
    · exact List.all_eq_true.mp (hblank l hl) c hc

namespace Layout

/-- What is laid out is not empty. -/
theorem lines_ne_nil
    {source : Text} {filename : Option String} {raws : List RawStatement}
    {statements : List Statement} (hsplit : Source.split source filename = .ok raws)
    (harrange : arrange raws = .ok statements) (o : Options) :
    lines o statements ≠ [] := by
  obtain ⟨ts, hts, hraws⟩ := Source.tokens_of_split hsplit
  have hrun := Unfinished.run_of_statements (Source.lexed_of_mem_tokens hts) hraws
  have hgrouped := hrun.grouped (.inl rfl)
  have hne : raws ≠ [] := by
    rintro rfl
    have hplain := (hrun.sameTokens_of_nodup (nodup_of_tokenizeLines hts)).perm.nil_eq
    have hpragmas := Unfinished.statements_pragmas hraws
    refine Source.tokens_ne_nil hts (Source.splitText_of_split hsplit)
      (List.eq_nil_iff_forall_not_mem.mpr fun t ht => ?_)
    cases hpragma : t.isPragma with
    | true => exact List.filter_eq_nil_iff.mp hpragmas.symm t ht hpragma
    | false => exact List.filter_eq_nil_iff.mp hplain.symm t ht (by simp [hpragma])
  obtain ⟨built, hbuilt, rfl⟩ := map_eq_ok_iff.mp harrange
  have hbuiltNe := Assembly.buildFrom_ne_nil (.inr hne) hbuilt
  obtain ⟨s, rest, hs⟩ := List.exists_cons_of_ne_nil (l := assignLevels (levels raws) built)
    (by simpa [assignLevels] using hbuiltNe)
  have hempty : s.isEmpty = false := by
    have hmem : s ∈ assignLevels (levels raws) built := by simp [hs]
    obtain ⟨t, ht, rfl⟩ := List.mem_map.mp hmem
    exact Assembly.isEmpty_assemble hgrouped hbuilt t ht
  obtain ⟨t, more, hmore, ht⟩ :=
    @Bracket.isEmpty_head_reposition s rest hempty
  rw [lines, Rendering.render, hs, hmore, Rendering.linesFrom_cons]
  simp [Rendering.statementLines_ne_nil o _ _ ht]

end Layout

namespace Text

theorem getLast?_dropEmptyEnd {ls : List Text} :
    ∀ l ∈ (dropEmptyEnd ls).getLast?, l ≠ [] := by
  induction ls with
  | nil => simp [dropEmptyEnd]
  | cons l rest ih =>
      rw [dropEmptyEnd]
      cases hrest : dropEmptyEnd rest with
      | nil => cases l <;> simp
      | cons next more => simpa [hrest] using ih

theorem head?_lines_trimLines (source : Text) :
    (lines (trimLines source)).head? = (lines (unifyBreaks source)).head?.map trimRight := by
  obtain ⟨k, hk⟩ := eq_dropEmptyEnd_append ((lines (unifyBreaks source)).map trimRight)
  rw [lines_trimLines, ← List.head?_map]
  conv_rhs => rw [hk]
  cases hlines : dropEmptyEnd ((lines (unifyBreaks source)).map trimRight) with
  | cons l rest => rfl
  | nil =>
      cases k with
      | succ k => rfl
      | zero =>
          rw [hlines] at hk
          exact absurd (List.map_eq_nil_iff.mp hk) (lines_ne_nil _)

/-- What is passed through has nothing to trim and begins as the source does. -/
theorem tidy_trimLines (source : Text) :
    (trimLines source = [] ∨ (trimLines source).EndsProperly) ∧
    (lines (trimLines source)).head? = (lines (unifyBreaks source)).head?.map trimRight ∧
    ∀ l ∈ lines (trimLines source), trimRight l = l := by
  have htrimmed : ∀ l ∈ dropEmptyEnd ((lines (unifyBreaks source)).map trimRight),
      trimRight l = l := by
    intro l hl
    obtain ⟨line, -, rfl⟩ := List.mem_map.mp (dropEmptyEnd_subset _ hl)
    exact trimRight_trimRight line
  refine ⟨?_, head?_lines_trimLines source, ?_⟩
  · rcases List.eq_nil_or_concat (dropEmptyEnd ((lines (unifyBreaks source)).map trimRight)) with
      hnone | ⟨front, last, hlines⟩
    · exact .inl (by simp [trimLines, hnone, document])
    · rw [List.concat_eq_append] at hlines
      have hlast : last ≠ [] := getLast?_dropEmptyEnd last (by rw [hlines]; simp)
      rw [trimLines, hlines]
      refine .inr (endsProperly_document ?_ (isBlankText_of_trimmed (htrimmed last ?_) hlast))
      · rw [← hlines]
        exact fun l => oneLine_of_mem_trimmed
      · simp [hlines]
  · rw [lines_trimLines]
    intro l hl
    rw [List.mem_append, List.mem_singleton] at hl
    rcases hl with hl | rfl
    · exact htrimmed l hl
    · rfl

end Text

/-- Every formatted text is empty or ends in one line feed, behind a line that is not blank.  What is
laid out does not begin with a blank line, and what is passed through begins as the source does.  No
line ends in a blank character, unless it has been laid out and the layout may leave one there. -/
theorem format_tidy
    {o : Options} {source : Text} {filename : Option String} {f : Formatted}
    (h : Layout.format o source filename = .ok f) :
    (f.text = [] ∨ f.text.EndsProperly) ∧
    (f.rejection = none → f.text ≠ [] → ∀ l ∈ (lines f.text).head?, isBlankText l = false) ∧
    (f.rejection ≠ none →
      (lines f.text).head? = (lines (unifyBreaks source)).head?.map trimRight) ∧
    (f.rejection ≠ none ∨ Layout.leavesBlanks source filename = false →
      ∀ l ∈ lines f.text, trimRight l = l) := by
  cases hrejection : f.rejection with
  | none =>
      obtain ⟨raws, statements, hsplit, harrange, rfl⟩ := Layout.format_eq_ok h hrejection
      have hends := Layout.endsProperly_print hsplit harrange o
      refine ⟨hends.imp_right And.left, fun _ hne => ?_, by simp, fun hclean => ?_⟩
      · exact (hends.resolve_left hne).2
      · exact Layout.trimmed_print hsplit harrange o (hclean.resolve_left (by simp))
  | some rejection =>
      have htext : f.text = trimLines source := by
        unfold Layout.format at h
        split at h
        · injection h with h
          rw [← h]
        · obtain ⟨statements, -, rfl⟩ := map_eq_ok_iff.mp h
          simp at hrejection
      obtain ⟨hends, hfirst, htrimmed⟩ := tidy_trimLines source
      rw [htext]
      exact ⟨hends, by simp, fun _ => hfirst, fun _ => htrimmed⟩

/-- The case of two comments that are put into one, and of a bracket that moves up. -/
theorem format_tidy_merged :
    ∃ f, Layout.format .default "foo( a \"x\n). bar. \"y\n".toList none = .ok f ∧
      f.rejection = none ∧ f.text.IsTidy := by
  have hformat : Layout.format .default "foo( a \"x\n). bar. \"y\n".toList none =
      .ok { text := "foo( a ). \" x; y\nbar.\n".toList } := eq_ok_of_toOption (by decide +kernel)
  obtain ⟨hends, hfirst, -, htrimmed⟩ := format_tidy hformat
  exact ⟨_, hformat, rfl, htrimmed (.inr (by decide +kernel)),
    hends.imp_right fun hends => ⟨hends, hfirst rfl (by decide)⟩⟩

/-- A source that is passed through keeps a blank line at its beginning. -/
theorem format_not_tidy_passedThrough :
    ∃ f, Layout.format .default "\nfoo".toList none = .ok f ∧ ¬ f.text.IsTidy := by
  have hformat : Layout.format .default "\nfoo".toList none =
      .ok { text := "\nfoo\n".toList, rejection := some (.unterminated 2) } :=
    eq_ok_of_toOption (by decide +kernel)
  refine ⟨_, hformat, fun h => ?_⟩
  rcases h.ends with hempty | ⟨-, hfirst⟩
  · simp at hempty
  · exact absurd (hfirst [] (by decide)) (by decide)

/-- A comment that is nothing but its sign is put into another one, which ends in a blank. -/
example : Layout.leavesBlanks "foo( a \"x\n). \"\n".toList none = true := by
  decide +kernel

/-- The last member of a chain is nothing but the period that stands on a line of its own. -/
example : Layout.leavesBlanks "foo: a( b\n), . bar. \"#EC X\n".toList none = true := by
  decide +kernel

end AbapLayout
