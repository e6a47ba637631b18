import AbapLayout.Proofs.CarriedComments
import AbapLayout.Proofs.Faults
import Mathlib.Data.List.Chain

/-!
# Full-line comments in print

A printed line is a full-line comment if it begins with an asterisk that is not code.  Gluing lines
together and putting comments behind them keeps such lines, as long as no comment is put behind one of
them.  So a plain statement prints its full-line comments on lines of their own, if its lines end in
front of them, and a chain prints those between its members (`fullLines_statementLines`).
-/

namespace AbapLayout

open Text

/-- The full-line comment that an entry of a chain is printed as, if it is one. -/
def Entry.fullLine? : Entry → Option Text
  | .member _ _ => none
  | .remark c => if Comment.isStarText c.value then some (trimRight c.value) else none

/-- Whether the full-line comments of a chain stand between its members, none inside or behind. -/
structure Chain.FullLinesBetween (c : Chain) : Prop where
  cells : ∀ e ∈ c.entries, ∀ cell ∈ e.cells, cell.token.isStarComment = false
  last : ∀ e ∈ c.entries.getLast?, e.fullLine? = none

namespace Line

/-- Whether the first token on a line is not a comment. -/
def beginsWithCode (l : Line) : Bool :=
  l.placements.head?.any fun p => !p.token.isComment

/-- Whether a line begins with an asterisk that is not code. -/
def isFullLine (l : Line) : Bool :=
  Comment.isStarText l.text && !l.beginsWithCode

theorem isFullLine_of_code {l : Line} (h : l.beginsWithCode = true) : l.isFullLine = false := by
  simp [isFullLine, h]

theorem isFullLine_of_text
    {l : Line} (h : Comment.isStarText l.text = false) :
    l.isFullLine = false := by
  simp [isFullLine, h]

theorem isStarText_blanks_append (n : Nat) {t : Text} (h : Comment.isStarText t = false) :
    Comment.isStarText (blanks n ++ t) = false := by
  cases n with
  | zero => simpa using h
  | succ n => simp [Comment.isStarText, blanks, List.replicate_succ]

theorem beginsWithCode_put
    {l : Line} (h : l.beginsWithCode = true) (a : Address) (t : Token) (printed : Text)
    (spaces : Nat) :
    (l.put a t printed spaces).beginsWithCode = true := by
  unfold beginsWithCode at *
  cases hps : l.placements with
  | nil => simp [hps] at h
  | cons p ps => simpa [put, hps] using h

theorem beginsWithCode_absorb
    {l : Line} (h : l.beginsWithCode = true) (other : Line) (joiner : Text) :
    (l.absorb other joiner).beginsWithCode = true := by
  unfold beginsWithCode at *
  cases hps : l.placements with
  | nil => simp [hps] at h
  | cons p ps => simpa [absorb, hps] using h

theorem isFullLine_indent
    {l : Line} (h : l.isFullLine = false) (n : Nat) :
    (l.indent n).isFullLine = false := by
  rw [isFullLine, Bool.and_eq_false_iff] at h ⊢
  rcases h with h | h
  · exact .inl (isStarText_blanks_append n h)
  · refine .inr ?_
    rw [← h, beginsWithCode, beginsWithCode, indent, List.head?_map, Option.any_map]

theorem filter_isFullLine_eq_nil
    {lines : List Line} (h : ∀ l ∈ lines, l.isFullLine = false) :
    lines.filter isFullLine = [] := by
  rw [List.filter_eq_nil_iff]
  exact fun l hl => by simp [h l hl]

/-- What holds of the lines that are known to be the full-line comments. -/
theorem forall_isFullLine
    {α : Type} {P : Line → Prop} {f : α → Line} {xs : List α} {lines : List Line}
    (h : lines.filter isFullLine = xs.map f) (hf : ∀ x ∈ xs, P (f x)) :
    ∀ l ∈ lines, l.isFullLine = true → P l := by
  intro l hl hline
  have hl : l ∈ lines.filter isFullLine := List.mem_filter.mpr ⟨hl, hline⟩
  rw [h] at hl
  obtain ⟨x, hx, rfl⟩ := List.mem_map.mp hl
  exact hf x hx

theorem isFullLine_getLast?_append
    {front back : List Line} (hfront : ∀ l ∈ front.getLast?, l.isFullLine = false)
    (hback : ∀ l ∈ back.getLast?, l.isFullLine = false) :
    ∀ l ∈ (front ++ back).getLast?, l.isFullLine = false := by
  intro l hl
  rw [List.getLast?_append, Option.mem_def, Option.or_eq_some_iff] at hl
  rcases hl with hl | ⟨-, hl⟩
  · exact hback l hl
  · exact hfront l hl

/-! ## Gluing -/

/-- Nothing but code is glued, and what comes of it is no full-line comment. -/
theorem isFullLine_absorb
    {above l : Line} (k : Nat) (h : above.isFullLine = false)
    (hbegins : l.beginsWithTerminator = true) :
    (above.absorb l (blanks k)).isFullLine = false := by
  rw [isFullLine, Bool.and_eq_false_iff] at h
  rcases h with h | h
  · refine isFullLine_of_text ?_
    cases htext : above.text with
    | nil =>
        rw [absorb, htext, List.nil_append]
        refine isStarText_blanks_append k ?_
        unfold beginsWithTerminator at hbegins
        split at hbegins
        · simp at hbegins
        next c cs htrim =>
          simp only [htrim, Comment.isStarText, List.head?_cons, beq_eq_false_iff_ne, ne_eq,
            Option.some.injEq]
          rintro rfl
          simp at hbegins
    | cons c cs =>
        rw [htext] at h
        simpa [absorb, htext, Comment.isStarText] using h
  · exact isFullLine_of_code (beginsWithCode_absorb (by simpa using h) l _)

theorem isFullLine_of_beginsWithTerminator
    {l : Line} (h : l.beginsWithTerminator = true) :
    l.isFullLine = false := by
  refine isFullLine_of_text ?_
  rw [Comment.isStarText, beq_eq_false_iff_ne]
  intro hhead
  obtain ⟨cs, htext⟩ := List.head?_eq_some_iff.mp hhead
  rw [beginsWithTerminator, htext, trimLeft_cons (by decide)] at h
  simp at h

variable {above : Line} {lines : List Line} {k : Nat} {keepLast : Bool}

/-- Gluing lines together keeps full-line comments as they are. -/
theorem filter_isFullLine_glueFrom
    (h : ∀ l ∈ above :: lines, l.isFullLine = true → l.endsInComment = true) :
    (glueFrom (blanks k) keepLast above lines).filter isFullLine =
      (above :: lines).filter isFullLine := by
  induction lines generalizing above with
  | nil => rfl
  | cons l rest ih =>
      rw [List.forall_mem_cons] at h
      rw [glueFrom]
      split
      next hglue =>
        simp only [Bool.and_eq_true, Bool.not_eq_true'] at hglue
        have habove : above.isFullLine = false := by
          refine Bool.eq_false_iff.mpr fun hfull => ?_
          simp [h.1 hfull] at hglue
        have hjoined := isFullLine_absorb k habove hglue.1.1
        rw [ih (List.forall_mem_cons.mpr ⟨by simp [hjoined], (List.forall_mem_cons.mp h.2).2⟩)]
        simp [habove, hjoined, isFullLine_of_beginsWithTerminator hglue.1.1]
      next => rw [List.filter_cons, ih h.2, ← List.filter_cons]

theorem isFullLine_getLast?_glueFrom
    (h : ∀ l ∈ above :: lines, l.isFullLine = true → l.endsInComment = true)
    (hlast : ∀ l ∈ (above :: lines).getLast?, l.isFullLine = false) :
    ∀ l ∈ (glueFrom (blanks k) keepLast above lines).getLast?, l.isFullLine = false := by
  induction lines generalizing above with
  | nil => exact hlast
  | cons l rest ih =>
      rw [List.forall_mem_cons] at h
      rw [glueFrom]
      split
      next hglue =>
        simp only [Bool.and_eq_true, Bool.not_eq_true'] at hglue
        have habove : above.isFullLine = false := by
          refine Bool.eq_false_iff.mpr fun hfull => ?_
          simp [h.1 hfull] at hglue
        have hjoined := isFullLine_absorb k habove hglue.1.1
        refine ih (List.forall_mem_cons.mpr ⟨by simp [hjoined], (List.forall_mem_cons.mp h.2).2⟩) ?_
        cases rest with
        | nil => simpa using hjoined
        | cons next rest => simpa using hlast
      next =>
        have hne := Rendering.glue_ne_nil (blanks k) keepLast (List.cons_ne_nil l rest)
        rw [glue] at hne
        rw [List.getLast?_cons_of_ne_nil hne]
        exact ih h.2 (by simpa using hlast)

theorem filter_isFullLine_glue
    (h : ∀ l ∈ lines, l.isFullLine = true → l.endsInComment = true) :
    (glue (blanks k) keepLast lines).filter isFullLine = lines.filter isFullLine := by
  cases lines with
  | nil => rfl
  | cons above rest => exact filter_isFullLine_glueFrom h

theorem isFullLine_getLast?_glue
    (h : ∀ l ∈ lines, l.isFullLine = true → l.endsInComment = true)
    (hlast : ∀ l ∈ lines.getLast?, l.isFullLine = false) :
    ∀ l ∈ (glue (blanks k) keepLast lines).getLast?, l.isFullLine = false := by
  cases lines with
  | nil => exact hlast
  | cons above rest => exact isFullLine_getLast?_glueFrom h hlast

end Line

/-! ## Comments behind lines -/

theorem CommentText.head?_normalize (o : Options) (value : Text) :
    (CommentText.normalize o value).head? = value.head? := by
  unfold CommentText.normalize
  split
  · split
    next first following rest heq =>
      split
      · have hvalue := List.takeWhile_append_dropWhile (p := isBlank) (l := value)
        rw [heq] at hvalue
        conv_rhs => rw [← hvalue]
        cases value.takeWhile isBlank <;> rfl
      · rfl
    next => rfl
  · rfl

namespace Rendering

open Line

variable {o : Options}

theorem isFullLine_attachComment
    {l : Line} {c : Comment} (h : l.isFullLine = false) (hc : c.IsSigned) :
    (attachComment o c l).isFullLine = false := by
  obtain ⟨text, hline, hvalue⟩ := hc
  obtain ⟨n, comment, -, hattach⟩ := CommentText.attach_eq o l.text hline
  have htext : (attachComment o c l).text = l.text ++ (blanks n ++ Comment.sign :: comment) := by
    rw [attachComment, hvalue]
    exact hattach
  rw [isFullLine, Bool.and_eq_false_iff] at h ⊢
  rcases h with h | h
  · refine .inl ?_
    rw [htext]
    cases hl : l.text with
    | nil => exact isStarText_blanks_append n rfl
    | cons first rest => simpa [Comment.isStarText, hl] using h
  · exact .inr h

/-- Other lines than full-line comments may be changed to others again. -/
theorem filter_isFullLine_modify
    {f : Line → Line} {i : Nat} {lines : List Line}
    (h : ∀ l, lines[i]? = some l → l.isFullLine = false ∧ (f l).isFullLine = false) :
    (lines.modify i f).filter isFullLine = lines.filter isFullLine := by
  induction lines generalizing i with
  | nil => simp
  | cons l rest ih =>
      cases i with
      | zero =>
          obtain ⟨hold, hnew⟩ := h l rfl
          simp [hold, hnew]
      | succ i => rw [List.modify_succ_cons, List.filter_cons, ih h, ← List.filter_cons]

theorem isFullLine_getLast?_modify
    {f : Line → Line} (i : Nat) {lines : List Line}
    (hf : ∀ l, l.isFullLine = false → (f l).isFullLine = false)
    (h : ∀ l ∈ lines.getLast?, l.isFullLine = false) :
    ∀ l ∈ (lines.modify i f).getLast?, l.isFullLine = false := by
  rw [List.getLast?_eq_getElem?] at h ⊢
  rw [List.length_modify, List.getElem?_modify]
  intro l hl
  obtain ⟨k, hk, rfl⟩ := Option.map_eq_some_iff.mp hl
  split
  · exact hf k (h k hk)
  · exact h k hk

/-- A comment behind the last line changes no full-line comment, unless this is one. -/
theorem isFullLine_attachToLast
    {comment : Option Comment} {lines : List Line} (hcomment : ∀ c ∈ comment, c.IsSigned)
    (hlast : ∀ l ∈ lines.getLast?, l.isFullLine = false) :
    (attachToLast o comment lines).filter isFullLine = lines.filter isFullLine ∧
      ∀ l ∈ (attachToLast o comment lines).getLast?, l.isFullLine = false := by
  cases comment with
  | none => exact ⟨rfl, hlast⟩
  | some c =>
      have hattached : ∀ l : Line, l.isFullLine = false →
          (attachComment o c l).isFullLine = false :=
        fun l hl => isFullLine_attachComment hl (hcomment c rfl)
      refine ⟨filter_isFullLine_modify fun l hl => ?_, isFullLine_getLast?_modify _ hattached hlast⟩
      have hl := hlast l (by rw [List.getLast?_eq_getElem?]; exact hl)
      exact ⟨hl, hattached l hl⟩

/-- A comment behind the line on which it stands in the source changes no full-line comment, as
these stand on other lines. -/
theorem isFullLine_attachTrailing
    {comment : Option Comment} {lines : List Line} (hcomment : ∀ c ∈ comment, c.IsSigned)
    (hlast : ∀ l ∈ lines.getLast?, l.isFullLine = false)
    (hapart : ∀ c ∈ comment, ∀ l ∈ lines, l.isFullLine = true →
      ¬(l.startLine ≤ c.span.startLine ∧ c.span.startLine ≤ l.endLine)) :
    (attachTrailing o comment lines).filter isFullLine = lines.filter isFullLine ∧
      ∀ l ∈ (attachTrailing o comment lines).getLast?, l.isFullLine = false := by
  cases comment with
  | none => exact ⟨rfl, hlast⟩
  | some c =>
      have hattached : ∀ l : Line, l.isFullLine = false →
          (attachComment o c l).isFullLine = false :=
        fun l hl => isFullLine_attachComment hl (hcomment c rfl)
      unfold attachTrailing
      dsimp only
      split
      next i hfound =>
        refine ⟨filter_isFullLine_modify fun l hl => ?_,
          isFullLine_getLast?_modify i hattached hlast⟩
        obtain ⟨hi, hhere, -⟩ := List.findIdx?_eq_some_iff_getElem.mp hfound
        obtain ⟨hlt, rfl⟩ := List.getElem?_eq_some_iff.mp hl
        have hl : lines[i].isFullLine = false := by
          refine Bool.eq_false_iff.mpr fun hfull => ?_
          exact hapart c rfl _ (List.getElem_mem hlt) hfull (by simpa using hhere)
        exact ⟨hl, hattached _ hl⟩
      next => exact isFullLine_attachToLast hcomment hlast

/-! ## Plain statements -/

/-- A line ends in front of a full-line comment. -/
def BreaksBefore (c d : Cell) : Prop :=
  d.token.isStarComment = true → c.breakAfter = true

/-- The line of a full-line comment among tokens. -/
def starLine (a : Address) (t : Token) : Line :=
  { ({} : Line).put a t t.text 0 with fixed := true }

theorem isFullLine_starLine
    (a : Address) {t : Token} (h : t.isStarComment = true) :
    (starLine a t).isFullLine = true := by
  rw [Token.isStarComment, Bool.and_eq_true] at h
  simpa [starLine, put, isFullLine, beginsWithCode, Comment.isStarText, h.1, blanks] using h.2

theorem isStarText_tokenText
    {t : Token} {previous before : Option Token} (h : t.isStarComment = false)
    (hcomment : t.isComment = true) :
    Comment.isStarText (tokenText o t previous before) = false := by
  rw [tokenText, if_neg (by simp [h]), if_pos hcomment, Comment.isStarText,
    CommentText.head?_normalize]
  simpa [Token.isStarComment, hcomment] using h

/-- The first token of a line makes it a full-line comment only if it is one. -/
theorem isFullLine_beginLine
    {indent startColumn : Nat} {a : Address} {t : Token} {previous before : Option Token}
    (h : t.isStarComment = false) :
    (beginLine o indent startColumn a t previous before).isFullLine = false ∧
      (t.isComment = false →
        (beginLine o indent startColumn a t previous before).beginsWithCode = true) := by
  unfold beginLine
  dsimp only
  rw [if_neg (by simp [h])]
  refine ⟨?_, fun hcode => by simp [put, beginsWithCode, hcode]⟩
  cases hcomment : t.isComment with
  | false => exact isFullLine_of_code (by simp [put, beginsWithCode, hcomment])
  | true =>
      refine isFullLine_of_text ?_
      simpa [put] using isStarText_blanks_append _ (isStarText_tokenText h hcomment)

/-- Among the lines of cells those of the full-line comments are the full-line comments. -/
theorem filter_isFullLine_cellLines
    {wanted : WantedBlanks} {indent startColumn : Nat} {previous before : Option Token}
    {current : Option Line} {cells : List (Address × Cell)}
    (hcurrent : ∀ l ∈ current, l.beginsWithCode = true)
    (hfirst : current ≠ none → ∀ c ∈ cells.head?, c.2.token.isStarComment = false)
    (hbreaks : ∀ c ∈ cells, c.2.token.isComment = true → c.2.breakAfter = true)
    (hchain : cells.IsChain fun c d => BreaksBefore c.2 d.2) :
    (cellLines o wanted indent startColumn previous before current cells).filter isFullLine =
      (cells.filter fun c => c.2.token.isStarComment).map fun c => starLine c.1 c.2.token := by
  induction cells generalizing previous before current with
  | nil =>
      cases current with
      | none => rfl
      | some l => simp [cellLines, isFullLine_of_code (hcurrent l rfl)]
  | cons head rest ih =>
      obtain ⟨a, cell⟩ := head
      rw [List.forall_mem_cons] at hbreaks
      obtain ⟨hnext, hrest⟩ := List.isChain_cons.mp hchain
      obtain ⟨line, hgrown, heq⟩ := @cellLines_cons o wanted indent startColumn previous before
        current a cell rest
      rw [heq]
      cases hstar : cell.token.isStarComment with
      | true =>
          have hcomment : cell.token.isComment = true := by
            rw [Token.isStarComment, Bool.and_eq_true] at hstar
            exact hstar.1
          have hline : line = starLine a cell.token := by
            rcases hgrown with ⟨-, rfl⟩ | ⟨l, rfl, -⟩
            · simp [beginLine, tokenText, hstar, starLine]
            · have := hfirst (by simp) (a, cell) rfl
              simp [hstar] at this
          rw [if_pos (hbreaks.1 hcomment), List.filter_cons_of_pos
            (hline ▸ isFullLine_starLine a hstar), ih (by simp) (by simp) hbreaks.2 hrest, hline]
          simp [hstar]
      | false =>
          have hline : line.isFullLine = false ∧
              (cell.token.isComment = false → line.beginsWithCode = true) := by
            rcases hgrown with ⟨-, rfl⟩ | ⟨l, rfl, rfl⟩
            · exact isFullLine_beginLine hstar
            · have hcode := beginsWithCode_put (hcurrent l rfl) a cell.token
                (tokenText o cell.token previous before)
                (Spacing.printed o (wanted a) cell.token previous)
              exact ⟨isFullLine_of_code hcode, fun _ => hcode⟩
          split
          next hbreak =>
            rw [List.filter_cons_of_neg (by simp [hline.1]),
              ih (by simp) (by simp) hbreaks.2 hrest]
            simp [hstar]
          next hbreak =>
            have hcode : cell.token.isComment = false :=
              Bool.eq_false_iff.mpr fun hcomment => hbreak (hbreaks.1 hcomment)
            rw [ih (by simpa using hline.2 hcode) ?_ hbreaks.2 hrest]
            · simp [hstar]
            · intro _ d hd
              exact Bool.eq_false_iff.mpr fun hd' => hbreak (hnext d hd hd')

theorem isFullLine_getLast?_cellLines
    {wanted : WantedBlanks} {indent startColumn : Nat} {previous before : Option Token}
    {current : Option Line} {cells : List (Address × Cell)}
    (hcurrent : ∀ l ∈ current, l.beginsWithCode = true)
    (hbreaks : ∀ c ∈ cells, c.2.token.isComment = true → c.2.breakAfter = true)
    (hlast : ∀ c ∈ cells.getLast?, c.2.token.isComment = false) :
    ∀ l ∈ (cellLines o wanted indent startColumn previous before current cells).getLast?,
      l.isFullLine = false := by
  induction cells generalizing previous before current with
  | nil =>
      intro l hl
      cases current with
      | none => simp [cellLines] at hl
      | some k =>
          have hlk : k = l := by simpa [cellLines] using hl
          exact isFullLine_of_code (hcurrent l (by simp [hlk]))
  | cons head rest ih =>
      obtain ⟨a, cell⟩ := head
      rw [List.forall_mem_cons] at hbreaks
      obtain ⟨line, hgrown, heq⟩ := @cellLines_cons o wanted indent startColumn previous before
        current a cell rest
      have hline : cell.token.isComment = false → line.beginsWithCode = true := by
        intro hcode
        rcases hgrown with ⟨-, rfl⟩ | ⟨l, rfl, rfl⟩
        · refine (isFullLine_beginLine ?_).2 hcode
          simp [Token.isStarComment, hcode]
        · exact beginsWithCode_put (hcurrent l rfl) a cell.token _ _
      rw [heq]
      cases rest with
      | nil =>
          have hcode := hlast (a, cell) rfl
          split <;> simpa [cellLines] using isFullLine_of_code (hline hcode)
      | cons next rest =>
          have hmore : ∀ c ∈ (next :: rest).getLast?, c.2.token.isComment = false := by
            simpa using hlast
          split
          · rw [List.getLast?_cons_of_ne_nil
              (cellLines_ne_nil o wanted indent startColumn _ _ (.inr (List.cons_ne_nil _ _)))]
            exact ih (by simp) hbreaks.2 hmore
          next hbreak =>
            have hcode : cell.token.isComment = false :=
              Bool.eq_false_iff.mpr fun hcomment => hbreak (hbreaks.1 hcomment)
            exact ih (by simpa using hline hcode) hbreaks.2 hmore

/-- Where the full-line comments among the tokens of a statement stand: the line ends in front of
them and behind them, they are not the last token, and the comment behind the statement stands on
another line. -/
structure FullLinesApart (cells : List Cell) (note : Option Comment) : Prop where
  breaks : ∀ cell ∈ cells, cell.token.isComment = true → cell.breakAfter = true
  chain : cells.IsChain BreaksBefore
  last : ∀ cell ∈ cells.getLast?, cell.token.isComment = false
  note : ∀ c ∈ note, ∀ cell ∈ cells, cell.token.isStarComment = true →
    c.span.startLine ≠ cell.token.span.startLine

theorem isStarText_trimRight (t : Text) :
    Comment.isStarText (trimRight t) = Comment.isStarText t := by
  cases t with
  | nil => rfl
  | cons c cs =>
      obtain ⟨s, hs, -⟩ := eq_trimRight_append (c :: cs)
      cases htrim : trimRight (c :: cs) with
      | cons d ds =>
          rw [htrim] at hs
          rw [(List.cons.inj hs).1]
          rfl
      | nil =>
          have hne : c ≠ '*' := by
            rintro rfl
            have hhead := head?_trimRight (c := '*') (by decide) cs
            simp [htrim] at hhead
          simpa [Comment.isStarText] using hne

theorem isFullLine_trimRight (l : Line) :
    ({ l with text := trimRight l.text } : Line).isFullLine = l.isFullLine := by
  simp only [isFullLine, isStarText_trimRight]
  rfl

/-- The lines of cells without blanks at their ends. -/
theorem isFullLine_trimmedCellLines
    {wanted : WantedBlanks} {indent startColumn ordinal : Nat} {cells : List Cell}
    {note : Option Comment} {lines : List Line} (h : FullLinesApart cells note)
    (hlines : lines = (cellLines o wanted indent startColumn none none none
      (addressed ordinal 0 cells)).map fun l => { l with text := trimRight l.text }) :
    lines.filter isFullLine =
        ((addressed ordinal 0 cells).filter fun c => c.2.token.isStarComment).map
          (fun c => { starLine c.1 c.2.token with text := trimRight c.2.token.text }) ∧
      ∀ l ∈ lines.getLast?, l.isFullLine = false := by
  have hsnd := map_snd_addressed ordinal 0 cells
  have hbreaks : ∀ c ∈ addressed ordinal 0 cells, c.2.token.isComment = true →
      c.2.breakAfter = true := fun c hc => h.breaks c.2 (mem_of_mem_addressed hc)
  have hchain : (addressed ordinal 0 cells).IsChain fun c d => BreaksBefore c.2 d.2 := by
    rw [← List.isChain_map (R := BreaksBefore) Prod.snd, hsnd]
    exact h.chain
  have hend : ∀ c ∈ (addressed ordinal 0 cells).getLast?, c.2.token.isComment = false := by
    intro c hc
    refine h.last c.2 ?_
    rw [← hsnd, List.getLast?_map, Option.mem_def.mp hc]
    rfl
  have hcomp : (isFullLine ∘ fun l : Line => { l with text := trimRight l.text }) = isFullLine :=
    funext isFullLine_trimRight
  rw [hlines]
  constructor
  · rw [List.filter_map, hcomp, filter_isFullLine_cellLines (by simp) (by simp) hbreaks hchain,
      List.map_map]
    refine List.map_congr_left fun c _ => ?_
    simp [starLine, put, blanks]
  · rw [List.getLast?_map]
    intro l hl
    obtain ⟨k, hk, rfl⟩ := Option.map_eq_some_iff.mp hl
    rw [isFullLine_trimRight]
    exact isFullLine_getLast?_cellLines (by simp) hbreaks hend k hk

/-- A plain statement prints the full-line comments among its tokens on lines of their own. -/
theorem fullLines_plainLines
    {wanted : WantedBlanks} {ordinal : Nat} {s : Statement} {cells : List Cell}
    (h : FullLinesApart cells s.note) (hnote : ∀ c ∈ s.note, c.IsSigned)
    (hpost : ∀ c ∈ s.post, c.IsSigned) :
    ((plainLines o wanted ordinal s cells).filter isFullLine).map (·.text) =
      (cells.filter fun c => c.token.isStarComment).map fun c => trimRight c.token.text := by
  obtain ⟨k, hk⟩ := joiner_eq_blanks o
  unfold plainLines
  dsimp only
  rw [hk]
  generalize hlines : (List.map (fun l : Line => { l with text := trimRight l.text }) _) = lines
  obtain ⟨hfull, hlast⟩ := isFullLine_trimmedCellLines h hlines.symm
  have hends : ∀ l ∈ lines, l.isFullLine = true → l.endsInComment = true := by
    refine forall_isFullLine hfull fun c hc => ?_
    have hstar := (List.mem_filter.mp hc).2
    rw [Token.isStarComment, Bool.and_eq_true] at hstar
    exact hstar.1
  have hglued : (glue (blanks k) s.post.isSome lines).filter isFullLine =
      lines.filter isFullLine := filter_isFullLine_glue hends
  -- The lines of full-line comments stand where these stand in the source.
  have hapart : ∀ c ∈ s.note, ∀ l ∈ glue (blanks k) s.post.isSome lines, l.isFullLine = true →
      ¬(l.startLine ≤ c.span.startLine ∧ c.span.startLine ≤ l.endLine) := by
    intro c hc
    refine forall_isFullLine (hglued.trans hfull) fun d hd hhere => ?_
    obtain ⟨hd, hstar⟩ := List.mem_filter.mp hd
    exact h.note c hc d.2 (mem_of_mem_addressed hd) hstar (Nat.le_antisymm hhere.2 hhere.1)
  obtain ⟨htrailing, htrailingLast⟩ := isFullLine_attachTrailing (o := o) hnote
    (isFullLine_getLast?_glue hends hlast) hapart
  have hstars : (cells.filter fun c => c.token.isStarComment) =
      ((addressed ordinal 0 cells).filter fun c => c.2.token.isStarComment).map Prod.snd := by
    conv_lhs => rw [← map_snd_addressed ordinal 0 cells]
    rw [List.filter_map]
    rfl
  rw [(isFullLine_attachToLast hpost htrailingLast).1, htrailing, hglued, hfull, List.map_map,
    hstars, List.map_map]
  rfl

/-! ## Chains -/

/-- Lines of tokens without full-line comments are not full-line comments. -/
theorem isFullLine_sequenceLines
    {wanted : WantedBlanks} {previous before : Option Token} {current : Option Line}
    {tokens : List (Address × Token)}
    (hcurrent : ∀ l ∈ current, l.isFullLine = false ∧
      (l.beginsWithCode = true ∨ previous.any Token.isComment = true))
    (htokens : ∀ t ∈ tokens, t.2.isStarComment = false) :
    ∀ l ∈ sequenceLines o wanted previous before current tokens, l.isFullLine = false := by
  induction tokens generalizing previous before current with
  | nil =>
      cases current with
      | none => simp [sequenceLines]
      | some l => simpa [sequenceLines] using (hcurrent l rfl).1
  | cons head rest ih =>
      obtain ⟨a, t⟩ := head
      rw [List.forall_mem_cons] at htokens
      -- A line that begins with a token is code, or ends behind it.
      have hfresh : ∀ l ∈ some ({ ({} : Line).put a t (tokenText o t previous before) 0 with
          fixed := t.isStarComment } : Line), l.isFullLine = false ∧
            (l.beginsWithCode = true ∨ (some t).any Token.isComment = true) := by
        intro l hl
        obtain rfl := Option.some.inj hl
        cases hcomment : t.isComment with
        | false =>
            have hcode : ({ ({} : Line).put a t (tokenText o t previous before) 0 with
                fixed := t.isStarComment } : Line).beginsWithCode = true := by
              simp [put, beginsWithCode, hcomment]
            exact ⟨isFullLine_of_code hcode, .inl hcode⟩
        | true =>
            refine ⟨isFullLine_of_text ?_, .inr hcomment⟩
            simpa [put] using isStarText_tokenText htokens.1 hcomment
      cases current with
      | none =>
          simp only [sequenceLines]
          exact ih hfresh htokens.2
      | some l =>
          simp only [sequenceLines]
          obtain ⟨hfull, hbegins⟩ := hcurrent l rfl
          split
          · exact List.forall_mem_cons.mpr ⟨hfull, ih hfresh htokens.2⟩
          next hcomment =>
            have hcode := beginsWithCode_put (hbegins.resolve_right hcomment) a t
              (tokenText o t previous before) (Spacing.printed o (wanted a) t previous)
            refine ih ?_ htokens.2
            intro k hk
            obtain rfl := Option.some.inj hk
            exact ⟨isFullLine_of_code hcode, .inl hcode⟩

theorem isFullLine_memberLines
    {wanted : WantedBlanks} {ordinal slot : Nat} {skip : Option Nat} {cells : List Cell}
    {trailing : Option Comment}
    (hcells : ∀ cell ∈ cells, cell.token.isStarComment = false)
    (htrailing : ∀ c ∈ trailing, c.IsSigned) :
    ∀ l ∈ memberLines o wanted ordinal slot skip cells trailing, l.isFullLine = false := by
  have hsequence := @isFullLine_sequenceLines o wanted none none none
    ((addressed ordinal slot (cells.map (·.token))).filter fun p => some p.1.slot != skip)
    (by simp) (by
      intro t ht
      obtain ⟨cell, hcell, heq⟩ := List.mem_map.mp
        (mem_of_mem_addressed (List.mem_filter.mp ht).1)
      exact heq ▸ hcells cell hcell)
  obtain ⟨lines, hlines, heq⟩ := memberLines_eq o wanted ordinal slot skip cells trailing
  have hall : ∀ l ∈ lines, l.isFullLine = false := by
    rcases hlines with rfl | ⟨rfl, -⟩
    · exact hsequence
    · simp [isFullLine, Comment.isStarText]
  rw [heq]
  split
  · exact hall
  next c =>
    exact laid_modify hall fun l hl => isFullLine_attachComment (hall l hl) (htrailing c rfl)

theorem isFullLine_placeMember
    (indent : Nat) {l : Line} (h : l.isFullLine = false) :
    (placeMember indent l).isFullLine = false := by
  unfold placeMember
  split
  · exact h
  · exact isFullLine_indent h indent

/-- A comment on a line of its own is a full-line comment in print if it is one in the source. -/
theorem isStarText_standing
    (o : Options) (indent : Nat) {c : Comment} (h : c.IsMarked) :
    Comment.isStarText (CommentText.standing o indent c.value) = Comment.isStarText c.value := by
  rw [CommentText.standing]
  split
  · exact isStarText_trimRight c.value
  next hstar =>
    rcases h with ⟨text, hline, hvalue⟩ | ⟨text, -, hvalue⟩
    · obtain ⟨n, comment, -, hattach⟩ := CommentText.attach_eq o (blanks indent) hline
      rw [hvalue, hattach]
      exact isStarText_blanks_append indent (isStarText_blanks_append n rfl)
    · simp [Comment.isStarText, hvalue] at hstar

/-- An entry is printed as its full-line comment, or has none among its lines. -/
theorem filter_isFullLine_entryLines
    {wanted : WantedBlanks} {ordinal indent : Nat} {skip : Option Nat} {e : Nat × Entry}
    (hcells : ∀ cell ∈ e.2.cells, cell.token.isStarComment = false) (hsound : e.2.Sound) :
    (entryLines o wanted ordinal indent skip e).filter isFullLine =
      e.2.fullLine?.toList.map fun text => { text, endsInComment := true } := by
  obtain ⟨slot, e⟩ := e
  cases e with
  | member cells trailing =>
      rw [entryLines, Entry.fullLine?, Option.toList_none, List.map_nil]
      refine filter_isFullLine_eq_nil (List.forall_mem_map.mpr fun k hk => ?_)
      exact isFullLine_placeMember indent (isFullLine_memberLines hcells hsound k hk)
  | remark comment =>
      have htext := isStarText_standing o indent hsound
      rw [entryLines, Entry.fullLine?]
      cases hstar : Comment.isStarText comment.value with
      | true =>
          rw [CommentText.standing, if_pos hstar, if_pos rfl]
          simp [isFullLine, beginsWithCode, isStarText_trimRight, hstar]
      | false =>
          rw [hstar] at htext
          simp [isFullLine, htext]

/-- The line with the colon of a chain begins with the first of the shared words. -/
theorem beginsWithCode_keywordLine
    {wanted : WantedBlanks} {ordinal indent : Nat} {c : Chain}
    (h : c.keyword.isComment = false) :
    (keywordLine o wanted ordinal indent c).beginsWithCode = true := by
  have hlisted (l : Line) :
      l.beginsWithCode = l.listed.head?.any fun entry => !entry.2.1.isComment := by
    rw [beginsWithCode, listed, List.head?_map, Option.any_map]
  rw [hlisted, listed_keywordLine, Chain.words, addressed, listing]
  simp [h]

section Entries

variable {wanted : WantedBlanks} {ordinal indent : Nat} {skip : Option Nat}
  {entries : List (Nat × Entry)}

theorem filter_isFullLine_flatMap_entryLines
    (hcells : ∀ e ∈ entries, ∀ cell ∈ e.2.cells, cell.token.isStarComment = false)
    (hsound : ∀ e ∈ entries, e.2.Sound) :
    (entries.flatMap (entryLines o wanted ordinal indent skip)).filter isFullLine =
      (entries.filterMap fun e => e.2.fullLine?).map
        fun text => { text, endsInComment := true } := by
  induction entries with
  | nil => rfl
  | cons e rest ih =>
      rw [List.forall_mem_cons] at hcells hsound
      rw [List.flatMap_cons, List.filter_append, filter_isFullLine_entryLines hcells.1 hsound.1,
        ih hcells.2 hsound.2, List.filterMap_cons]
      cases e.2.fullLine? <;> rfl

theorem isFullLine_getLast?_flatMap_entryLines
    (hcells : ∀ e ∈ entries, ∀ cell ∈ e.2.cells, cell.token.isStarComment = false)
    (hsound : ∀ e ∈ entries, e.2.Sound) (hlast : ∀ e ∈ entries.getLast?, e.2.fullLine? = none) :
    ∀ l ∈ (entries.flatMap (entryLines o wanted ordinal indent skip)).getLast?,
      l.isFullLine = false := by
  cases hentries : entries.getLast? with
  | none => simp [List.getLast?_eq_none_iff.mp hentries]
  | some e =>
      obtain ⟨init, rfl⟩ := List.getLast?_eq_some_iff.mp hentries
      have hne : entryLines o wanted ordinal indent skip e ≠ [] := by
        obtain ⟨slot, e⟩ := e
        cases e with
        | remark comment => simp [entryLines]
        | member cells trailing =>
            simpa [entryLines] using
              memberLines_ne_nil o wanted ordinal slot skip cells trailing
      have hnone : (entryLines o wanted ordinal indent skip e).filter isFullLine = [] := by
        rw [filter_isFullLine_entryLines (hcells e (by simp)) (hsound e (by simp)),
          hlast e (by simp)]
        rfl
      intro l hl
      rw [List.flatMap_append, List.flatMap_singleton, List.getLast?_append_of_ne_nil _ hne] at hl
      have hmem := List.filter_eq_nil_iff.mp hnone l (List.mem_of_getLast? hl)
      simpa using hmem

/-- The lines of the entries of a chain: among them those of the full-line comments between the
members are the full-line comments, and the last line is none unless the last entry is. -/
theorem isFullLine_entriesLines
    {inlineFirst : Bool} {keyword : Line} (hkeyword : keyword.beginsWithCode = true)
    (hcells : ∀ e ∈ entries, ∀ cell ∈ e.2.cells, cell.token.isStarComment = false)
    (hsound : ∀ e ∈ entries, e.2.Sound) (hlast : ∀ e ∈ entries.getLast?, e.2.fullLine? = none) :
    (entriesLines o wanted ordinal indent skip inlineFirst keyword entries).filter isFullLine =
        (entries.filterMap fun e => e.2.fullLine?).map
          (fun text => { text, endsInComment := true }) ∧
      ∀ l ∈ (entriesLines o wanted ordinal indent skip inlineFirst keyword entries).getLast?,
        l.isFullLine = false := by
  have hbelow (front : List Line) (es : List (Nat × Entry))
      (hfront : ∀ l ∈ front, l.isFullLine = false) (hes : ∀ e ∈ es, e ∈ entries)
      (hlast : ∀ e ∈ es.getLast?, e.2.fullLine? = none) :
      (front ++ es.flatMap (entryLines o wanted ordinal indent skip)).filter isFullLine =
          (es.filterMap fun e => e.2.fullLine?).map
            (fun text => { text, endsInComment := true }) ∧
        ∀ l ∈ (front ++ es.flatMap (entryLines o wanted ordinal indent skip)).getLast?,
          l.isFullLine = false := by
    have hcells : ∀ e ∈ es, ∀ cell ∈ e.2.cells, cell.token.isStarComment = false :=
      fun e he => hcells e (hes e he)
    have hsound : ∀ e ∈ es, e.2.Sound := fun e he => hsound e (hes e he)
    constructor
    · rw [List.filter_append, filter_isFullLine_eq_nil hfront,
        filter_isFullLine_flatMap_entryLines hcells hsound, List.nil_append]
    · exact isFullLine_getLast?_append (fun l hl => hfront l (List.mem_of_getLast? hl))
        (isFullLine_getLast?_flatMap_entryLines hcells hsound hlast)
  unfold entriesLines
  dsimp only
  split
  next slot cells trailing rest =>
    rw [List.forall_mem_cons] at hcells hsound
    have hrest : ∀ e ∈ rest.getLast?, e.2.fullLine? = none := by
      intro e he
      refine hlast e ?_
      obtain ⟨init, rfl⟩ := List.getLast?_eq_some_iff.mp he
      rw [← List.cons_append, List.getLast?_concat]
      rfl
    split
    next =>
      exact hbelow [keyword] rest (by simpa using isFullLine_of_code hkeyword)
        (fun e he => List.mem_cons_of_mem _ he) hrest
    next first more hlines =>
      have hmember := @isFullLine_memberLines o wanted ordinal slot skip cells trailing hcells.1
        hsound.1
      rw [hlines, List.forall_mem_cons] at hmember
      refine hbelow (keyword.absorb first [' '] :: more.map (placeMember indent)) rest ?_
        (fun e he => List.mem_cons_of_mem _ he) hrest
      refine List.forall_mem_cons.mpr
        ⟨isFullLine_of_code (beginsWithCode_absorb hkeyword first _), ?_⟩
      intro l hl
      obtain ⟨k, hk, rfl⟩ := List.mem_map.mp hl
      exact isFullLine_placeMember indent (hmember.2 k hk)
  next =>
    exact hbelow [keyword] entries (by simpa using isFullLine_of_code hkeyword) (fun e he => he)
      hlast

end Entries

theorem map_snd_slotted (slot : Nat) (entries : List Entry) :
    (slotted slot entries).map Prod.snd = entries := by
  induction entries generalizing slot with
  | nil => rfl
  | cons e rest ih => rw [slotted, List.map_cons, ih]

/-- A chain prints the full-line comments between its members on lines of their own. -/
theorem fullLines_chainLines
    {wanted : WantedBlanks} {ordinal : Nat} {s : Statement} {c : Chain}
    (hkeyword : c.keyword.isComment = false) (h : c.FullLinesBetween)
    (hsound : ∀ e ∈ c.entries, e.Sound) (hnote : ∀ d ∈ s.note, d.IsSigned)
    (hpost : ∀ d ∈ s.post, d.IsSigned) :
    ((chainLines o wanted ordinal s c).filter isFullLine).map (·.text) =
      c.entries.filterMap Entry.fullLine? := by
  obtain ⟨k, hk⟩ := joiner_eq_blanks o
  unfold chainLines
  dsimp only
  rw [hk]
  generalize (if startsInline c then _ else _ : Nat) = memberIndent
  generalize hentries : slotted (c.words.length + 1) c.entries = entries
  generalize hlines : entriesLines o wanted ordinal memberIndent _ _ _ entries = lines
  generalize hclosing : (closing? s c).toList.map _ = period
  have hsnd : entries.map Prod.snd = c.entries := hentries ▸ map_snd_slotted _ _
  have hmem : ∀ e ∈ entries, e.2 ∈ c.entries := fun e he => hsnd ▸ List.mem_map_of_mem he
  obtain ⟨hfull, hlast⟩ : lines.filter isFullLine =
      (entries.filterMap fun e => e.2.fullLine?).map
        (fun text => { text, endsInComment := true }) ∧
      ∀ l ∈ lines.getLast?, l.isFullLine = false := by
    rw [← hlines]
    refine isFullLine_entriesLines (beginsWithCode_keywordLine hkeyword)
      (fun e he => h.cells e.2 (hmem e he)) (fun e he => hsound e.2 (hmem e he)) fun e he => ?_
    refine h.last e.2 ?_
    rw [← hsnd, List.getLast?_map, Option.mem_def.mp he]
    rfl
  -- The period on a line of its own is code.
  have hperiod : ∀ l ∈ period, l.isFullLine = false := by
    rw [← hclosing]
    intro l hl
    obtain ⟨p, hp, rfl⟩ := List.mem_map.mp hl
    obtain ⟨-, cell, -, -, hcell, htoken, -⟩ := closing?_eq_some (k := p.1) (t := p.2)
      (Option.mem_toList.mp hp)
    have hrole : p.2.role = .punctuation := by
      rw [Token.isPeriod, Bool.and_eq_true, beq_iff_eq] at hcell
      exact htoken ▸ hcell.1
    exact isFullLine_of_code (by simp [put, beginsWithCode, Token.isComment, hrole])
  have hall : (lines ++ period).filter isFullLine =
      (entries.filterMap fun e => e.2.fullLine?).map
        fun text => { text, endsInComment := true } := by
    rw [List.filter_append, hfull, filter_isFullLine_eq_nil hperiod, List.append_nil]
  have hallLast := isFullLine_getLast?_append hlast
    fun l hl => hperiod l (List.mem_of_getLast? hl)
  have hends : ∀ l ∈ lines ++ period, l.isFullLine = true → l.endsInComment = true :=
    forall_isFullLine hall fun _ _ => rfl
  suffices hattached : ∀ own : Option Comment, (∀ d ∈ own, d.IsSigned) →
      ((attachToLast o s.post (attachToLast o own
        (glue (blanks k) (closing? s c).isSome (lines ++ period)))).filter isFullLine).map (·.text) =
        c.entries.filterMap Entry.fullLine? by
    refine hattached _ ?_
    split
    · simp
    · exact hnote
  intro own hown
  obtain ⟨howned, hownedLast⟩ := isFullLine_attachToLast (o := o) hown
    (isFullLine_getLast?_glue hends hallLast)
  rw [(isFullLine_attachToLast hpost hownedLast).1, howned, filter_isFullLine_glue hends, hall,
    List.map_map, ← hsnd, List.filterMap_map]
  exact List.map_id _

end Rendering

/-! ## Documents -/

/-- The full-line comments among some comments, as they are printed. -/
def starTexts (marks : List (Text × Span)) : List Text :=
  (marks.filter fun mark => Comment.isStarText mark.1).map fun mark => trimRight mark.1

@[simp] theorem starTexts_append (marks more : List (Text × Span)) :
    starTexts (marks ++ more) = starTexts marks ++ starTexts more := by
  simp [starTexts]

theorem starTexts_of_signed
    {comment : Option Comment} (h : ∀ c ∈ comment, c.IsSigned) :
    starTexts (comment.toList.map Comment.mark) = [] := by
  cases comment with
  | none => rfl
  | some c => simp [starTexts, Comment.mark, (h c rfl).isStarText]

theorem starTexts_commentMarks (ts : List Token) :
    starTexts (commentMarks ts) = (ts.filter Token.isStarComment).map fun t => trimRight t.text := by
  rw [starTexts, commentMarks, List.filter_map, List.filter_filter, List.map_map]
  exact congrArg _ (List.filter_congr fun t _ => Bool.and_comm _ _)

theorem starTexts_entries
    {entries : List Entry}
    (hcells : ∀ e ∈ entries, ∀ cell ∈ e.cells, cell.token.isStarComment = false)
    (hsound : ∀ e ∈ entries, e.Sound) :
    starTexts (entries.flatMap Entry.comments) = entries.filterMap Entry.fullLine? := by
  induction entries with
  | nil => rfl
  | cons e rest ih =>
      rw [List.forall_mem_cons] at hcells hsound
      rw [List.flatMap_cons, starTexts_append, ih hcells.2 hsound.2, List.filterMap_cons]
      cases e with
      | member cells trailing =>
          have hnone : (cells.map (·.token)).filter Token.isStarComment = [] := by
            rw [List.filter_eq_nil_iff]
            intro t ht
            obtain ⟨cell, hcell, rfl⟩ := List.mem_map.mp ht
            simp [hcells.1 cell hcell]
          rw [Entry.comments, starTexts_append, starTexts_of_signed hsound.1,
            starTexts_commentMarks, hnone]
          rfl
      | remark comment =>
          cases hstar : Comment.isStarText comment.value with
          | true => simp [Entry.comments, Entry.fullLine?, starTexts, Comment.mark, hstar]
          | false => simp [Entry.comments, Entry.fullLine?, starTexts, Comment.mark, hstar]

/-- What keeps the full-line comments of a statement on lines of their own. -/
structure Statement.KeepsFullLines (s : Statement) : Prop where
  plain : ∀ cells, s.body = .plain cells → Rendering.FullLinesApart cells s.note
  chain : ∀ c, s.body = .chain c → c.FullLinesBetween

namespace Rendering

open Line

variable {o : Options} {wanted : WantedBlanks} {ordinal : Nat}

/-- Among the lines of a statement its full-line comments are the full-line comments. -/
theorem fullLines_statementLines
    {s : Statement} (hsound : s.Sound) (h : s.KeepsFullLines) :
    ((statementLines o wanted ordinal s).filter isFullLine).map (·.text) =
      starTexts s.comments := by
  have hpost := starTexts_of_signed hsound.post
  have hnote : s.body ≠ .plain [] → ∀ c ∈ s.note, c.IsSigned :=
    fun hbody c hc => hsound.isSigned_note hbody hc
  rw [Statement.comments, starTexts_append, starTexts_append, hpost, List.append_nil]
  cases hbody : s.body with
  | chain c =>
      have hnote := hnote (by simp [hbody])
      rw [statementLines_chain hbody, fullLines_chainLines
        (hsound.words c hbody c.keyword (by simp [Chain.words])) (h.chain c hbody)
        (hsound.entries c hbody) hnote hsound.post, starTexts_of_signed hnote, List.append_nil]
      exact (starTexts_entries (h.chain c hbody).cells (hsound.entries c hbody)).symm
  | plain cells =>
      cases cells with
      | nil =>
          rw [statementLines_comment hbody]
          cases hnote : s.note with
          | none => rfl
          | some c =>
              have hmarked := hsound.isMarked_note hnote
              have htext := isStarText_standing o (baseIndent o s) hmarked
              cases hstar : Comment.isStarText c.value with
              | true =>
                  simp [isFullLine, beginsWithCode, isStarText_trimRight, hstar, Body.comments,
                    starTexts, Comment.mark, CommentText.standing]
              | false =>
                  simp [isFullLine, htext, hstar, Body.comments, starTexts, Comment.mark]
      | cons cell cells =>
          have hnote := hnote (by simp [hbody])
          rw [statementLines_plain hbody, fullLines_plainLines (h.plain _ hbody) hnote hsound.post,
            starTexts_of_signed hnote, List.append_nil, Body.comments, starTexts_commentMarks,
            List.filter_map, List.map_map]
          rfl

theorem fullLines_linesFrom
    {previous : Option Statement} {statements : List Statement}
    (hsound : ∀ s ∈ statements, s.Sound) (h : ∀ s ∈ statements, s.KeepsFullLines) :
    ((linesFrom o wanted ordinal previous statements).filter isFullLine).map (·.text) =
      starTexts (statements.flatMap Statement.comments) := by
  induction statements generalizing ordinal previous with
  | nil => rfl
  | cons s rest ih =>
      rw [List.forall_mem_cons] at hsound h
      have hblank (n : Nat) : (List.replicate n ({} : Line)).filter isFullLine = [] := by
        refine filter_isFullLine_eq_nil fun l hl => ?_
        rw [(List.mem_replicate.mp hl).2]
        rfl
      rw [linesFrom_cons, List.filter_append, hblank, List.nil_append, List.filter_append,
        List.map_append, fullLines_statementLines hsound.1 h.1, ih hsound.2 h.2,
        List.flatMap_cons, starTexts_append]

/-- The full-line comments of a document are those of its statements. -/
theorem fullLines_render
    {statements : List Statement} (hsound : ∀ s ∈ statements, s.Sound)
    (h : ∀ s ∈ statements, s.KeepsFullLines) :
    ((render o wanted statements).filter isFullLine).map (·.text) =
      starTexts (statements.flatMap Statement.comments) :=
  fullLines_linesFrom hsound h

end Rendering
end AbapLayout
