import AbapLayout.Proofs.StatementShape

/-!
# The rows of statements in print

Printing the rows of statements puts every token of a row on some line, in the order of the row, and
prints for it what `Rendering.spelling` says (`listed_render`, `spelled_render`).  Lines are cut
where cells and comments end them, glued where one begins with a period or comma, indented and
joined behind a colon; none of this loses or moves a token.  All printed lines show their tokens
where they say (`laid_render`).
-/

namespace AbapLayout

/-- The tokens of a line with their addresses and what is printed for them. -/
def Line.listed (l : Line) : List (Address × Token × Text) :=
  l.placements.map fun p => (p.address, p.token, p.printed)

def listedLines (lines : List Line) : List (Address × Token × Text) :=
  lines.flatMap Line.listed

@[simp] theorem listedLines_nil : listedLines [] = [] := rfl

@[simp] theorem listedLines_cons (l : Line) (lines : List Line) :
    listedLines (l :: lines) = l.listed ++ listedLines lines := by
  simp [listedLines]

@[simp] theorem listedLines_append (lines more : List Line) :
    listedLines (lines ++ more) = listedLines lines ++ listedLines more := by
  simp [listedLines]

theorem listedLines_map
    {f : Line → Line} (h : ∀ l, (f l).listed = l.listed) (lines : List Line) :
    listedLines (lines.map f) = listedLines lines := by
  simp [listedLines, List.flatMap_map, h]

/-- Only the placements count. -/
theorem listedLines_congr
    {lines more : List Line} (h : lines.map (·.placements) = more.map (·.placements)) :
    listedLines lines = listedLines more := by
  have hplacements (ls : List Line) : listedLines ls =
      (ls.map (·.placements)).flatMap fun ps => ps.map fun p => (p.address, p.token, p.printed) := by
    rw [List.flatMap_map]
    rfl
  rw [hplacements, hplacements, h]

theorem map_placements_modify
    {f : Line → Line} (h : ∀ l, (f l).placements = l.placements) (i : Nat) (lines : List Line) :
    (lines.modify i f).map (·.placements) = lines.map (·.placements) := by
  induction lines generalizing i with
  | nil => simp
  | cons l lines ih =>
      cases i with
      | zero => simp [h]
      | succ i => simp [ih]

/-- The tokens of a line with what is printed for them. -/
def Line.spelled (l : Line) : List (Token × Text) :=
  l.placements.map fun p => (p.token, p.printed)

def spelledLines (lines : List Line) : List (Token × Text) :=
  lines.flatMap Line.spelled

theorem map_snd_listedLines (lines : List Line) :
    (listedLines lines).map Prod.snd = spelledLines lines := by
  have hline : ∀ l : Line, l.listed.map Prod.snd = l.spelled := by
    intro l
    simp [Line.listed, Line.spelled]
  simp [listedLines, spelledLines, List.map_flatMap, hline]

namespace Line

@[simp] theorem listed_empty : ({} : Line).listed = [] := rfl

@[simp] theorem listed_put
    (l : Line) (a : Address) (t : Token) (printed : Text) (spaces : Nat) :
    (l.put a t printed spaces).listed = l.listed ++ [(a, t, printed)] := by
  simp [listed, put]

@[simp] theorem listed_indent (l : Line) (n : Nat) : (l.indent n).listed = l.listed := by
  simp [listed, indent]

@[simp] theorem listed_absorb (l other : Line) (joiner : Text) :
    (l.absorb other joiner).listed = l.listed ++ other.listed := by
  simp [listed, absorb]

theorem listed_glueFrom
    (joiner : Text) (keepLast : Bool) (above : Line) (lines : List Line) :
    listedLines (glueFrom joiner keepLast above lines) =
      above.listed ++ listedLines lines := by
  induction lines generalizing above with
  | nil => simp [glueFrom]
  | cons l rest ih =>
      rw [glueFrom]
      split
      · simp [ih]
      · simp [ih]

theorem listed_glue (joiner : Text) (keepLast : Bool) (lines : List Line) :
    listedLines (glue joiner keepLast lines) = listedLines lines := by
  cases lines with
  | nil => rfl
  | cons l rest => simp [glue, listed_glueFrom]

end Line

namespace Rendering

/-- A comment behind a line changes none of its tokens. -/
theorem map_placements_attachToLast (o : Options) (comment : Option Comment) (lines : List Line) :
    (attachToLast o comment lines).map (·.placements) = lines.map (·.placements) := by
  cases comment with
  | none => rfl
  | some c => exact map_placements_modify (f := attachComment o c) (fun _ => rfl) _ lines

theorem map_placements_attachTrailing (o : Options) (comment : Option Comment) (lines : List Line) :
    (attachTrailing o comment lines).map (·.placements) = lines.map (·.placements) := by
  cases comment with
  | none => rfl
  | some c =>
      unfold attachTrailing
      dsimp only
      split
      · exact map_placements_modify (f := attachComment o c) (fun _ => rfl) _ lines
      · exact map_placements_attachToLast o (some c) lines

/-- What is printed for the tokens of a row behind two others, the nearer one first. -/
def listing (o : Options) (previous before : Option Token) :
    List (Address × Token) → List (Address × Token × Text)
  | [] => []
  | (a, t) :: rest => (a, t, tokenText o t previous before) :: listing o (some t) previous rest

/-- Rows of tokens with their addresses, from the given slot on. -/
def addressedRows (ordinal slot : Nat) : List (List Token) → List (List (Address × Token))
  | [] => []
  | row :: rest => addressed ordinal slot row :: addressedRows ordinal (slot + row.length) rest

/-- The rows of statements with the addresses of their tokens, from the given ordinal on. -/
def addressedStatements (ordinal : Nat) : List Statement → List (List (Address × Token))
  | [] => []
  | s :: rest => addressedRows ordinal 0 s.rows ++ addressedStatements (ordinal + 1) rest

theorem map_addressed {α β : Type} (f : α → β) (ordinal slot : Nat) (as : List α) :
    (addressed ordinal slot as).map (fun p => (p.1, f p.2)) = addressed ordinal slot (as.map f) := by
  induction as generalizing slot with
  | nil => rfl
  | cons a as ih => simp [addressed, ih]

theorem map_snd_addressed {α : Type} (ordinal slot : Nat) (as : List α) :
    (addressed ordinal slot as).map Prod.snd = as := by
  induction as generalizing slot with
  | nil => rfl
  | cons a as ih => simp [addressed, ih]

theorem addressed_append {α : Type} (ordinal slot : Nat) (as bs : List α) :
    addressed ordinal slot (as ++ bs) =
      addressed ordinal slot as ++ addressed ordinal (slot + as.length) bs := by
  induction as generalizing slot with
  | nil => rfl
  | cons a as ih =>
      rw [List.cons_append, addressed, addressed, ih, List.cons_append, List.length_cons,
        Nat.add_right_comm, Nat.add_assoc]

/-! ## Plain statements -/

@[simp] theorem listed_beginLine
    (o : Options) (indent startColumn : Nat) (a : Address) (t : Token)
    (previous before : Option Token) :
    (beginLine o indent startColumn a t previous before).listed =
      [(a, t, tokenText o t previous before)] := by
  unfold beginLine
  dsimp only
  split
  · exact Line.listed_put {} a t _ 0
  · exact Line.listed_put {} a t _ _

theorem listed_cellLines
    (o : Options) (wanted : WantedBlanks) (indent startColumn : Nat)
    (previous before : Option Token) (current : Option Line) (cells : List (Address × Cell)) :
    listedLines (cellLines o wanted indent startColumn previous before current cells) =
      listedLines current.toList ++
        listing o previous before (cells.map fun c => (c.1, c.2.token)) := by
  induction cells generalizing previous before current with
  | nil => simp [cellLines, listing]
  | cons head rest ih =>
      obtain ⟨a, cell⟩ := head
      simp only [cellLines]
      split
      · cases current <;> simp [ih, listing]
      · cases current <;> simp [ih, listing]

theorem listed_plainLines
    (o : Options) (wanted : WantedBlanks) (ordinal : Nat) (s : Statement) (cells : List Cell) :
    listedLines (plainLines o wanted ordinal s cells) =
      listing o none none (addressed ordinal 0 (cells.map (·.token))) := by
  unfold plainLines
  dsimp only
  have htrim := listedLines_map (f := fun l => { l with text := Text.trimRight l.text })
    (fun _ => rfl)
  rw [listedLines_congr (map_placements_attachToLast ..),
    listedLines_congr (map_placements_attachTrailing ..), Line.listed_glue, htrim, listed_cellLines,
    map_addressed Cell.token]
  rfl

/-! ## Chains -/

theorem listed_sequenceLines
    (o : Options) (wanted : WantedBlanks) (previous before : Option Token)
    (current : Option Line) (tokens : List (Address × Token)) :
    listedLines (sequenceLines o wanted previous before current tokens) =
      listedLines current.toList ++ listing o previous before tokens := by
  induction tokens generalizing previous before current with
  | nil => simp [sequenceLines, listing]
  | cons head rest ih =>
      obtain ⟨a, t⟩ := head
      have hfresh : ({ ({} : Line).put a t (tokenText o t previous before) 0 with
          fixed := t.isStarComment } : Line).listed = [(a, t, tokenText o t previous before)] :=
        Line.listed_put {} a t _ 0
      cases current with
      | none => simp [sequenceLines, ih, listing, hfresh]
      | some l =>
          simp only [sequenceLines]
          split
          · simp [ih, listing, hfresh]
          · simp [ih, listing]

theorem listed_foldl_absorb
    (joiner : Text) (first : Line) (rest : List Line) :
    (rest.foldl (fun l extra => l.absorb extra joiner) first).listed =
      first.listed ++ listedLines rest := by
  induction rest generalizing first with
  | nil => simp
  | cons l rest ih => simp [ih]

theorem listed_keywordLine
    (o : Options) (wanted : WantedBlanks) (ordinal indent : Nat) (c : Chain) :
    (keywordLine o wanted ordinal indent c).listed =
      listing o none none (addressed ordinal 0 c.words) ++
        [(⟨ordinal, c.words.length⟩, c.colon, [':'])] := by
  have hwords := listed_sequenceLines o wanted none none none (addressed ordinal 0 c.words)
  simp only [Option.toList, listedLines_nil, List.nil_append] at hwords
  rw [keywordLine, Line.listed_put, Line.listed_indent, ← hwords]
  congr 1
  split
  next hnone => rw [hnone]; rfl
  next first rest hsome => rw [hsome, listed_foldl_absorb, listedLines_cons]

theorem filter_addressed_eq_self
    {α : Type} {ordinal slot : Nat} {skip : Option Nat} {as : List α}
    (h : ∀ k, skip = some k → slot + as.length ≤ k) :
    (addressed ordinal slot as).filter (fun p => some p.1.slot != skip) =
      addressed ordinal slot as := by
  induction as generalizing slot with
  | nil => rfl
  | cons a as ih =>
      have hslot : (some slot != skip) = true := by
        cases skip with
        | none => rfl
        | some k =>
            have := h k rfl
            simp at this ⊢
            omega
      rw [addressed, List.filter_cons, if_pos hslot, ih]
      intro k hk
      have := h k hk
      simp at this
      omega

theorem filter_addressed_eq_dropLast
    {α : Type} {ordinal slot k : Nat} {as : List α} (h : k + 1 = slot + as.length) :
    (addressed ordinal slot as).filter (fun p => some p.1.slot != some k) =
      addressed ordinal slot as.dropLast := by
  induction as generalizing slot with
  | nil => rfl
  | cons a as ih =>
      cases as with
      | nil =>
          have hk : k = slot := by simpa using h
          simp [addressed, hk]
      | cons b bs =>
          have hslot : (some slot != some k) = true := by
            simp at h ⊢
            omega
          rw [addressed, List.filter_cons, if_pos hslot, ih (by simp at h ⊢; omega),
            List.dropLast_cons_cons, addressed]

/-- The lines of a member are those of its tokens; there is an empty one if it has none. -/
theorem memberLines_eq
    (o : Options) (wanted : WantedBlanks) (ordinal slot : Nat) (skip : Option Nat)
    (cells : List Cell) (trailing : Option Comment) :
    ∃ lines,
      (lines = sequenceLines o wanted none none none
          ((addressed ordinal slot (cells.map (·.token))).filter fun p => some p.1.slot != skip) ∨
        lines = [{}] ∧ sequenceLines o wanted none none none
          ((addressed ordinal slot (cells.map (·.token))).filter fun p => some p.1.slot != skip) =
            []) ∧
      memberLines o wanted ordinal slot skip cells trailing =
        match trailing with
        | none => lines
        | some c => lines.modify 0 fun l => { attachComment o c l with endsInComment := true } := by
  unfold memberLines
  dsimp only
  cases hlines : sequenceLines o wanted none none none
      ((addressed ordinal slot (cells.map (·.token))).filter fun p => some p.1.slot != skip) with
  | nil => exact ⟨[{}], .inr ⟨rfl, rfl⟩, rfl⟩
  | cons l rest => exact ⟨l :: rest, .inl rfl, rfl⟩

theorem listed_memberLines
    (o : Options) (wanted : WantedBlanks) (ordinal slot : Nat) (skip : Option Nat)
    (cells : List Cell) (trailing : Option Comment) :
    listedLines (memberLines o wanted ordinal slot skip cells trailing) =
      listing o none none ((addressed ordinal slot (cells.map (·.token))).filter
        fun p => some p.1.slot != skip) := by
  have hsequence := listed_sequenceLines o wanted none none none
    ((addressed ordinal slot (cells.map (·.token))).filter fun p => some p.1.slot != skip)
  simp only [Option.toList, listedLines_nil, List.nil_append] at hsequence
  obtain ⟨lines, hlines, heq⟩ := memberLines_eq o wanted ordinal slot skip cells trailing
  have hlisted : listedLines lines = listedLines (sequenceLines o wanted none none none
      ((addressed ordinal slot (cells.map (·.token))).filter fun p => some p.1.slot != skip)) := by
    rcases hlines with rfl | ⟨rfl, hnone⟩
    · rfl
    · rw [hnone]
      rfl
  rw [heq, ← hsequence, ← hlisted]
  split
  · rfl
  next c =>
    exact listedLines_congr (map_placements_modify
      (f := fun l => { attachComment o c l with endsInComment := true }) (fun _ => rfl) 0 lines)

/-- A row up to its last token, and that token. -/
theorem listing_append_singleton
    (o : Options) (previous before : Option Token) (row : List (Address × Token)) (a : Address)
    (t : Token) :
    ∃ p b, listing o previous before (row ++ [(a, t)]) =
      listing o previous before row ++ [(a, t, tokenText o t p b)] := by
  induction row generalizing previous before with
  | nil => exact ⟨previous, before, rfl⟩
  | cons head rest ih =>
      obtain ⟨p, b, h⟩ := ih (some head.2) previous
      exact ⟨p, b, by simp [listing, h]⟩

theorem tokenText_of_isPeriod
    (o : Options) {t : Token} (h : t.isPeriod = true) (previous before : Option Token) :
    tokenText o t previous before = t.text := by
  rw [Token.isPeriod, Bool.and_eq_true, beq_iff_eq] at h
  have hcomment : t.isComment = false := by simp [Token.isComment, h.1]
  simp [tokenText, Token.isStarComment, hcomment, Keyword.printed, Keyword.isKeyword, h.1]

@[simp] theorem listed_placeMember (indent : Nat) (l : Line) :
    (placeMember indent l).listed = l.listed := by
  unfold placeMember
  split
  · rfl
  · simp

/-- The first member may stand behind the colon; this changes no token. -/
theorem listed_entriesLines
    (o : Options) (wanted : WantedBlanks) (ordinal indent : Nat) (skip : Option Nat)
    (inlineFirst : Bool) (keyword : Line) (entries : List (Nat × Entry)) :
    listedLines (entriesLines o wanted ordinal indent skip inlineFirst keyword entries) =
      keyword.listed ++
        listedLines (entries.flatMap (entryLines o wanted ordinal indent skip)) := by
  have hplaced := listedLines_map (listed_placeMember indent)
  unfold entriesLines
  dsimp only
  split
  next slot cells trailing rest =>
    rw [List.flatMap_cons, entryLines, listedLines_append, hplaced]
    split
    next hnone => simp [hnone]
    next first more hsome => simp [hsome, hplaced]
  next => simp

variable {o : Options} {wanted : WantedBlanks} {ordinal indent : Nat}

/-- The members of a chain are printed one after the other. -/
theorem listed_entryLines
    {slot : Nat} {skip : Option Nat} {entries : List Entry}
    (h : ∀ k, skip = some k → slot + (entries.flatMap Entry.cells).length ≤ k) :
    listedLines ((slotted slot entries).flatMap (entryLines o wanted ordinal indent skip)) =
      (addressedRows ordinal slot (entries.filterMap Entry.row?)).flatMap (listing o none none) := by
  induction entries generalizing slot with
  | nil => rfl
  | cons e rest ih =>
      rw [List.flatMap_cons, List.length_append] at h
      rw [slotted, List.flatMap_cons, listedLines_append]
      rw [ih (fun k hk => by have := h k hk; omega)]
      cases e with
      | remark comment => simp [entryLines, Line.listed, List.filterMap_cons, Entry.cells]
      | member cells trailing =>
          have hall : ∀ k, skip = some k → slot + (cells.map (·.token)).length ≤ k := by
            intro k hk
            have := h k hk
            simp only [Entry.cells, List.length_map] at this ⊢
            omega
          rw [entryLines, listedLines_map (listed_placeMember indent), listed_memberLines,
            filter_addressed_eq_self hall]
          simp [addressedRows, Entry.cells]

theorem listed_entryLines_of_remarks
    {slot : Nat} {skip : Option Nat} {entries : List Entry}
    (h : (entries.filter fun e => !e.isRemark) = []) :
    entries.flatMap Entry.cells = [] ∧ entries.filterMap Entry.row? = [] ∧
      listedLines ((slotted slot entries).flatMap (entryLines o wanted ordinal indent skip)) =
        [] := by
  induction entries generalizing slot with
  | nil => simp [slotted]
  | cons e rest ih =>
      cases e with
      | member cells trailing => simp [Entry.isRemark] at h
      | remark comment =>
          obtain ⟨hcells, hrows, hlines⟩ := @ih slot (by simpa [Entry.isRemark] using h)
          simp only [List.filterMap_cons, Entry.row?_remark, hrows, true_and]
          simp [slotted, Entry.cells, entryLines, hcells, hlines, Line.listed]

/-- If the period of the last member is left out, it is all that is missing. -/
theorem listed_memberLines_closing
    {slot k : Nat} {cells : List Cell} {cell : Cell} (trailing : Option Comment)
    (hk : k + 1 = slot + cells.length) (hcell : cells.getLast? = some cell)
    (hperiod : cell.token.isPeriod = true) :
    listedLines (memberLines o wanted ordinal slot (some k) cells trailing) ++
        [(⟨ordinal, k⟩, cell.token, cell.token.text)] =
      listing o none none (addressed ordinal slot (cells.map (·.token))) := by
  obtain ⟨init, rfl⟩ := List.getLast?_eq_some_iff.mp hcell
  have hslot : k = slot + init.length := by
    rw [List.length_append, List.length_singleton] at hk
    omega
  obtain ⟨p, b, hlisting⟩ := listing_append_singleton o none none
    (addressed ordinal slot (init.map (·.token))) ⟨ordinal, k⟩ cell.token
  rw [tokenText_of_isPeriod o hperiod, hslot] at hlisting
  rw [listed_memberLines, filter_addressed_eq_dropLast (by simpa using hk)]
  simp [addressed_append, addressed, hlisting, hslot]

/-- If the last period of a chain is left out, it is all that is missing. -/
theorem listed_entryLines_closing
    {slot k : Nat} {entries : List Entry} {last : Entry} {cell : Cell}
    (hk : k + 1 = slot + (entries.flatMap Entry.cells).length)
    (hlast : (entries.filter fun e => !e.isRemark).getLast? = some last)
    (hcell : last.cells.getLast? = some cell) (hperiod : cell.token.isPeriod = true) :
    listedLines ((slotted slot entries).flatMap (entryLines o wanted ordinal indent (some k))) ++
        [(⟨ordinal, k⟩, cell.token, cell.token.text)] =
      (addressedRows ordinal slot (entries.filterMap Entry.row?)).flatMap (listing o none none) := by
  induction entries generalizing slot with
  | nil => simp at hlast
  | cons e rest ih =>
      rw [List.flatMap_cons, List.length_append] at hk
      rw [slotted, List.flatMap_cons, listedLines_append]
      cases e with
      | remark comment =>
          have hrest := @ih slot (by simpa [Entry.cells] using hk)
            (by simpa [Entry.isRemark] using hlast)
          simpa [entryLines, Entry.cells, Line.listed, List.filterMap_cons] using hrest
      | member cells trailing =>
          simp only [Entry.cells] at hk ⊢
          rw [List.filter_cons, if_pos (by rfl)] at hlast
          rw [entryLines, listedLines_map (listed_placeMember indent)]
          cases hmembers : rest.filter fun e => !e.isRemark with
          | nil =>
              obtain ⟨hcells, hrows, hlines⟩ :=
                @listed_entryLines_of_remarks o wanted ordinal indent (slot + cells.length) (some k)
                  rest hmembers
              rw [hmembers, List.getLast?_singleton, Option.some.injEq] at hlast
              rw [← hlast] at hcell
              rw [hcells, List.length_nil, Nat.add_zero] at hk
              have hmember := @listed_memberLines_closing o wanted ordinal slot k cells cell
                trailing hk hcell hperiod
              simpa [hlines, hrows, addressedRows] using hmember
          | cons next others =>
              rw [hmembers, List.getLast?_cons_cons, ← hmembers] at hlast
              have hrest := @ih (slot + cells.length) (by omega) hlast
              have hpos : 0 < (rest.flatMap Entry.cells).length := by
                have hmem : last ∈ rest := (List.mem_filter.mp (List.mem_of_getLast? hlast)).1
                exact List.length_pos_iff_exists_mem.mpr
                  ⟨cell, List.mem_flatMap.mpr ⟨last, hmem, List.mem_of_getLast? hcell⟩⟩
              have hall : ∀ j, some k = some j → slot + (cells.map (·.token)).length ≤ j := by
                intro j hj
                injection hj with hj
                simp only [List.length_map]
                omega
              rw [listed_memberLines, filter_addressed_eq_self hall, List.append_assoc, hrest]
              simp [addressedRows]

/-- The period that is printed apart is the last token of a chain. -/
theorem closing?_eq_some
    {s : Statement} {c : Chain} {k : Nat} {t : Token} (h : closing? s c = some (k, t)) :
    ∃ last cell, (c.entries.filter fun e => !e.isRemark).getLast? = some last ∧
      last.cells.getLast? = some cell ∧ cell.token.isPeriod = true ∧ t = cell.token ∧
      k = c.words.length + (c.entries.flatMap Entry.cells).length := by
  unfold closing? at h
  split at h
  next last _ hlast =>
    split at h
    next cell hcell =>
      split at h
      next hperiod =>
        simp only [Option.some.injEq, Prod.mk.injEq] at h
        exact ⟨last, cell, hlast, hcell, hperiod, h.2.symm, h.1.symm⟩
      next => simp at h
    next => simp at h
  next => simp at h

theorem mem_cells_of_closing?
    {s : Statement} {c : Chain} {k : Nat} {t : Token} (h : closing? s c = some (k, t)) :
    ∃ e ∈ c.entries, ∃ cell ∈ e.cells, cell.token = t := by
  obtain ⟨last, cell, hlast, hcell, -, htoken, -⟩ := closing?_eq_some h
  exact ⟨last, (List.mem_filter.mp (List.mem_of_getLast? hlast)).1, cell,
    List.mem_of_getLast? hcell, htoken.symm⟩

theorem listed_chainLines
    (o : Options) (wanted : WantedBlanks) (ordinal : Nat) (s : Statement) (c : Chain) :
    listedLines (chainLines o wanted ordinal s c) =
      listing o none none (addressed ordinal 0 c.words) ++
        (⟨ordinal, c.words.length⟩, c.colon, [':']) ::
          (addressedRows ordinal (c.words.length + 1) (c.entries.filterMap Entry.row?)).flatMap
            (listing o none none) := by
  unfold chainLines
  dsimp only
  rw [listedLines_congr (map_placements_attachToLast ..),
    listedLines_congr (map_placements_attachToLast ..), Line.listed_glue, listedLines_append,
    listed_entriesLines, listed_keywordLine]
  cases hclosing : closing? s c with
  | none =>
      have hall : ∀ k, (none : Option (Nat × Token)).map (·.1) = some k →
          c.words.length + 1 + (c.entries.flatMap Entry.cells).length ≤ k := by simp
      rw [listed_entryLines hall]
      simp
  | some period =>
      obtain ⟨k, t⟩ := period
      obtain ⟨last, cell, hlast, hcell, hperiod, rfl, rfl⟩ := closing?_eq_some hclosing
      have hentries := @listed_entryLines_closing o wanted ordinal
        (if startsInline c = true then
          (keywordLine o wanted ordinal (baseIndent o s) c).text.length + 1
        else baseIndent o s + o.indentWidth)
        (c.words.length + 1) (c.words.length + (c.entries.flatMap Entry.cells).length) c.entries
        last cell (by omega) hlast hcell hperiod
      rw [← hentries]
      simp [tokenText_of_isPeriod o hperiod]

/-! ## Documents -/

theorem statementLines_chain
    {s : Statement} {c : Chain} (h : s.body = .chain c) :
    statementLines o wanted ordinal s = chainLines o wanted ordinal s c := by
  simp [statementLines, h]

theorem statementLines_plain
    {s : Statement} {cell : Cell} {cells : List Cell} (h : s.body = .plain (cell :: cells)) :
    statementLines o wanted ordinal s = plainLines o wanted ordinal s (cell :: cells) := by
  simp [statementLines, h]

theorem statementLines_comment
    {s : Statement} (h : s.body = .plain []) :
    statementLines o wanted ordinal s =
      s.note.toList.map fun c => { text := CommentText.standing o (baseIndent o s) c.value } := by
  cases hnote : s.note <;> simp [statementLines, h, hnote]

/-- The rows of a statement are printed one after the other. -/
theorem listed_statementLines
    (o : Options) (wanted : WantedBlanks) (ordinal : Nat) {s : Statement}
    (hcolon : ∀ c, s.body = .chain c → c.colon.Lexed ∧ c.colon.role = .colon) :
    listedLines (statementLines o wanted ordinal s) =
      (addressedRows ordinal 0 s.rows).flatMap (listing o none none) := by
  rw [Statement.rows]
  cases hbody : s.body with
  | chain c =>
      obtain ⟨hlexed, hrole⟩ := hcolon c hbody
      have htext : c.colon.text = [':'] := hlexed.separator_iff.2.mp hrole
      have hspelled : tokenText o c.colon none none = [':'] := by
        simp [tokenText, Token.isStarComment, Token.isComment, hrole, Keyword.printed,
          Keyword.isKeyword, htext]
      rw [statementLines_chain hbody, listed_chainLines]
      simp [Body.rows, addressedRows, addressed, listing, hspelled]
  | plain cells =>
      cases cells with
      | nil =>
          rw [statementLines_comment hbody]
          cases s.note <;> simp [Body.rows, addressedRows, Line.listed]
      | cons cell cells =>
          rw [statementLines_plain hbody, listed_plainLines]
          simp [Body.rows, addressedRows]

/-- A statement is printed behind blank lines, unless nothing is printed for it. -/
theorem linesFrom_cons
    (o : Options) (wanted : WantedBlanks) (ordinal : Nat) (previous : Option Statement)
    (s : Statement) (rest : List Statement) :
    linesFrom o wanted ordinal previous (s :: rest) =
      List.replicate (if statementLines o wanted ordinal s = [] then 0
          else blankLinesBetween previous s) ({} : Line) ++
        (statementLines o wanted ordinal s ++ linesFrom o wanted (ordinal + 1)
          (if statementLines o wanted ordinal s = [] then previous else some s) rest) := by
  rw [linesFrom]
  split
  next hnone => simp [hnone]
  next hsome => rw [if_neg hsome, if_neg hsome, List.append_assoc]

theorem listedLines_blank (n : Nat) : listedLines (List.replicate n {}) = [] := by
  induction n with
  | zero => rfl
  | succ n ih => simp [List.replicate_succ, ih]

theorem listed_linesFrom
    (o : Options) (wanted : WantedBlanks) (ordinal : Nat) (previous : Option Statement)
    {statements : List Statement}
    (hcolon : ∀ s ∈ statements, ∀ c, s.body = .chain c → c.colon.Lexed ∧ c.colon.role = .colon) :
    listedLines (linesFrom o wanted ordinal previous statements) =
      (addressedStatements ordinal statements).flatMap (listing o none none) := by
  induction statements generalizing ordinal previous with
  | nil => rfl
  | cons s rest ih =>
      have hs := listed_statementLines o wanted ordinal (hcolon s (by simp))
      have hrest := fun ordinal previous =>
        ih ordinal previous (fun t ht => hcolon t (by simp [ht]))
      rw [linesFrom_cons, addressedStatements, List.flatMap_append, ← hs, listedLines_append,
        listedLines_append, listedLines_blank, hrest, List.nil_append]

/-- Reading the printed lines gives the rows of the statements, each token with its address and with
what is printed for it. -/
theorem listed_render
    (o : Options) (wanted : WantedBlanks) {statements : List Statement}
    (hcolon : ∀ s ∈ statements, ∀ c, s.body = .chain c → c.colon.Lexed ∧ c.colon.role = .colon) :
    listedLines (render o wanted statements) =
      (addressedStatements 0 statements).flatMap (listing o none none) :=
  listed_linesFrom o wanted 0 none hcolon

/-! ## Without addresses -/

/-- What is printed for the tokens of a row behind two others, the nearer one first. -/
def spelling (o : Options) (previous before : Option Token) : List Token → List (Token × Text)
  | [] => []
  | t :: ts => (t, tokenText o t previous before) :: spelling o (some t) previous ts

theorem mem_spelling
    {o : Options} {previous before : Option Token} {row : List Token} {t : Token} {printed : Text}
    (h : (t, printed) ∈ spelling o previous before row) :
    t ∈ row ∧ ∃ previous before, printed = tokenText o t previous before := by
  induction row generalizing previous before with
  | nil => simp [spelling] at h
  | cons u rest ih =>
      rw [spelling, List.mem_cons] at h
      rcases h with heq | h
      · obtain ⟨rfl, rfl⟩ := Prod.mk.inj heq
        exact ⟨by simp, previous, before, rfl⟩
      · exact ⟨List.mem_cons_of_mem _ (ih h).1, (ih h).2⟩

theorem map_snd_listing
    (o : Options) (previous before : Option Token) (row : List (Address × Token)) :
    (listing o previous before row).map Prod.snd = spelling o previous before (row.map Prod.snd) := by
  induction row generalizing previous before with
  | nil => rfl
  | cons head rest ih => simp [listing, spelling, ih]

theorem map_snd_addressedRows (ordinal slot : Nat) (rows : List (List Token)) :
    (addressedRows ordinal slot rows).map (List.map Prod.snd) = rows := by
  induction rows generalizing slot with
  | nil => rfl
  | cons row rest ih => simp [addressedRows, map_snd_addressed, ih]

theorem map_snd_addressedStatements (ordinal : Nat) (statements : List Statement) :
    (addressedStatements ordinal statements).map (List.map Prod.snd) =
      statements.flatMap Statement.rows := by
  induction statements generalizing ordinal with
  | nil => rfl
  | cons s rest ih => simp [addressedStatements, map_snd_addressedRows, ih]

/-- Reading the printed lines gives the rows of the statements, each token with what is printed for
it. -/
theorem spelled_render
    (o : Options) (wanted : WantedBlanks) {statements : List Statement}
    (hcolon : ∀ s ∈ statements, ∀ c, s.body = .chain c → c.colon.Lexed ∧ c.colon.role = .colon) :
    spelledLines (render o wanted statements) =
      (statements.flatMap Statement.rows).flatMap (spelling o none none) := by
  rw [← map_snd_listedLines, listed_render o wanted hcolon, List.map_flatMap,
    ← map_snd_addressedStatements 0 statements, List.flatMap_map]
  congr 1
  funext row
  exact map_snd_listing o none none row

/-! ## The places of the tokens -/

/-- A token whose printed text has no blanks at its ends, whatever stands in front of it. -/
def IsSolid (o : Options) (t : Token) : Prop :=
  ∀ previous before, (tokenText o t previous before).Solid

theorem open_beginLine
    (indent startColumn : Nat) (a : Address) {t : Token} (previous before : Option Token)
    (h : IsSolid o t) :
    (beginLine o indent startColumn a t previous before).Open := by
  unfold beginLine
  dsimp only
  split
  · exact Line.Open.empty.put a t 0 (h previous before)
  · exact Line.Open.empty.put a t _ (h previous before)

/-- A cell begins a line or goes on the line in progress. -/
theorem cellLines_cons
    {startColumn : Nat} {previous before : Option Token} {current : Option Line} {a : Address}
    {cell : Cell} {rest : List (Address × Cell)} :
    ∃ line,
      (current = none ∧ line = beginLine o indent startColumn a cell.token previous before ∨
        ∃ l, current = some l ∧
          line = l.put a cell.token (tokenText o cell.token previous before)
            (Spacing.printed o (wanted a) cell.token previous)) ∧
      cellLines o wanted indent startColumn previous before current ((a, cell) :: rest) =
        if cell.breakAfter then
          line :: cellLines o wanted indent startColumn (some cell.token) previous none rest
        else cellLines o wanted indent startColumn (some cell.token) previous (some line) rest := by
  cases current with
  | none => exact ⟨_, .inl ⟨rfl, rfl⟩, rfl⟩
  | some l => exact ⟨_, .inr ⟨l, rfl, rfl⟩, rfl⟩

theorem open_cellLines
    {startColumn : Nat} {previous before : Option Token} {current : Option Line}
    {cells : List (Address × Cell)}
    (hcurrent : ∀ l ∈ current, l.Open) (hcells : ∀ c ∈ cells, IsSolid o c.2.token) :
    ∀ l ∈ cellLines o wanted indent startColumn previous before current cells, l.Open := by
  induction cells generalizing previous before current with
  | nil => simpa [cellLines] using hcurrent
  | cons head rest ih =>
      obtain ⟨a, cell⟩ := head
      have hcell := hcells (a, cell) (by simp)
      have hrest : ∀ c ∈ rest, IsSolid o c.2.token := fun c hc => hcells c (by simp [hc])
      obtain ⟨line, hgrown, heq⟩ := @cellLines_cons o wanted indent startColumn previous before
        current a cell rest
      have hline : line.Open := by
        rcases hgrown with ⟨-, rfl⟩ | ⟨l, rfl, rfl⟩
        · exact open_beginLine indent startColumn a previous before hcell
        · exact (hcurrent l (by simp)).put a _ _ (hcell previous before)
      rw [heq]
      split
      · intro l hl
        rw [List.mem_cons] at hl
        rcases hl with rfl | hl
        · exact hline
        · exact ih (by simp) hrest l hl
      · exact ih (by simpa using hline) hrest

theorem open_sequenceLines
    {previous before : Option Token} {current : Option Line} {tokens : List (Address × Token)}
    (hcurrent : ∀ l ∈ current, l.Open) (htokens : ∀ t ∈ tokens, IsSolid o t.2) :
    ∀ l ∈ sequenceLines o wanted previous before current tokens, l.Open := by
  induction tokens generalizing previous before current with
  | nil => simpa [sequenceLines] using hcurrent
  | cons head rest ih =>
      obtain ⟨a, t⟩ := head
      have ht := htokens (a, t) (by simp)
      have hrest : ∀ t ∈ rest, IsSolid o t.2 := fun t ht => htokens t (by simp [ht])
      have hfresh : ({ ({} : Line).put a t (tokenText o t previous before) 0 with
          fixed := t.isStarComment } : Line).Open :=
        Line.Open.empty.put a t 0 (ht previous before)
      cases current with
      | none =>
          simp only [sequenceLines]
          exact ih (by simpa using hfresh) hrest
      | some l =>
          simp only [sequenceLines]
          split
          · intro k hk
            rw [List.mem_cons] at hk
            rcases hk with rfl | hk
            · exact hcurrent _ (by simp)
            · exact ih (by simpa using hfresh) hrest k hk
          · have hlonger := (hcurrent l (by simp)).put a t
              (Spacing.printed o (wanted a) t previous) (ht previous before)
            exact ih (by simpa using hlonger) hrest

theorem open_foldl_absorb
    {first : Line} {rest : List Line} (hfirst : first.Open) (hrest : ∀ l ∈ rest, l.Open) :
    (rest.foldl (fun l extra => l.absorb extra [' ']) first).Open := by
  induction rest generalizing first with
  | nil => exact hfirst
  | cons l rest ih =>
      exact ih (hfirst.absorb (hrest l (by simp)) 1) fun k hk => hrest k (by simp [hk])

theorem mem_of_mem_addressed
    {α : Type} {ordinal slot : Nat} {as : List α} {p : Address × α}
    (h : p ∈ addressed ordinal slot as) :
    p.2 ∈ as := by
  rw [← map_snd_addressed ordinal slot as]
  exact List.mem_map_of_mem h

theorem solid_colon : Text.Solid [':'] where
  begins := ⟨':', [], rfl, by decide⟩
  ends := ⟨[], ':', rfl, by decide⟩
  oneLine := Text.oneLine_cons.mpr ⟨by decide, Text.OneLine.nil⟩

theorem open_keywordLine
    {c : Chain} (h : ∀ t ∈ c.words, IsSolid o t) :
    (keywordLine o wanted ordinal indent c).Open := by
  have hwords := @open_sequenceLines o wanted none none none (addressed ordinal 0 c.words)
    (by simp) (fun t ht => h t.2 (mem_of_mem_addressed ht))
  unfold keywordLine
  dsimp only
  refine Line.Open.put ?_ _ _ 0 solid_colon
  refine Line.Open.indent ?_ indent
  split
  · exact Line.Open.empty
  next first rest hsome =>
    rw [hsome] at hwords
    exact open_foldl_absorb (hwords first (by simp)) fun l hl => hwords l (by simp [hl])

theorem laid_modify
    {P : Line → Prop} {f : Line → Line} {i : Nat} {lines : List Line}
    (hlines : ∀ l ∈ lines, P l) (hf : ∀ l ∈ lines, P (f l)) :
    ∀ l ∈ lines.modify i f, P l := by
  induction lines generalizing i with
  | nil => simp
  | cons k rest ih =>
      have hrest := fun i => @ih i (fun l hl => hlines l (by simp [hl]))
        (fun l hl => hf l (by simp [hl]))
      cases i with
      | zero =>
          intro l hl
          rw [List.modify_zero_cons, List.mem_cons] at hl
          rcases hl with rfl | hl
          · exact hf k (by simp)
          · exact hlines l (by simp [hl])
      | succ i =>
          intro l hl
          rw [List.modify_succ_cons, List.mem_cons] at hl
          rcases hl with rfl | hl
          · exact hlines l (by simp)
          · exact hrest i l hl

/-- A line of a member is open, or ends in the comment behind the member. -/
theorem open_or_signed_memberLines
    {slot : Nat} {skip : Option Nat} {cells : List Cell} {trailing : Option Comment}
    (hcells : ∀ cell ∈ cells, IsSolid o cell.token)
    (htrailing : ∀ c, trailing = some c → c.IsSigned) :
    ∀ l ∈ memberLines o wanted ordinal slot skip cells trailing,
      l.Open ∨ l.endsInComment = true ∧ l.Signed := by
  have hsequence := @open_sequenceLines o wanted none none none
    ((addressed ordinal slot (cells.map (·.token))).filter fun p => some p.1.slot != skip)
    (by simp) (by
      intro t ht
      obtain ⟨cell, hcell, heq⟩ := List.mem_map.mp
        (mem_of_mem_addressed (List.mem_filter.mp ht).1)
      exact heq ▸ hcells cell hcell)
  obtain ⟨lines, hlines, heq⟩ := memberLines_eq o wanted ordinal slot skip cells trailing
  have hopen : ∀ l ∈ lines, l.Open := by
    rcases hlines with rfl | ⟨rfl, -⟩
    · exact hsequence
    · simpa using Line.Open.empty
  rw [heq]
  split
  · exact fun l hl => .inl (hopen l hl)
  next c =>
    refine laid_modify (P := fun l => l.Open ∨ l.endsInComment = true ∧ l.Signed)
      (fun l hl => .inl (hopen l hl)) ?_
    intro l hl
    exact .inr ⟨rfl, (hopen l hl).attachComment o (htrailing c rfl)⟩

theorem ready_placeMember
    {l : Line} (indent : Nat) (h : l.Open ∨ l.endsInComment = true ∧ l.Signed) :
    (placeMember indent l).Ready := by
  unfold placeMember
  split
  · rcases h with h | ⟨hends, h⟩
    · exact .inl h
    · exact .inr ⟨hends, .inl h⟩
  · rcases h with h | ⟨hends, h⟩
    · exact .inl (h.indent indent)
    · exact .inr ⟨hends, .inl (h.indent indent)⟩

/-- A comment on a line of its own. -/
theorem signed_or_starred_standing
    {l : Line} {c : Comment} (o : Options) (indent : Nat) (hc : c.IsMarked)
    (hnone : l.placements = []) (htext : l.text = CommentText.standing o indent c.value) :
    l.Signed ∨ l.Starred := by
  rcases hc with ⟨text, hline, hvalue⟩ | ⟨text, hline, hvalue⟩
  · obtain ⟨n, comment, hcomment, hattach⟩ :=
      CommentText.attach_eq o (Text.blanks indent) hline
    refine .inl ⟨indent + n, comment, hcomment, [], ?_, hnone ▸ .nil 0⟩
    have hstar : Comment.isStarText c.value = false := by
      simp [Comment.isStarText, hvalue, Comment.sign]
    rw [htext, CommentText.standing, if_neg (by simp [hstar]), hvalue, hattach,
      ← Text.blanks_append_blanks]
    simp
  · have hstar : Comment.isStarText c.value = true := by simp [Comment.isStarText, hvalue]
    have hall : (Text.trimRight ('*' :: text)).OneLine :=
      (Text.oneLine_cons.mpr ⟨by decide, hline⟩ : Text.OneLine ('*' :: text)).trimRight
    rw [CommentText.standing, if_pos hstar, hvalue] at htext
    rw [← htext] at hall
    rw [Text.trimRight] at htext
    refine .inr ⟨hnone, ?_⟩
    split at htext
    · rw [if_neg (by decide)] at htext
      exact ⟨[], Text.OneLine.nil, htext⟩
    next d ds _ =>
      rw [htext] at hall
      exact ⟨d :: ds, (Text.oneLine_cons.mp hall).2, htext⟩

theorem ready_entryLines
    {skip : Option Nat} {e : Nat × Entry}
    (hcells : ∀ cell ∈ e.2.cells, IsSolid o cell.token) (hsound : e.2.Sound) :
    ∀ l ∈ entryLines o wanted ordinal indent skip e, l.Ready := by
  obtain ⟨slot, e⟩ := e
  cases e with
  | remark comment =>
      intro l hl
      rw [entryLines, List.mem_singleton] at hl
      rw [hl]
      exact .inr ⟨rfl, signed_or_starred_standing o indent hsound rfl rfl⟩
  | member cells trailing =>
      intro l hl
      obtain ⟨k, hk, rfl⟩ := List.mem_map.mp hl
      exact ready_placeMember indent (open_or_signed_memberLines hcells hsound k hk)

theorem ready_entriesLines
    {skip : Option Nat} {inlineFirst : Bool} {keyword : Line} {entries : List (Nat × Entry)}
    (hkeyword : keyword.Open)
    (hcells : ∀ e ∈ entries, ∀ cell ∈ e.2.cells, IsSolid o cell.token)
    (hsound : ∀ e ∈ entries, e.2.Sound) :
    ∀ l ∈ entriesLines o wanted ordinal indent skip inlineFirst keyword entries, l.Ready := by
  have hbelow (es : List (Nat × Entry)) (hes : ∀ e ∈ es, e ∈ entries) :
      ∀ l ∈ es.flatMap (entryLines o wanted ordinal indent skip), l.Ready := by
    intro l hl
    obtain ⟨e, he, hl⟩ := List.mem_flatMap.mp hl
    exact ready_entryLines (hcells e (hes e he)) (hsound e (hes e he)) l hl
  unfold entriesLines
  dsimp only
  split
  next slot cells trailing rest =>
    have hmember := @open_or_signed_memberLines o wanted ordinal slot skip cells trailing
      (hcells _ (List.mem_cons_self ..)) (hsound _ (List.mem_cons_self ..))
    have hrest := hbelow rest fun e he => List.mem_cons_of_mem _ he
    split
    · intro l hl
      rw [List.mem_cons] at hl
      rcases hl with rfl | hl
      · exact .inl hkeyword
      · exact hrest l hl
    next first more hlines =>
      rw [hlines] at hmember
      intro l hl
      simp only [List.cons_append, List.mem_cons, List.mem_append, List.mem_map] at hl
      rcases hl with rfl | ⟨k, hk, rfl⟩ | hl
      · rcases hmember first (by simp) with hfirst | ⟨hends, hfirst⟩
        · exact .inl (hkeyword.absorb hfirst 1)
        · exact .inr ⟨hends, .inl (Line.Signed.absorb hkeyword hfirst 1)⟩
      · exact ready_placeMember indent (hmember k (by simp [hk]))
      · exact hrest l hl
  next =>
    intro l hl
    rw [List.mem_cons] at hl
    rcases hl with rfl | hl
    · exact .inl hkeyword
    · exact hbelow entries (fun e he => he) l hl

theorem laid_attachToLast
    {comment : Option Comment} {lines : List Line}
    (hcomment : ∀ c, comment = some c → c.IsSigned) (hlines : ∀ l ∈ lines, l.Laid) :
    ∀ l ∈ attachToLast o comment lines, l.Laid := by
  cases comment with
  | none => exact hlines
  | some c =>
      exact laid_modify hlines fun l hl => (hlines l hl).attachComment o (hcomment c rfl)

theorem laid_attachTrailing
    {comment : Option Comment} {lines : List Line}
    (hcomment : ∀ c, comment = some c → c.IsSigned) (hlines : ∀ l ∈ lines, l.Laid) :
    ∀ l ∈ attachTrailing o comment lines, l.Laid := by
  cases comment with
  | none => exact hlines
  | some c =>
      unfold attachTrailing
      dsimp only
      split
      · exact laid_modify hlines fun l hl => (hlines l hl).attachComment o (hcomment c rfl)
      · exact laid_attachToLast hcomment hlines

theorem joiner_eq_blanks (o : Options) : ∃ k, joiner o = Text.blanks k := by
  unfold joiner
  split
  · exact ⟨1, rfl⟩
  · exact ⟨0, rfl⟩

theorem laid_plainLines
    {s : Statement} {cells : List Cell}
    (hcells : ∀ cell ∈ cells, IsSolid o cell.token)
    (hnote : ∀ c, s.note = some c → c.IsSigned) (hpost : ∀ c, s.post = some c → c.IsSigned) :
    ∀ l ∈ plainLines o wanted ordinal s cells, l.Laid := by
  obtain ⟨k, hk⟩ := joiner_eq_blanks o
  unfold plainLines
  dsimp only
  refine laid_attachToLast hpost (laid_attachTrailing hnote ?_)
  rw [hk]
  intro l hl
  refine (Line.ready_glue k s.post.isSome ?_ l hl).laid
  intro m hm
  obtain ⟨n, hn, rfl⟩ := List.mem_map.mp hm
  refine .inl (Line.Open.trimRight ?_)
  refine open_cellLines (by simp) ?_ n hn
  intro c hc
  exact hcells c.2 (mem_of_mem_addressed hc)

theorem mem_of_mem_slotted
    {slot : Nat} {entries : List Entry} {e : Nat × Entry} (h : e ∈ slotted slot entries) :
    e.2 ∈ entries := by
  induction entries generalizing slot with
  | nil => simp [slotted] at h
  | cons d rest ih =>
      rw [slotted, List.mem_cons] at h
      rcases h with rfl | h
      · simp
      · exact List.mem_cons_of_mem d (ih h)

theorem laid_chainLines
    {s : Statement} {c : Chain}
    (hwords : ∀ t ∈ c.words, IsSolid o t)
    (hcells : ∀ e ∈ c.entries, ∀ cell ∈ e.cells, IsSolid o cell.token)
    (hentries : ∀ e ∈ c.entries, e.Sound)
    (hnote : ∀ d, s.note = some d → d.IsSigned) (hpost : ∀ d, s.post = some d → d.IsSigned) :
    ∀ l ∈ chainLines o wanted ordinal s c, l.Laid := by
  obtain ⟨k, hk⟩ := joiner_eq_blanks o
  unfold chainLines
  dsimp only
  refine laid_attachToLast hpost (laid_attachToLast ?_ ?_)
  · intro d hd
    split at hd
    · simp at hd
    · exact hnote d hd
  rw [hk]
  intro l hl
  refine (Line.ready_glue k _ ?_ l hl).laid
  intro m hm
  rcases List.mem_append.mp hm with hm | hm
  · refine ready_entriesLines (open_keywordLine hwords) ?_ ?_ m hm
    · exact fun e he => hcells e.2 (mem_of_mem_slotted he)
    · exact fun e he => hentries e.2 (mem_of_mem_slotted he)
  · obtain ⟨⟨slot, t⟩, hperiod, rfl⟩ := List.mem_map.mp hm
    obtain ⟨e, he, cell, hcell, rfl⟩ := mem_cells_of_closing? (Option.mem_toList.mp hperiod)
    exact .inl (Line.Open.empty.put _ _ _ (hcells e he cell hcell none none))

/-- The tokens of the members of a chain stand in its rows. -/
theorem mem_rows_of_mem_cells
    {c : Chain} {e : Entry} {cell : Cell} (he : e ∈ c.entries) (hcell : cell ∈ e.cells) :
    ∃ row ∈ (Body.chain c).rows, cell.token ∈ row := by
  cases e with
  | remark comment => simp [Entry.cells] at hcell
  | member cells trailing =>
      refine ⟨cells.map (·.token), ?_, List.mem_map_of_mem hcell⟩
      rw [Body.rows, List.mem_cons, List.mem_cons]
      exact .inr (.inr (List.mem_filterMap.mpr ⟨_, he, rfl⟩))

/-- The tokens that are printed for a statement have no blanks at their ends. -/
theorem laid_statementLines
    {s : Statement} (hsound : s.Sound)
    (hsolid : ∀ row ∈ s.rows, ∀ t ∈ row, IsSolid o t) :
    ∀ l ∈ statementLines o wanted ordinal s, l.Laid := by
  cases hbody : s.body with
  | chain c =>
      rw [statementLines_chain hbody]
      rw [Statement.rows, hbody] at hsolid
      refine laid_chainLines (hsolid c.words (by simp [Body.rows])) ?_ (hsound.entries c hbody) ?_
        hsound.post
      · intro e he cell hcell
        obtain ⟨row, hrow, hmem⟩ := mem_rows_of_mem_cells he hcell
        exact hsolid row hrow _ hmem
      · exact fun d hd => hsound.isSigned_note (by simp [hbody]) hd
  | plain cells =>
      cases cells with
      | nil =>
          rw [statementLines_comment hbody]
          intro l hl
          obtain ⟨c, hc, rfl⟩ := List.mem_map.mp hl
          rw [Option.mem_toList] at hc
          have hmarked := hsound.isMarked_note hc
          exact .inr (signed_or_starred_standing o (baseIndent o s) hmarked rfl rfl)
      | cons cell cells =>
          rw [statementLines_plain hbody]
          rw [Statement.rows, hbody, Body.rows] at hsolid
          refine laid_plainLines ?_ ?_ hsound.post
          · intro d hd
            exact hsolid _ (by simp) d.token (List.mem_map_of_mem hd)
          · exact fun d hd => hsound.isSigned_note (by simp [hbody]) hd

theorem laid_linesFrom
    {previous : Option Statement} {statements : List Statement}
    (hsound : ∀ s ∈ statements, s.Sound)
    (hsolid : ∀ s ∈ statements, ∀ row ∈ s.rows, ∀ t ∈ row, IsSolid o t) :
    ∀ l ∈ linesFrom o wanted ordinal previous statements, l.Laid := by
  induction statements generalizing ordinal previous with
  | nil => simp [linesFrom]
  | cons s rest ih =>
      have hs := @laid_statementLines o wanted ordinal s (hsound s (by simp)) (hsolid s (by simp))
      have hrest := fun ordinal previous => @ih ordinal previous
        (fun t ht => hsound t (by simp [ht])) (fun t ht => hsolid t (by simp [ht]))
      rw [linesFrom_cons]
      intro l hl
      simp only [List.mem_append, List.mem_replicate] at hl
      rcases hl with hl | hl | hl
      · exact hl.2 ▸ .inl Line.Open.empty
      · exact hs l hl
      · exact hrest _ _ l hl

/-- Every printed line shows its tokens where it says. -/
theorem laid_render
    {statements : List Statement} (hsound : ∀ s ∈ statements, s.Sound)
    (hsolid : ∀ s ∈ statements, ∀ row ∈ s.rows, ∀ t ∈ row, IsSolid o t) :
    ∀ l ∈ render o wanted statements, l.Laid :=
  laid_linesFrom hsound hsolid

end Rendering
end AbapLayout
