import AbapLayout.Proofs.RecastPrinting

/-!
# Aligning recast tokens

Lines that two runs print alike put their tokens at the same positions, and a token and its recast
belong to the same runs.  So both runs want the same blanks, and the documents they print have the
same letters (`Layout.print_recast`).
-/

namespace AbapLayout

open Text (IsCaseMap)
open Rendering (AlikeLines)

def Position.recast (φ : Recast) (p : Position) : Position :=
  { p with token := φ p.token, previous := p.previous.map φ }

variable {φ : Recast} {κ : Char → Char} {lines lines' : List Line}

theorem rel_getElem?
    {α β : Type} {R : α → β → Prop} {as : List α} {bs : List β} (h : List.Forall₂ R as bs)
    (i : Nat) :
    Option.Rel R as[i]? bs[i]? := by
  induction h generalizing i with
  | nil => exact .none
  | cons hab _ ih =>
      cases i with
      | zero => exact .some hab
      | succ i => exact ih i

/-! ## Positions -/

namespace Position

theorem ofPlacement_recast
    (line : Nat) (last : Option Position) {previous previous' : Option Placement}
    (hprevious : Option.Rel (Placement.Alike φ κ) previous previous') {p p' : Placement}
    (hp : Placement.Alike φ κ p p') :
    ofPlacement line (last.map (·.recast φ)) previous' p' =
      (ofPlacement line last previous p).recast φ := by
  unfold ofPlacement
  cases hprevious with
  | none =>
      simp only [hp.address, hp.token, hp.column, φ.tokenClass]
      cases last <;> rfl
  | @some q q' hq =>
      have hend : q'.endColumn = q.endColumn := by
        rw [Placement.endColumn, Placement.endColumn, hq.column, Text.length_of_map hq.printed]
      simp only [hp.address, hp.token, hp.column, φ.tokenClass, hend, Option.map_some, hq.token]
      cases last <;> rfl

theorem ofLine_recast
    (line : Nat) (last : Option Position) {previous previous' : Option Placement}
    (hprevious : Option.Rel (Placement.Alike φ κ) previous previous') {ps ps' : List Placement}
    (h : List.Forall₂ (Placement.Alike φ κ) ps ps') :
    ofLine line (last.map (·.recast φ)) previous' ps' =
      (ofLine line last previous ps).map (·.recast φ) := by
  induction h generalizing last previous previous' with
  | nil => rfl
  | @cons p p' rest rest' hp _ ih =>
      have hbehind := ih (some (ofPlacement line last previous p)) (.some hp)
      rw [ofLine, ofLine, List.map_cons, ofPlacement_recast line last hprevious hp, ← hbehind]
      rfl

theorem ofLines_recast
    (number : Nat) (last : Option Position) (h : AlikeLines φ κ lines lines') :
    ofLines number (last.map (·.recast φ)) lines' =
      (ofLines number last lines).map (·.recast φ) := by
  induction h generalizing number last with
  | nil => rfl
  | @cons l l' rest rest' hl _ ih =>
      have hhere := ofLine_recast number last .none hl.placements
      have hlast : ((ofLine number last none l.placements).map (·.recast φ)).getLast?.or
            (last.map (·.recast φ)) =
          ((ofLine number last none l.placements).getLast?.or last).map (·.recast φ) := by
        rw [List.getLast?_map, ← Option.map_or]
      rw [ofLines, ofLines, hhere, List.map_append, hlast, ih]

@[simp] theorem edge?_recast (p : Position) : (p.recast φ).edge? = p.edge? := by
  simp [edge?, recast]

@[simp] theorem signatures_recast (p : Position) : (p.recast φ).signatures = p.signatures := by
  rw [signatures, edge?_recast]
  rfl

end Position

namespace Alignment

open Position (recast)

/-! ## Runs -/

theorem isBlankLine_alike
    (hκ : IsCaseMap κ) (h : AlikeLines φ κ lines lines') (number : Nat) :
    isBlankLine lines' number = isBlankLine lines number := by
  have hline := rel_getElem? h number
  unfold isBlankLine
  revert hline
  cases lines[number]? <;> cases lines'[number]? <;> rintro ⟨⟩
  next => rfl
  next hl => exact Text.congr_of_map (Text.isBlankText_map hκ) hl.text

theorem leader?_alike (h : AlikeLines φ κ lines lines') (number : Nat) :
    Option.Rel (Placement.Alike φ κ) (leader? lines number) (leader? lines' number) := by
  have hline := rel_getElem? h number
  unfold leader?
  revert hline
  cases lines[number]? <;> cases lines'[number]? <;> rintro ⟨⟩
  next => exact .none
  next hl => simpa only [List.head?_eq_getElem?] using rel_getElem? hl.placements 0

theorem interrupts_alike
    (hκ : IsCaseMap κ) (h : AlikeLines φ κ lines lines') (column number : Nat) :
    interrupts lines' column number = interrupts lines column number := by
  have hleader := leader?_alike h number
  unfold interrupts
  rw [isBlankLine_alike hκ h]
  revert hleader
  cases leader? lines number <;> cases leader? lines' number <;> rintro ⟨⟩
  next => rfl
  next hp => simp only [hp.column, hp.token, φ.isBridge]

theorem onBridge_recast (h : AlikeLines φ κ lines lines') (p : Position) :
    onBridge lines' (p.recast φ) = onBridge lines p := by
  have hleader := leader?_alike h p.line
  unfold onBridge
  simp only [recast]
  revert hleader
  cases leader? lines p.line <;> cases leader? lines' p.line <;> rintro ⟨⟩
  next => rfl
  next hp => simp only [Option.any_some, hp.token, φ.isBridge]

theorem gapBreaks_recast
    (hκ : IsCaseMap κ) (h : AlikeLines φ κ lines lines') (column : Nat)
    (first last candidate : Position) :
    gapBreaks lines' column (first.recast φ) (last.recast φ) (candidate.recast φ) =
      gapBreaks lines column first last candidate := by
  have hinterrupts : interrupts lines' column = interrupts lines column :=
    funext (interrupts_alike hκ h column)
  simp only [gapBreaks, recast, hinterrupts]

theorem extend_recast
    (hκ : IsCaseMap κ) (h : AlikeLines φ κ lines lines') (column : Nat) (first last : Position)
    (ps : List Position) :
    extend lines' column (first.recast φ) (last.recast φ) (ps.map (·.recast φ)) =
      ((extend lines column first last ps).1.map (·.recast φ),
        (extend lines column first last ps).2.map (·.recast φ)) := by
  induction ps generalizing last with
  | nil => rfl
  | cons p rest ih =>
      have hfits : fits (first.recast φ) (p.recast φ) = fits first p := rfl
      simp only [List.map_cons, extend, gapBreaks_recast hκ h, hfits, onBridge_recast h, ih]
      split
      · rfl
      split
      · rfl
      split <;> rfl

theorem runs_recast
    (hκ : IsCaseMap κ) (h : AlikeLines φ κ lines lines') (column : Nat) (ps : List Position) :
    runs lines' column (ps.map (·.recast φ)) =
      (runs lines column ps).map (List.map (·.recast φ)) := by
  fun_induction runs lines column ps with
  | case1 => rw [List.map_nil, runs]; rfl
  | case2 first rest ih =>
      rw [List.map_cons, runs, extend_recast hκ h, ih]
      rfl

/-! ## Wanted blanks -/

theorem moveRun_recast (run : List Position) (spare : Nat) (progress : Progress) :
    moveRun (run.map (·.recast φ)) spare progress = moveRun run spare progress := by
  simp only [moveRun, List.any_map, List.filter_map, List.map_map]
  rfl

theorem alignStarts_recast (run : List Position) (progress : Progress) :
    alignStarts (run.map (·.recast φ)) progress = alignStarts run progress := by
  simp only [alignStarts, moveRun_recast, List.map_map]
  rfl

theorem alignEdges_recast (run : List Position) (progress : Progress) :
    alignEdges (run.map (·.recast φ)) progress = alignEdges run progress := by
  cases run with
  | nil => rfl
  | cons first rest =>
      have hmove := moveRun_recast (φ := φ) (first :: rest)
      have hnearest : (((first :: rest).map (·.recast φ)).filter fun p => !p.leading).map
            (·.previousEnd) =
          ((first :: rest).filter fun p => !p.leading).map (·.previousEnd) := by
        rw [List.filter_map, List.map_map]
        rfl
      rw [List.map_cons] at hmove hnearest ⊢
      simp only [alignEdges, hmove, hnearest, List.all_map, List.map_cons, List.map_map]
      rfl

theorem alignRun_recast (signature : Nat) (progress : Progress) (run : List Position) :
    alignRun signature progress (run.map (·.recast φ)) = alignRun signature progress run := by
  simp only [alignRun, alignEdges_recast, alignStarts_recast, List.length_map, List.any_map]
  rfl

theorem alignSignature_recast
    (hκ : IsCaseMap κ) (h : AlikeLines φ κ lines lines') (ps : List Position)
    (progress : Progress) (signature : Nat) :
    alignSignature lines' (ps.map (·.recast φ)) progress signature =
      alignSignature lines ps progress signature := by
  have hmembers : (ps.map (·.recast φ)).filter (fun p => p.signatures.contains signature) =
      (ps.filter fun p => p.signatures.contains signature).map (·.recast φ) := by
    simp [List.filter_map, Function.comp_def]
  have hrun : (fun progress run => alignRun signature progress (List.map (·.recast φ) run)) =
      alignRun signature :=
    funext fun progress => funext (alignRun_recast signature progress)
  rw [alignSignature, hmembers, runs_recast hκ h, List.foldl_map, hrun, alignSignature]

theorem alignAll_recast
    (hκ : IsCaseMap κ) (h : AlikeLines φ κ lines lines') (ps : List Position) :
    alignAll lines' (ps.map (·.recast φ)) = alignAll lines ps := by
  have hsignatures : signaturesDescending (ps.map (·.recast φ)) = signaturesDescending ps := by
    simp [signaturesDescending, List.flatMap_map]
  have hstep : alignSignature lines' (ps.map (·.recast φ)) = alignSignature lines ps :=
    funext fun progress => funext (alignSignature_recast hκ h ps progress)
  rw [alignAll, hsignatures, hstep, alignAll]

theorem condensed_recast (progress : Progress) (ps : List Position) :
    condensed progress (ps.map (·.recast φ)) = condensed progress ps := by
  rw [condensed, List.filter_map, List.map_map]
  rfl

theorem closesEmptyPair_recast (previous t : Token) :
    closesEmptyPair (φ previous) (φ t) = closesEmptyPair previous t := by
  have hbracket : ∀ u : Token, ∀ c : Char, c.isAlpha = false →
      ((φ u).text == [c]) = (u.text == [c]) := by
    intro u c hc
    rw [Bool.eq_iff_iff, beq_iff_eq, beq_iff_eq]
    exact φ.text_eq_iff u (by simpa using hc)
  simp only [closesEmptyPair, hbracket _ '(' (by decide), hbracket _ ')' (by decide),
    hbracket _ '[' (by decide), hbracket _ ']' (by decide)]

theorem emptyPairs_recast (ps : List Position) :
    emptyPairs (ps.map (·.recast φ)) = emptyPairs ps := by
  have hpair : ∀ p : Position,
      (p.recast φ).previous.any (closesEmptyPair · (p.recast φ).token) =
        p.previous.any (closesEmptyPair · p.token) := by
    intro p
    simp only [recast]
    cases p.previous with
    | none => rfl
    | some previous => exact closesEmptyPair_recast previous p.token
  rw [emptyPairs, List.filter_map, List.map_map, emptyPairs]
  simp only [Function.comp_def, hpair]
  rfl

/-- Lines that two runs print alike want the same blanks. -/
theorem wantedAt_recast (hκ : IsCaseMap κ) (h : AlikeLines φ κ lines lines') :
    wantedAt lines' (positions lines') = wantedAt lines (positions lines) := by
  have hpositions : positions lines' = (positions lines).map (·.recast φ) :=
    Position.ofLines_recast 0 none h
  rw [hpositions, wantedAt, alignAll_recast hκ h, condensed_recast, emptyPairs_recast, wantedAt]

end Alignment

/-! ## Printed documents -/

theorem Text.map_document (hκ : IsCaseMap κ) (ls : List Text) :
    (document ls).map κ = document (ls.map (List.map κ)) := by
  have hbreak : κ '\n' = '\n' := (hκ.apply_eq_iff (by decide) _).mpr rfl
  have hlines : (unlines ls).map κ = unlines (ls.map (List.map κ)) := by
    induction ls with
    | nil => rfl
    | cons l rest ih =>
        cases rest with
        | nil => simp [unlines, join, List.intercalate_singleton]
        | cons next rest =>
            simp only [unlines, join, List.map_cons, List.intercalate_cons_cons,
              List.map_append, hbreak, List.map_nil] at ih ⊢
            rw [ih]
  rw [document, document, List.isEmpty_map]
  split
  · rfl
  · rw [List.map_append, hlines, List.map_singleton, hbreak]

namespace Layout

variable {o : Options} {k : KeywordCase}

theorem alike_lines
    (hκ : IsCaseMap κ) {statements statements' : List Statement}
    (hrecast : List.Forall₂ (Statement.IsRecast φ) statements statements')
    (h : ∀ s ∈ statements, Rendering.Steady o k φ κ s) :
    AlikeLines φ κ (Layout.lines o statements) (Layout.lines (o.withCase k) statements') := by
  have hloose := Rendering.alike_render hκ (fun _ => none) hrecast h
  have htable : Alignment.wantedTable (o.withCase k) statements' =
      Alignment.wantedTable o statements :=
    Alignment.wantedAt_recast hκ hloose
  unfold Layout.lines
  rw [htable]
  exact Rendering.alike_render hκ _ hrecast h

/-- Two runs print documents with the same letters. -/
theorem print_recast
    (hκ : IsCaseMap κ) {statements statements' : List Statement}
    (hrecast : List.Forall₂ (Statement.IsRecast φ) statements statements')
    (h : ∀ s ∈ statements, Rendering.Steady o k φ κ s) :
    (print (o.withCase k) statements').map κ = (print o statements).map κ := by
  have htexts : ∀ {lines lines' : List Line}, AlikeLines φ κ lines lines' →
      (lines'.map (·.text)).map (List.map κ) = (lines.map (·.text)).map (List.map κ) := by
    intro lines lines' h
    induction h with
    | nil => rfl
    | cons hl _ ih => simp only [List.map_cons, hl.text, ih]
  rw [print, Text.map_document hκ, htexts (alike_lines hκ hrecast h), ← Text.map_document hκ, print]

end Layout
end AbapLayout
