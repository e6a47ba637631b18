import AbapLayout.Proofs.Leftover
import Mathlib.Data.List.Forall2
import Mathlib.Data.List.Induction

/-!
# Which sources are accepted

A source is cut into statements exactly when it reads as a sequence of them: its file may hold a
program, it is not blank, each of its lines can be cut into tokens, and of all its tokens that are
no comments the last one is a period.  Chains, pragmas and brackets play no part in this, although
the machine that cuts the tokens keeps them apart: whatever it takes up stays held until the next
period, and every token but a comment makes it hold something.  A source that is not accepted is
refused for the first of the four conditions it fails (`Source.split_accepts_iff`).
-/

namespace AbapLayout

/-! ## The last period -/

/-- Of the tokens that are no comments the last one, if any, is a period. -/
def EndsInPeriod (ts : List Token) : Prop :=
  ∀ t, (ts.filter (!·.isComment)).getLast? = some t → t.isPeriod = true

/-- A token that is no comment begins on the line, and neither it nor a token behind it is a
period. -/
def LeftOpenOn (line : Nat) (ts : List Token) : Prop :=
  ∃ before t behind, ts = before ++ t :: behind ∧ (∀ u ∈ t :: behind, u.isPeriod = false) ∧
    t.isComment = false ∧ t.span.startLine = line

theorem endsInPeriod_concat_iff {ts : List Token} {t : Token} (ht : t.isComment = false) :
    EndsInPeriod (ts ++ [t]) ↔ t.isPeriod = true := by
  simp [EndsInPeriod, List.filter_append, ht]

theorem endsInPeriod_concat_comment {ts : List Token} {t : Token} (ht : t.isComment = true) :
    EndsInPeriod (ts ++ [t]) ↔ EndsInPeriod ts := by
  simp [EndsInPeriod, List.filter_append, ht]

theorem LeftOpenOn.concat
    {line : Nat} {ts : List Token} {u : Token} (h : LeftOpenOn line ts)
    (hu : u.isPeriod = false) :
    LeftOpenOn line (ts ++ [u]) := by
  obtain ⟨before, t, behind, rfl, hopen, hcode, hline⟩ := h
  refine ⟨before, t, behind ++ [u], by simp, ?_, hcode, hline⟩
  intro v hv
  rw [← List.cons_append, List.mem_append, List.mem_singleton] at hv
  rcases hv with hv | rfl
  · exact hopen v hv
  · exact hu

namespace Outline

/-- Something that is held begins on the line. -/
def Holds (k : Outline) (line : Nat) : Prop :=
  k.pending = some line ∨ k.pragmas = some line ∨ k.colon = some line

theorem holds_of_leftover? {k : Outline} {line : Nat} (h : k.leftover? = some line) :
    k.Holds line := by
  simp only [leftover?, Option.or_eq_some_iff] at h
  rcases h with h | ⟨-, h | ⟨-, h⟩⟩
  · exact .inl h
  · exact .inr (.inl h)
  · exact .inr (.inr h)

theorem isSome_leftover?_iff {k : Outline} :
    k.leftover?.isSome ↔ k.pending.isSome ∨ k.pragmas.isSome ∨ k.colon.isSome := by
  simp [leftover?]

theorem push_comment {t : Token} (ht : t.isComment = true) (k : Outline) : k.push t = k := by
  have hrole : t.role = .comment := by simpa [Token.isComment] using ht
  rw [push, hrole]

/-- A period lets go of everything. -/
theorem push_period {t : Token} (ht : t.isPeriod = true) (k : Outline) : k.push t = {} := by
  obtain ⟨hrole, htext⟩ : t.role = .punctuation ∧ t.text = ['.'] := by
    simpa [Token.isPeriod] using ht
  simp [push, hrole, pushCode, htext]

theorem holds_pushCode
    {k : Outline} {t : Token} {line : Nat} (h : (k.pushCode t).Holds line) :
    k.Holds line ∨ t.span.startLine = line := by
  unfold pushCode at h
  dsimp only at h
  split at h
  · split at h
    · simp [Holds] at h
    · simp only [Holds, reduceCtorEq, false_or] at h
      exact .inl (.inr (.inr h))
  · simp only [Holds, Option.or_eq_some_iff, Option.some.injEq] at h
    rcases h with (h | ⟨-, h⟩) | h
    · exact .inl (.inl h)
    · exact .inr h
    · exact .inl (.inr h)

/-- Nothing is held but what was held before and the token taken. -/
theorem holds_push
    {k : Outline} {t : Token} {line : Nat} (ht : t.isComment = false)
    (h : (k.push t).Holds line) :
    k.Holds line ∨ t.span.startLine = line := by
  unfold push at h
  split at h
  next hrole => simp [Token.isComment, hrole] at ht
  next =>
    simp only [Holds, Option.or_eq_some_iff, Option.some.injEq] at h
    rcases h with h | (h | ⟨-, h⟩) | h
    · exact .inl (.inl h)
    · exact .inl (.inr (.inl h))
    · exact .inr h
    · exact .inl (.inr (.inr h))
  next =>
    split at h
    · simp only [Holds, reduceCtorEq, false_or, Option.some.injEq] at h
      rcases h with h | h
      · exact .inl (.inr (.inl h))
      · exact .inr h
    · exact holds_pushCode h
  next => exact holds_pushCode h

/-- A comma ends a member, but its chain stays open. -/
theorem isSome_leftover?_pushCode {k : Outline} {t : Token} (ht : t.isPeriod = false) :
    (k.pushCode t).leftover?.isSome := by
  unfold pushCode
  dsimp only
  split
  next hends =>
    obtain ⟨hrole, hends⟩ := hends
    have hcomma : t.text ≠ ['.'] := by simpa [Token.isPeriod, hrole] using ht
    have hchain : k.colon.isSome := (hends.resolve_left hcomma).1
    simp [hcomma, isSome_leftover?_iff, hchain]
  · simp [isSome_leftover?_iff]

/-- Every token but a period and a comment leaves something held. -/
theorem isSome_leftover?_push
    {k : Outline} {t : Token} (hcode : t.isComment = false) (hperiod : t.isPeriod = false) :
    (k.push t).leftover?.isSome := by
  unfold push
  split
  next hrole => simp [Token.isComment, hrole] at hcode
  next => simp [isSome_leftover?_iff]
  next =>
    split
    · simp [isSome_leftover?_iff]
    · exact isSome_leftover?_pushCode hperiod
  next => exact isSome_leftover?_pushCode hperiod

theorem after_concat (ts : List Token) (t : Token) (k : Outline) :
    after (ts ++ [t]) k = (after ts k).push t := by
  rw [after_append]
  rfl

/-- Nothing is left over exactly behind a period and the comments that follow it. -/
theorem leftover?_after_eq_none_iff (ts : List Token) :
    (after ts {}).leftover? = none ↔ EndsInPeriod ts := by
  induction ts using List.reverseRecOn with
  | nil => simp [after, leftover?, EndsInPeriod]
  | append_singleton ts t ih =>
      rw [after_concat]
      cases hcode : t.isComment with
      | true => rw [push_comment hcode, ih, endsInPeriod_concat_comment hcode]
      | false =>
          rw [endsInPeriod_concat_iff hcode]
          cases hperiod : t.isPeriod with
          | true => simp [push_period hperiod, leftover?]
          | false =>
              have hheld := isSome_leftover?_push (k := after ts {}) hcode hperiod
              rw [← Option.not_isSome_iff_eq_none]
              simp [hheld]

/-- Everything that is held stands behind the last period. -/
theorem leftOpenOn_of_holds
    {line : Nat} {ts : List Token} (h : (after ts {}).Holds line) :
    LeftOpenOn line ts := by
  induction ts using List.reverseRecOn with
  | nil => simp [after, Holds] at h
  | append_singleton ts t ih =>
      rw [after_concat] at h
      cases hperiod : t.isPeriod with
      | true => simp [push_period hperiod, Holds] at h
      | false =>
          cases hcode : t.isComment with
          | true =>
              rw [push_comment hcode] at h
              exact (ih h).concat hperiod
          | false =>
              rcases holds_push hcode h with hbefore | hline
              · exact (ih hbefore).concat hperiod
              · exact ⟨ts, t, [], rfl, by simpa using hperiod, hcode, hline⟩

end Outline

namespace Unfinished

variable {ts : List Token}

/-- Tokens are cut into statements exactly when they end in a period. -/
theorem statements_accepts_iff :
    (∃ raws, ({} : Unfinished).statements ts = .ok raws) ↔ EndsInPeriod ts := by
  rw [← Outline.leftover?_after_eq_none_iff]
  cases hraws : ({} : Unfinished).statements ts with
  | ok raws =>
      refine iff_of_true ⟨raws, rfl⟩ (Option.eq_none_iff_forall_ne_some.mpr ?_)
      intro line hline
      have herror : ({} : Unfinished).statements ts = .error (.unterminated line) :=
        statements_eq_error_iff.mpr ⟨line, hline, rfl⟩
      simp [hraws] at herror
  | error rejection =>
      obtain ⟨line, hline, -⟩ := statements_eq_error_iff.mp hraws
      refine iff_of_false (by simp) ?_
      rw [show Outline.after ts {} = Outline.after ts (outline {}) from rfl, hline]
      simp

theorem leftOpenOn_of_statements
    {rejection : Rejection} (h : ({} : Unfinished).statements ts = .error rejection) :
    ∃ line, rejection = .unterminated line ∧ LeftOpenOn line ts := by
  obtain ⟨line, hline, rfl⟩ := statements_eq_error_iff.mp h
  exact ⟨line, rfl, Outline.leftOpenOn_of_holds (Outline.holds_of_leftover? hline)⟩

end Unfinished

/-! ## Lines -/

/-- Each of some consecutive lines, the first of which has the given number, is cut into the tokens
beside it. -/
def Tokenized (first : Nat) (lines : List Text) (tss : List (List Token)) : Prop :=
  List.Forall₂ (fun (l, n) ts => tokenize n l = .ok ts) (lines.zipIdx first) tss

/-- The given one of some lines has the fault, and all lines before it are cut into tokens. -/
def FirstFaultAt (fault : LexFault) (line first : Nat) (lines : List Text) : Prop :=
  ∃ before l behind, lines = before ++ l :: behind ∧ (∃ tss, Tokenized first before tss) ∧
    tokenize line l = .error fault ∧ line = first + before.length

theorem tokenized_cons_iff
    {first : Nat} {l : Text} {lines : List Text} {tss : List (List Token)} :
    Tokenized first (l :: lines) tss ↔
      ∃ ts more, tokenize first l = .ok ts ∧ Tokenized (first + 1) lines more ∧
        tss = ts :: more := by
  simp [Tokenized, List.zipIdx_cons, List.forall₂_cons_left_iff]

theorem tokenizeLines_eq_ok_iff {first : Nat} {lines : List Text} {ts : List Token} :
    tokenizeLines first lines = .ok ts ↔
      ∃ tss, Tokenized first lines tss ∧ ts = tss.flatten := by
  induction lines generalizing first ts with
  | nil => simp [tokenizeLines, Tokenized, eq_comm]
  | cons l rest ih =>
      simp only [tokenized_cons_iff]
      rw [tokenizeLines]
      cases tokenize first l with
      | error fault => simp
      | ok us =>
          dsimp only
          rw [map_eq_ok_iff]
          constructor
          · rintro ⟨vs, hvs, rfl⟩
            obtain ⟨tss, htss, rfl⟩ := ih.mp hvs
            exact ⟨us :: tss, ⟨us, tss, rfl, htss, rfl⟩, rfl⟩
          · rintro ⟨-, ⟨vs, tss, hvs, htss, rfl⟩, rfl⟩
            injection hvs with hvs
            subst hvs
            exact ⟨tss.flatten, ih.mpr ⟨tss, htss, rfl⟩, rfl⟩

theorem firstFaultAt_of_tokenizeLines
    {first : Nat} {lines : List Text} {rejection : Rejection}
    (h : tokenizeLines first lines = .error rejection) :
    ∃ fault line, rejection = .lexical fault line ∧ FirstFaultAt fault line first lines := by
  induction lines generalizing first rejection with
  | nil => simp [tokenizeLines] at h
  | cons l rest ih =>
      rw [tokenizeLines] at h
      cases hl : tokenize first l with
      | error fault =>
          rw [hl] at h
          injection h with h
          exact ⟨fault, first, h.symm, [], l, rest, rfl, ⟨[], .nil⟩, hl, rfl⟩
      | ok ts =>
          rw [hl] at h
          cases hrest : tokenizeLines (first + 1) rest with
          | ok us => simp [hrest, Except.map] at h
          | error rejection' =>
              simp only [hrest, Except.map, Except.error.injEq] at h
              subst h
              obtain ⟨fault, line, hfault, before, m, behind, rfl, ⟨tss, htss⟩, hm, hline⟩ :=
                ih hrest
              refine ⟨fault, line, hfault, l :: before, m, behind, rfl, ⟨ts :: tss, ?_⟩, hm, ?_⟩
              · exact tokenized_cons_iff.mpr ⟨ts, tss, hl, htss, rfl⟩
              · rw [hline, List.length_cons]
                omega

/-! ## Sources -/

theorem Text.isBlankText_unifyBreaks (t : Text) : isBlankText (unifyBreaks t) = isBlankText t := by
  have hfeed : isBlank '\n' = true := by decide
  have hreturn : isBlank '\r' = true := by decide
  unfold isBlankText
  fun_induction unifyBreaks t <;> simp_all

namespace Source

/-- The name of the file, if any, is one of files that hold programs. -/
def NamesProgram (filename : Option String) : Prop :=
  ∀ name, filename = some name → ¬ ".ddlsrc".toList <:+ Text.lower name.toList

/-- Behind the byte order marks in front something stands that is not blank. -/
def NotBlank (source : Text) : Prop :=
  ∃ c ∈ source.dropWhile (· == byteOrderMark), Text.isBlank c = false

/-- What a source must fulfil to be cut into statements. -/
structure Accepted (source : Text) (filename : Option String) : Prop where
  named : NamesProgram filename
  notBlank : NotBlank source
  ended : ∃ tss, Tokenized 1 (Text.lines (clean source)) tss ∧ EndsInPeriod tss.flatten

/-- What is wrong with a source that is refused for the given reason. -/
def RefusedFor (source : Text) (filename : Option String) : Rejection → Prop
  | .noObject name => filename = some name ∧ ¬ NamesProgram filename
  | .noStatements => NamesProgram filename ∧ ¬ NotBlank source
  | .lexical fault line =>
    NamesProgram filename ∧ NotBlank source ∧
      FirstFaultAt fault line 1 (Text.lines (clean source))
  | .unterminated line =>
    NamesProgram filename ∧ NotBlank source ∧
      ∃ tss, Tokenized 1 (Text.lines (clean source)) tss ∧ LeftOpenOn line tss.flatten

theorem isBlankText_clean_iff {source : Text} :
    Text.isBlankText (clean source) = false ↔ NotBlank source := by
  rw [clean, Text.isBlankText_unifyBreaks, Text.isBlankText, NotBlank]
  simp

variable {source : Text} {filename : Option String}

theorem split_of_namesProgram (h : NamesProgram filename) :
    split source filename = splitText source := by
  cases filename with
  | none => rfl
  | some name =>
      have hprogram : holdsNoProgram name = false := by
        rw [holdsNoProgram, ← Bool.not_eq_true, List.isSuffixOf_iff_suffix]
        exact h name rfl
      simp [split, hprogram]

theorem split_of_not_namesProgram (h : ¬ NamesProgram filename) (source : Text) :
    ∃ name, filename = some name ∧ split source filename = .error (.noObject name) := by
  obtain ⟨name, rfl, hname⟩ : ∃ name, filename = some name ∧
      ".ddlsrc".toList <:+ Text.lower name.toList := by simpa [NamesProgram] using h
  have hprogram : holdsNoProgram name = true := List.isSuffixOf_iff_suffix.mpr hname
  exact ⟨name, rfl, by simp [split, hprogram]⟩

theorem splitText_of_not_notBlank (h : ¬ NotBlank source) :
    splitText source = .error .noStatements := by
  have hblank : Text.isBlankText (clean source) = true := by
    rwa [← isBlankText_clean_iff, Bool.not_eq_false] at h
  rw [splitText, if_pos hblank]

theorem splitText_of_notBlank (h : NotBlank source) :
    splitText source =
      match tokens source with
      | .error rejection => .error rejection
      | .ok ts => ({} : Unfinished).statements ts := by
  have hnotBlank : ¬ Text.isBlankText (clean source) = true := by
    simp [isBlankText_clean_iff.mpr h]
  exact if_neg hnotBlank

theorem split_of_accepted (h : Accepted source filename) :
    ∃ raws, split source filename = .ok raws := by
  obtain ⟨tss, htss, hended⟩ := h.ended
  have htokens : tokens source = .ok tss.flatten := tokenizeLines_eq_ok_iff.mpr ⟨tss, htss, rfl⟩
  obtain ⟨raws, hraws⟩ := Unfinished.statements_accepts_iff.mpr hended
  refine ⟨raws, ?_⟩
  rw [split_of_namesProgram h.named, splitText_of_notBlank h.notBlank, htokens]
  exact hraws

theorem refusedFor_of_split
    {rejection : Rejection} (h : split source filename = .error rejection) :
    RefusedFor source filename rejection := by
  by_cases hnamed : NamesProgram filename
  · rw [split_of_namesProgram hnamed] at h
    by_cases hblank : NotBlank source
    · rw [splitText_of_notBlank hblank] at h
      cases htokens : tokens source with
      | error rejection' =>
          rw [htokens] at h
          injection h with h
          subst h
          obtain ⟨fault, line, rfl, hfault⟩ := firstFaultAt_of_tokenizeLines htokens
          exact ⟨hnamed, hblank, hfault⟩
      | ok ts =>
          rw [htokens] at h
          obtain ⟨line, rfl, hopen⟩ := Unfinished.leftOpenOn_of_statements h
          obtain ⟨tss, htss, rfl⟩ := tokenizeLines_eq_ok_iff.mp htokens
          exact ⟨hnamed, hblank, tss, htss, hopen⟩
    · rw [splitText_of_not_notBlank hblank] at h
      injection h with h
      subst h
      exact ⟨hnamed, hblank⟩
  · obtain ⟨name, hname, hrefused⟩ := split_of_not_namesProgram hnamed source
    rw [hrefused] at h
    injection h with h
    subst h
    exact ⟨hname, hnamed⟩

theorem accepted_of_split {raws : List RawStatement} (h : split source filename = .ok raws) :
    Accepted source filename := by
  obtain ⟨ts, hts, hraws⟩ := tokens_of_split h
  obtain ⟨tss, htss, rfl⟩ := tokenizeLines_eq_ok_iff.mp hts
  refine ⟨?_, ?_, tss, htss, Unfinished.statements_accepts_iff.mp ⟨raws, hraws⟩⟩
  · by_contra hnamed
    obtain ⟨name, -, hrefused⟩ := split_of_not_namesProgram hnamed source
    simp [hrefused] at h
  · by_contra hblank
    have hrefused := splitText_of_not_notBlank hblank
    simp [splitText_of_split h] at hrefused

/-- A source is cut into statements exactly when it is accepted.  Otherwise it is refused for the
first that applies of the name of its file, its being blank, its first faulty line and a token
behind its last period. -/
theorem split_accepts_iff (source : Text) (filename : Option String) :
    ((∃ raws, split source filename = .ok raws) ↔ Accepted source filename) ∧
      ∀ rejection, split source filename = .error rejection →
        RefusedFor source filename rejection :=
  ⟨⟨fun ⟨_, h⟩ => accepted_of_split h, split_of_accepted⟩, fun _ => refusedFor_of_split⟩

/-- The case of a chain with a colon in brackets, a pragma in front of its period and a comment
behind, of a chain left open behind a comma, and of a lone pragma. -/
theorem split_accepts_iff_chains :
    Accepted "DATA: a(b:c), d ##X.\r* e".toList (some "z.prog.abap") ∧
      RefusedFor "a.\nDATA: b,\n* c".toList none (.unterminated 2) ∧
      RefusedFor "a.\n* b\n##C \"d".toList none (.unterminated 3) ∧
      RefusedFor "a.\nb = 'c\n|d.".toList none (.lexical .openLiteral 2) := by
  refine ⟨(split_accepts_iff _ _).1.mp (exists_eq_ok_of_isOk ?_), (split_accepts_iff _ _).2 _ ?_,
    (split_accepts_iff _ _).2 _ ?_, (split_accepts_iff _ _).2 _ ?_⟩
  · decide +kernel
  · decide +kernel
  · decide +kernel
  · decide +kernel

end Source
end AbapLayout
