import AbapLayout.Proofs.Compression
import AbapLayout.Proofs.PrintedComments

/-!
# What lines say about their tokens

A printed line records which tokens stand on it, in which columns and as which texts.  The columns are
set when a token is put on a line, and corrected whenever the line is indented or glued to another
one.  Whatever blanks are wanted between tokens, what is recorded is true (`render_truthful`): every
token stands in its columns, in front of the first one and between two of them are blanks only, and
behind the last one stands at most a comment.  A comment that is a token itself is the last one of
its line.
-/

namespace AbapLayout

open Rendering Text

/-- A line shows the tokens that it records, and behind them at most some of the given comments. -/
structure Line.Truthful (o : Options) (comments : List Comment) (l : Line) : Prop where
  shown : ∀ p ∈ l.placements, (l.text.drop p.column).take p.printed.length = p.printed
  leading : ∀ p ∈ l.placements.head?, l.text.take p.column = blanks p.column
  apart : ∀ i p q, l.placements[i]? = some p → l.placements[i + 1]? = some q → ∃ w, l.Gap p q w
  trailing : ∀ p ∈ l.placements.getLast?, l.text.drop p.endColumn = [] ∨
    ∃ n, ∃ c ∈ comments, ∃ comment rest,
      CommentText.normalize o c.value = Comment.sign :: comment ∧
      l.text.drop p.endColumn = blanks n ++ (Comment.sign :: comment ++ rest)
  last : ∀ p ∈ l.placements.dropLast, p.token.isComment = false

namespace Line

variable {o : Options} {hollow : Prop} {cs comments : List Comment} {l : Line}

theorem Trail.eq_nil_or_sign
    {tail : Text} (h : Trail o cs tail) :
    tail = [] ∨ ∃ n, ∃ c ∈ cs, ∃ comment rest,
      CommentText.normalize o c.value = Comment.sign :: comment ∧
      tail = blanks n ++ (Comment.sign :: comment ++ rest) := by
  cases h with
  | nil => exact .inl rfl
  | @cons c cs rest n hc _ =>
      obtain ⟨text, hline, hvalue⟩ := hc
      obtain ⟨comment, -, heq⟩ := CommentText.normalize_sign o hline
      exact .inr ⟨n, c, by simp, comment, rest, hvalue ▸ heq, by rw [hvalue, heq]⟩

/-- A line without tokens records nothing. -/
theorem truthful_of_placements_eq_nil (h : l.placements = []) : l.Truthful o comments := by
  constructor <;> simp [h]

/-- A line that is made of its tokens and comments shows them. -/
theorem Holds.truthful
    (h : l.Holds o hollow cs) (hcs : ∀ c ∈ cs, c ∈ comments) :
    l.Truthful o comments := by
  rcases h.made with ⟨tail, ⟨body, htext, hspread⟩, htrail, -⟩ | ⟨-, -, hnone, -⟩
  · refine ⟨?_, ?_, ?_, ?_, h.last⟩
    · intro p hp
      simpa [htext] using (hspread.slice tail p hp).2
    · intro p hp
      obtain ⟨rest, hrest⟩ := List.head?_eq_some_iff.mp hp
      rw [hrest] at hspread
      cases hspread with
      | @cons _ n _ _ more hcolumn _ _ =>
          rw [htext, hcolumn, Nat.zero_add, List.append_assoc]
          exact List.take_left' (length_blanks n)
    · intro i p q hp hq
      rw [eq_take_append hp hq] at hspread
      obtain ⟨w, hcolumn, hblanks⟩ := hspread.gap tail
      exact ⟨w, hcolumn, by simpa [htext] using hblanks⟩
    · intro p hp
      have hend : p.endColumn = body.length := by
        simpa using hspread.endColumn_getLast hp
      rw [htext, hend, List.drop_left]
      refine htrail.eq_nil_or_sign.imp_right fun ⟨n, c, hc, hrest⟩ => ?_
      exact ⟨n, c, hcs c hc, hrest⟩
  · exact truthful_of_placements_eq_nil hnone

end Line

/-- Whatever blanks are wanted, the printed lines of a source show the tokens that they record, each
as its row spells it, and behind them only comments that its statements hold. -/
theorem render_truthful
    {source : Text} {filename : Option String} {raws : List RawStatement}
    {statements : List Statement} (hsplit : Source.split source filename = .ok raws)
    (harrange : Layout.arrange raws = .ok statements) (o : Options) (wanted : WantedBlanks) :
    ∀ l ∈ render o wanted statements,
      l.Truthful o (statements.flatMap Statement.attached) ∧
      ∀ p ∈ l.placements, ∃ s ∈ statements, ∃ row ∈ s.rows,
        (p.token, p.printed) ∈ spelling o none none row := by
  intro l hl
  constructor
  · obtain ⟨share, hprinted, hshare⟩ :=
      (Layout.distributed_render hsplit harrange o wanted).exists_of_mem hl
    rcases hprinted with ⟨rfl, -⟩ | hholds | ⟨hnone, -⟩
    · exact Line.truthful_of_placements_eq_nil rfl
    · exact hholds.truthful hshare
    · exact Line.truthful_of_placements_eq_nil hnone
  · intro p hp
    obtain ⟨-, hsound, hlexed⟩ := Layout.sound_of_split hsplit harrange
    have hfound : (p.token, p.printed) ∈ spelledLines (render o wanted statements) :=
      List.mem_flatMap.mpr ⟨l, hl, List.mem_map.mpr ⟨p, hp, rfl⟩⟩
    rw [spelled_render o wanted (lexed_colon hsound hlexed)] at hfound
    obtain ⟨row, hrow, hspelling⟩ := List.mem_flatMap.mp hfound
    obtain ⟨s, hs, hrow⟩ := List.mem_flatMap.mp hrow
    exact ⟨s, hs, row, hrow, hspelling⟩

/-- The case of a chain with a comment inside a member and one behind it, whose bracket moves up,
with three blanks wanted in front of every token. -/
theorem render_truthful_chain :
    ∃ raws statements,
      Source.split "data: a type i, \"c\nb( 1\n). \"d\n".toList none = .ok raws ∧
      Layout.arrange raws = .ok statements ∧
      ∀ l ∈ render .default (fun _ => some 3) statements,
        l.Truthful .default (statements.flatMap Statement.attached) ∧
        ∀ p ∈ l.placements, ∃ s ∈ statements, ∃ row ∈ s.rows,
          (p.token, p.printed) ∈ spelling .default none none row := by
  obtain ⟨raws, statements, hsplit, harrange, -⟩ := @Layout.format_eq_ok .default
    "data: a type i, \"c\nb( 1\n). \"d\n".toList none
    { text := "DATA: a TYPE i, \" c\n      b( 1 ). \" d\n".toList }
    (eq_ok_of_toOption (by decide +kernel)) rfl
  exact ⟨raws, statements, hsplit, harrange,
    render_truthful hsplit harrange .default fun _ => some 3⟩

end AbapLayout
