import AbapLayout.Comment
import AbapLayout.Options.Basic

/-!
# The text of comments

The blanks around the sign of a comment.  Pseudo comments are printed as they are written.
-/

namespace AbapLayout
namespace CommentText

/-- A comment text with a blank between its sign and a letter or digit behind it. -/
def normalize (o : Options) (value : Text) : Text :=
  if o.spaceAfterCommentSign then
    match value.dropWhile Text.isBlank with
    | first :: following :: rest =>
      if first = Comment.sign ∧ !Comment.isPseudoText value ∧ following.isAlphanum then
        value.takeWhile Text.isBlank ++ first :: ' ' :: following :: rest
      else value
    | _ => value
  else value

def attach (o : Options) (line value : Text) : Text :=
  let formatted := normalize o value
  if !o.spaceBeforeCommentSign || line.isEmpty || line.getLast? == some ' ' then line ++ formatted
  else line ++ ' ' :: formatted

/-- A comment on a line of its own. -/
def standing (o : Options) (indent : Nat) (value : Text) : Text :=
  if Comment.isStarText value then Text.trimRight value else attach o (Text.blanks indent) value

end CommentText
end AbapLayout
