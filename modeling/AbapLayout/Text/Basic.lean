/-!
# Texts

A text is the list of its code points, so every length, width and column of this library counts
code points.  Strings appear only where a text enters or leaves the library.
-/

namespace AbapLayout

/-- A text is the list of its code points. -/
abbrev Text := List Char

namespace Text

/-- Whether a character lies in one of the closed ranges of a table of code points. -/
def inRanges (table : List (Nat × Nat)) (c : Char) : Bool :=
  table.any fun range => range.1 ≤ c.toNat && c.toNat ≤ range.2

def blanks (n : Nat) : Text :=
  List.replicate n ' '

@[simp] theorem length_blanks (n : Nat) : (blanks n).length = n := by
  simp [blanks]

def startsWith (t start : Text) : Bool :=
  start.isPrefixOf t

def join (separator : Text) (parts : List Text) : Text :=
  separator.intercalate parts

end Text
end AbapLayout
