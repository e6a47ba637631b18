import AbapLayout.Text.Lines

/-!
# Texts as bytes

Files hold UTF-8.  A byte order mark at the front of a file is dropped, also one that the end of the
file cuts short, and every kind of line break becomes a line feed.
-/

namespace AbapLayout
namespace Text

def markBytes : List UInt8 :=
  [0xEF, 0xBB, 0xBF]

def dropMark (bytes : List UInt8) : List UInt8 :=
  if markBytes.isPrefixOf bytes then bytes.drop markBytes.length
  else if bytes.isPrefixOf markBytes then []
  else bytes

/-- The text of bytes, if they are well formed. -/
def ofUtf8? (bytes : List UInt8) : Option Text :=
  (String.fromUTF8? ⟨bytes.toArray⟩).map fun s => unifyBreaks s.toList

/-- The text of a file. -/
def ofFile? (bytes : List UInt8) : Option Text :=
  ofUtf8? (dropMark bytes)

def toUtf8 (t : Text) : List UInt8 :=
  (String.ofList t).toUTF8.toList

end Text
end AbapLayout
