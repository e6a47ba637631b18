import AbapLayout.Text.Printable

/-!
# Quoted texts

How a text is shown between quotes: a backslash marks the quote, the backslash itself, and every
character that would not be seen.
-/

namespace AbapLayout
namespace Text

/-- The hexadecimal digits of a number, filled up with zeros. -/
def hexPadded (width n : Nat) : String :=
  let digits := Nat.toDigits 16 n
  String.ofList (List.replicate (width - digits.length) '0' ++ digits)

/-- A character between the given quotes. -/
def quotedChar (quote c : Char) : String :=
  if c = quote ∨ c = '\x5c' then String.ofList ['\x5c', c]
  else if c = '\n' then "\x5cn"
  else if c = '\r' then "\x5cr"
  else if c = '\t' then "\x5ct"
  else if isPrintable c then String.singleton c
  else if c.toNat < 0x100 then "\x5cx" ++ hexPadded 2 c.toNat
  else if c.toNat < 0x10000 then "\x5cu" ++ hexPadded 4 c.toNat
  else "\x5cU" ++ hexPadded 8 c.toNat

/-- A text in quotes: straight ones, or double ones if only straight ones occur in it. -/
def quoted (s : String) : String :=
  let quote := if s.contains '\x27' && !s.contains '\x22' then '\x22' else '\x27'
  String.singleton quote ++ String.join (s.toList.map (quotedChar quote)) ++ String.singleton quote

end Text
end AbapLayout
