/-!
# Why a document cannot be read
-/

namespace AbapLayout
namespace Yaml

/-- Why a document cannot be read. -/
inductive Fault where
  /-- The text is no document, or it asks for what no value stands for. -/
  | malformed
  /-- The code of a character, a number or a date that does not exist. -/
  | noSuchValue
  /-- The code of a character, or a date, that is out of all bounds. -/
  | tooLarge
  /-- A list inside a list that is a key. -/
  | nestedKey
  /-- A scalar that is tagged as a switch and is none. -/
  | noSuchSwitch
  /-- A scalar that is tagged as a number and is empty. -/
  | emptyNumber
  /-- A version of the format that is not known. -/
  | noSuchVersion
deriving DecidableEq, Repr

end Yaml
end AbapLayout
