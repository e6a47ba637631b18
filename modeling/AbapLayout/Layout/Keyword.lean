import AbapLayout.Options.Basic
import AbapLayout.Text.Alphanumeric
import AbapLayout.Token

/-!
# Keywords

Which words are keywords, and the case in which keywords and pragmas are printed.  All other tokens
are printed as they are written.

A word that spells a keyword is a name behind an arrow and inside an inline declaration
(`DATA(line)`).  The comparison words (`EQ`, `LT`, ...) are keywords only behind an operand.
-/

namespace AbapLayout
namespace Keyword

/-- The words that may be keywords. -/
def table : List String :=
  ["ABSTRACT", "ADD", "ADJACENT", "ALIASES", "ALL", "AND", "ANY", "APPEND", "APPENDING", "AS",
   "ASCENDING", "ASSERT", "ASSIGN", "ASSIGNED", "ASSIGNING", "AT", "AUTHORITY-CHECK", "BACK",
   "BEGIN", "BETWEEN", "BINARY", "BOXED", "BREAK-POINT", "BY", "BYTE", "CALL", "CASE", "CAST",
   "CASTING", "CATCH", "CHANGING", "CHAIN", "CHECK", "CLASS", "CLASS-DATA", "CLASS-EVENTS",
   "CLASS-METHODS", "CLASS-POOL", "CLEANUP", "CLEAR", "CLIENT", "CLOSE", "COLLECT", "COMMIT",
   "COMPONENTS", "CONCATENATE", "COND", "CONDENSE", "CONSTANTS", "CONTINUE", "CONV",
   "CORRESPONDING", "CP", "CREATE", "CS", "DATA", "DEFAULT", "DEFERRED", "DEFINE", "DEFINITION",
   "DELETE", "DESCENDING", "DESCRIBE", "DISTINCT", "DIV", "DO", "DUPLICATES", "ELSE", "ELSEIF",
   "END", "END-OF-DEFINITION", "END-OF-SELECTION", "END-TEST-INJECTION", "END-TEST-SEAM",
   "ENDAT", "ENDCASE", "ENDCATCH", "ENDCHAIN", "ENDCLASS", "ENDDO", "ENDENHANCEMENT", "ENDEXEC",
   "ENDFORM", "ENDFUNCTION", "ENDIF", "ENDINTERFACE", "ENDLOOP", "ENDMETHOD", "ENDMODULE",
   "ENDON", "ENDPROVIDE", "ENDSELECT", "ENDTRY", "ENDWHILE", "EQ", "EVENTS", "EXACT",
   "EXCEPTIONS", "EXEC", "EXIT", "EXPORT", "EXPORTING", "FIELD-SYMBOL", "FIELD-SYMBOLS",
   "FIELDS", "FILTER", "FINAL", "FIND", "FIRST", "FOR", "FORM", "FORMAT", "FREE", "FRIENDS",
   "FROM", "FUNCTION", "FUNCTION-POOL", "GE", "GET", "GROUP", "GT", "HASHED", "HAVING", "IF",
   "IMPLEMENTATION", "IMPORT", "IMPORTING", "IN", "INCLUDE", "INDEX", "INHERITING", "INITIAL",
   "INITIALIZATION", "INNER", "INSERT", "INTERFACE", "INTERFACES", "INTO", "IS", "JOIN", "KEY",
   "LE", "LEAVE", "LEFT", "LET", "LIKE", "LINE", "LINES", "LOAD", "LOCAL", "LOOP", "LOWER", "LT",
   "MESSAGE", "METHOD", "METHODS", "MOD", "MODIFY", "MODULE", "MOVE", "MOVE-CORRESPONDING", "NE",
   "NEW", "NEXT", "NO", "NOT", "OBJECT", "OF", "OCCURS", "ON", "OPTIONAL", "OR", "ORDER",
   "OTHERS", "OUTPUT", "PARAMETERS", "PERFORM", "PRIMARY", "PRIVATE", "PROGRAM", "PROTECTED",
   "PUBLIC", "RAISE", "RAISING", "RANGE", "RANGES", "READ", "READ-ONLY", "RECEIVING",
   "REDEFINITION", "REDUCE", "REF", "REFERENCE", "REFRESH", "REPLACE", "REPORT", "RETURN",
   "RETURNING", "ROLLBACK", "ROWS", "SECTION", "SELECT", "SELECT-OPTIONS", "SELECTION-SCREEN",
   "SET", "SHIFT", "SINGLE", "SKIP", "SORT", "SORTED", "SPLIT", "STANDARD", "START-OF-SELECTION",
   "STRUCTURE", "SUBMIT", "SWITCH", "SYSTEM-EXCEPTIONS", "TABLE", "TABLES", "TEST-INJECTION",
   "TEST-SEAM", "THEN", "TIMES", "TO", "TRANSLATE", "TRANSPORTING", "TRY", "TYPE", "TYPE-POOLS",
   "TYPES", "UNASSIGN", "UNIQUE", "UNTIL", "UP", "UPDATE", "UPPER", "USING", "VALUE", "WHEN",
   "WHERE", "WHILE", "WITH", "WORK", "WRITE"]

def comparisons : List String :=
  ["EQ", "NE", "LT", "LE", "GT", "GE", "CP", "CS"]

/-- The words that declare a name in the brackets behind them. -/
def inlineDeclarations : List String :=
  ["DATA", "@DATA", "FINAL", "@FINAL", "FIELD-SYMBOL"]

/-- Whether the text of a token, in capital letters, is one of some words. -/
def spells (t : Token) (words : List String) : Bool :=
  words.contains (String.ofList t.upper)

/-- Whether a text begins like a name or a number; the empty text does. -/
def beginsLikeName : Text → Bool
  | [] => true
  | c :: _ => Text.isAlphanumeric c || "_<@/%$".toList.contains c

/-- Whether a token can stand on the left of a comparison. -/
def isOperand (t : Token) : Bool :=
  match t.role with
  | .literal => true
  | .word => t.isOneOf [")", "]"] || (beginsLikeName t.text && !spells t table)
  | _ => false

/-- Whether a name is declared between `before`, `previous` and a closing bracket. -/
def declaresInline (before : Option Token) (previous : Token) : Bool :=
  previous.isOneOf ["(", "["] && before.any (spells · inlineDeclarations)

/-- Whether a token is a keyword, where `previous` and `before` are the two tokens in front of it,
the nearer one first. -/
def isKeyword (t : Token) (previous before : Option Token) : Bool :=
  t.role == .word && spells t table &&
    match previous with
    | none => !spells t comparisons
    | some p =>
      if p.role == .arrow || declaresInline before p then false
      else if spells t comparisons then isOperand p
      else true

def setCase (keywordCase : KeywordCase) (t : Text) : Text :=
  match keywordCase with
  | .upper => Text.upper t
  | .lower => Text.lower t

/-- The text of a token as it is printed. -/
def printed (o : Options) (t : Token) (previous before : Option Token) : Text :=
  if t.role == .pragma || isKeyword t previous before then setCase o.keywordCase t.text else t.text

end Keyword
end AbapLayout
