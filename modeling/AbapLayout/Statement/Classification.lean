import AbapLayout.Statement.Kind
import AbapLayout.Token

/-!
# The kind of a statement

A statement is known by its leading words.  Comments, pragmas and colons are passed over, and words
are compared in capital letters.
-/

namespace AbapLayout
namespace Kind

/-- Leading words that give the kind on their own. -/
def ofLeadingWord : List (String × Kind) :=
  [("IF", .ifBlock), ("ELSEIF", .elseIf), ("ELSE", .elseBranch), ("ENDIF", .endIf),
   ("ENDCASE", .endCase), ("DO", .doLoop), ("ENDDO", .endDo), ("WHILE", .whileLoop),
   ("ENDWHILE", .endWhile), ("LOOP", .loop), ("ENDLOOP", .endLoop), ("SELECT", .select),
   ("ENDSELECT", .endSelect), ("TRY", .tryBlock), ("CLEANUP", .cleanup), ("ENDTRY", .endTry),
   ("ENDCATCH", .endCatch), ("ENDCLASS", .endClass), ("ENDINTERFACE", .endInterface),
   ("METHOD", .method), ("ENDMETHOD", .endMethod), ("FUNCTION", .function),
   ("ENDFUNCTION", .endFunction), ("MODULE", .moduleBlock), ("ENDMODULE", .endModule),
   ("FORM", .form), ("ENDFORM", .endForm), ("DEFINE", .define),
   ("END-OF-DEFINITION", .endOfDefinition), ("CHAIN", .chain), ("ENDCHAIN", .endChain),
   ("ENDAT", .endAt), ("EXEC", .exec), ("ENDEXEC", .endExec), ("TEST-SEAM", .testSeam),
   ("END-TEST-SEAM", .endTestSeam), ("TEST-INJECTION", .testInjection),
   ("END-TEST-INJECTION", .endTestInjection)]

def tellingWords (tokens : List Token) : List String :=
  (tokens.filter fun t => !(t.role == .comment || t.role == .pragma || t.role == .colon)).map
    fun t => String.ofList t.upper

/-- Whether a class or interface is only announced. -/
def announces (words : List String) : Bool :=
  words.contains "DEFERRED" || words.contains "LOAD"

/-- The kind of a statement about a class.  Announcements and grants of friendship open no block. -/
def ofClassWords (words : List String) : Kind :=
  if announces words || (words.contains "LOCAL" && words.contains "FRIENDS") then .other
  else if words.contains "DEFINITION" then .classDefinition
  else if words.contains "IMPLEMENTATION" then .classImplementation
  else .other

def ofWords (first : String) (rest : List String) : Kind :=
  match ofLeadingWord.lookup first with
  | some kind => kind
  | none =>
    match first with
    | "CASE" => if rest.take 2 == ["TYPE", "OF"] then .caseType else .caseBlock
    | "WHEN" =>
      match rest.head? with
      | some "OTHERS" => .whenOthers
      | some "TYPE" => .whenType
      | _ => .whenBranch
    | "CATCH" =>
      if rest.head? == some "SYSTEM-EXCEPTIONS" then .catchSystemExceptions else .catchBranch
    | "CLASS" => ofClassWords (first :: rest)
    | "INTERFACE" => if announces (first :: rest) then .other else .interface
    | "AT" =>
      match rest.head? with
      | some second => if ["FIRST", "LAST", "NEW", "END"].contains second then .atBlock else .other
      | none => .other
    | _ => .other

def classify (tokens : List Token) : Kind :=
  match tellingWords tokens with
  | [] => if tokens.any Token.isComment then .comment else .other
  | first :: rest => ofWords first rest

end Kind
end AbapLayout
