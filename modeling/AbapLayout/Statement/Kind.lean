/-!
# Kinds of statements

The kinds of statements the layout tells apart, and how each takes part in block structure: it may
open a block, close one, or split one into branches.
-/

namespace AbapLayout

inductive Kind where
  | other
  | comment
  | ifBlock
  | elseIf
  | elseBranch
  | endIf
  | caseBlock
  | caseType
  | whenBranch
  | whenType
  | whenOthers
  | endCase
  | doLoop
  | endDo
  | whileLoop
  | endWhile
  | loop
  | endLoop
  | select
  | endSelect
  | tryBlock
  | catchBranch
  | cleanup
  | endTry
  | catchSystemExceptions
  | endCatch
  | classDefinition
  | classImplementation
  | endClass
  | interface
  | endInterface
  | method
  | endMethod
  | function
  | endFunction
  | moduleBlock
  | endModule
  | form
  | endForm
  | define
  | endOfDefinition
  | chain
  | endChain
  | atBlock
  | endAt
  | exec
  | endExec
  | testSeam
  | endTestSeam
  | testInjection
  | endTestInjection
deriving DecidableEq, Repr

namespace Kind

def names : List (Kind × String) :=
  [(.other, "Other"), (.comment, "Comment"), (.ifBlock, "If"), (.elseIf, "ElseIf"),
   (.elseBranch, "Else"), (.endIf, "EndIf"), (.caseBlock, "Case"), (.caseType, "CaseType"),
   (.whenBranch, "When"), (.whenType, "WhenType"), (.whenOthers, "WhenOthers"),
   (.endCase, "EndCase"), (.doLoop, "Do"), (.endDo, "EndDo"), (.whileLoop, "While"),
   (.endWhile, "EndWhile"), (.loop, "Loop"), (.endLoop, "EndLoop"), (.select, "Select"),
   (.endSelect, "EndSelect"), (.tryBlock, "Try"), (.catchBranch, "Catch"), (.cleanup, "Cleanup"),
   (.endTry, "EndTry"), (.catchSystemExceptions, "CatchSystemExceptions"),
   (.endCatch, "EndCatch"), (.classDefinition, "ClassDefinition"),
   (.classImplementation, "ClassImplementation"), (.endClass, "EndClass"),
   (.interface, "Interface"), (.endInterface, "EndInterface"), (.method, "MethodImplementation"),
   (.endMethod, "EndMethod"), (.function, "FunctionModule"), (.endFunction, "EndFunction"),
   (.moduleBlock, "Module"), (.endModule, "EndModule"), (.form, "Form"), (.endForm, "EndForm"),
   (.define, "Define"), (.endOfDefinition, "EndOfDefinition"), (.chain, "Chain"),
   (.endChain, "EndChain"), (.atBlock, "At"), (.endAt, "EndAt"), (.exec, "ExecSQL"),
   (.endExec, "EndExec"), (.testSeam, "TestSeam"), (.endTestSeam, "EndTestSeam"),
   (.testInjection, "TestInjection"), (.endTestInjection, "EndTestInjection")]

def name (k : Kind) : String :=
  ((names.find? (·.1 == k)).map (·.2)).getD ""

def ofName? (s : String) : Option Kind :=
  (names.find? (·.2 == s)).map (·.1)

/-- How a kind takes part in block structure. -/
structure Traits where
  /-- Stands one level further out than what comes before it. -/
  closes : Bool := false
  /-- What follows stands one level further in. -/
  opens : Bool := false
  /-- Ends one branch of a block and begins the next. -/
  middle : Bool := false
  /-- Opens a block only if the statement that closes it is there. -/
  optional : Bool := false
deriving DecidableEq, Repr

def traits : Kind → Traits
  | .ifBlock | .caseBlock | .caseType | .doLoop | .whileLoop | .loop | .tryBlock
  | .catchSystemExceptions | .classDefinition | .classImplementation | .interface | .method
  | .function | .moduleBlock | .form | .define | .chain | .atBlock | .exec | .testSeam
  | .testInjection =>
    { opens := true }
  | .elseIf | .elseBranch | .whenBranch | .whenType | .whenOthers | .catchBranch | .cleanup =>
    { opens := true, middle := true }
  | .endIf | .endCase | .endDo | .endWhile | .endLoop | .endSelect | .endTry | .endCatch
  | .endClass | .endInterface | .endMethod | .endFunction | .endModule | .endForm
  | .endOfDefinition | .endChain | .endAt | .endExec | .endTestSeam | .endTestInjection =>
    { closes := true }
  | .select => { opens := true, optional := true }
  | .other | .comment => {}

end Kind
end AbapLayout
