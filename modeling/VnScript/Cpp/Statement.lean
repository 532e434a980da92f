import VnScript.Cpp.Expression
import VnScript.Tree.Dump

namespace VnScript

namespace Cpp

structure Line where
  indent : Nat
  text : String

namespace Line

def blank : Line := ⟨0, ""⟩

def render (l : Line) : String := String.join (List.replicate l.indent "    ") ++ l.text ++ "\n"

end Line

/-- The names declared in each open block, the innermost first, and the number
of the next name made up for a switch or a handler. -/
structure Scope where
  blocks : List (List String)
  nextNumber : Nat

namespace Scope

def start : Scope := ⟨[], 0⟩

def declare (name : String) (s : Scope) : Scope :=
  match s.blocks with
  | [] => s
  | names :: outer => { s with blocks := (name :: names) :: outer }

def declares (s : Scope) (name : String) : Bool := s.blocks.any fun names => names.contains name

end Scope

/-- Generation in scopes. What stands for a statement that has no C++ form is read. -/
abbrev Gen := ReaderT (Stmt → String) (StateM Scope)

def unsupportedStatement (s : Stmt) : String := "/* unsupported statement: " ++ s.dump ++ " */"

def inBlock {α : Type} (names : List String) (content : Gen α) : Gen α := do
  let outer := (← get).blocks
  modify fun s => { s with blocks := names :: s.blocks }
  let result ← content
  modify fun s => { s with blocks := outer }
  return result

def freshNumber : Gen Nat := do
  let s ← get
  set { s with nextNumber := s.nextNumber + 1 }
  return s.nextNumber

variable (classes : List String)

def initialText (type : VariableType) (name : String) (value : Option Expr) : String :=
  match type, value with
  | .typed t, some e => typeText t ++ " " ++ name ++ " = " ++ e.cpp classes
  | .typed t, none => typeText t ++ " " ++ name ++ "\x7b\x7d"
  | .auto, none => dynamicType ++ " " ++ name
  | .define, none => "std::string " ++ name ++ " = \"\""
  | _, some e => "auto " ++ name ++ " = " ++ e.ownedCpp classes

/-- A declaration or an expression as a statement, without its semicolon. The
first assignment to a name declares it. -/
def simpleText (s : Stmt) : Gen String := do
  match s with
  | .declare type name value =>
    modify (Scope.declare name)
    return initialText classes type (mangle name) value
  | .expr (.assign name value) =>
    if (← get).declares name then return (Expr.assign name value).cpp classes
    else
      modify (Scope.declare name)
      return "auto " ++ mangle name ++ " = " ++ value.ownedCpp classes
  | .expr e => return e.cpp classes
  | _ => return (← read) s

def simpleLine (indent : Nat) (s : Stmt) : Gen (List Line) :=
  return [⟨indent, (← simpleText classes s) ++ ";"⟩]

/-- A return statement. In `main` the value is computed for its effects only
and the result is zero. -/
def returnLines (inMain : Bool) (indent : Nat) (value : Option Expr) : List Line :=
  match inMain, value with
  | true, some e =>
    [⟨indent, "static_cast<void>(" ++ e.cpp classes ++ ");"⟩, ⟨indent, "return 0;"⟩]
  | true, none => [⟨indent, "return 0;"⟩]
  | false, some e => [⟨indent, "return " ++ e.cpp classes ++ ";"⟩]
  | false, none => [⟨indent, "return;"⟩]

def elementType (type : Option TypeName) : String := (type.map typeText).getD "auto"

def noMatchLines (indent : Nat) (subject : String) (first : Bool) : List Line :=
  [⟨indent, if first then "\x7b" else "else \x7b"⟩,
    ⟨indent + 1, "throw vn_error(\"ValueError\", \"No case matches switch value \" + vn_to_string(" ++
      subject ++ "));"⟩,
    ⟨indent, "\x7d"⟩]

/-- The head of a handler: errors of other types go on upwards. -/
def catchLines (indent : Nat) (caught errorType binding : String) : List Line :=
  let filter := if errorType = "Error" then [] else
    [⟨indent + 1, "if (!vn_error_is(" ++ caught ++ ", " ++ Text.quoted errorType ++ ")) \x7b"⟩,
      ⟨indent + 2, "throw;"⟩,
      ⟨indent + 1, "\x7d"⟩]
  ⟨indent, "\x7d catch (const std::exception& " ++ caught ++ ") \x7b"⟩ :: filter ++
    [⟨indent + 1, "std::string " ++ mangle binding ++ " = " ++ caught ++ ".what();"⟩]

end Cpp

open Cpp

variable (classes : List String) (inMain : Bool)

mutual

def Stmt.lines (indent : Nat) : Stmt → Gen (List Line)
  | .comment text => return [⟨indent, "// " ++ text⟩]
  | .declare type name value => simpleLine classes indent (.declare type name value)
  | .expr e => simpleLine classes indent (.expr e)
  | .ret value => return returnLines classes inMain indent value
  | .conditional clause => clause.lines indent
  | .forLoop initial condition increment body => inBlock [] do
    -- The names of the head are those of the loop, and not of the block around it.
    let head := (← simpleText classes initial) ++ "; " ++ condition.cpp classes ++ "; " ++
      increment.cpp classes
    let inner ← inBlock [] (blockLines (indent + 1) body)
    return ⟨indent, "for (" ++ head ++ ") \x7b"⟩ :: inner ++ [⟨indent, "\x7d"⟩]
  | .forIn name type collection body => do
    let head := elementType type ++ " " ++ mangle name ++ " : " ++ collection.ownedCpp classes
    let inner ← inBlock [name] (inBlock [] (blockLines (indent + 1) body))
    return ⟨indent, "for (" ++ head ++ ") \x7b"⟩ :: inner ++ [⟨indent, "\x7d"⟩]
  | .whileLoop condition body => do
    let inner ← inBlock [] (blockLines (indent + 1) body)
    return ⟨indent, "while (" ++ condition.cpp classes ++ ") \x7b"⟩ :: inner ++ [⟨indent, "\x7d"⟩]
  | .doWhile body condition => do
    let inner ← inBlock [] (blockLines (indent + 1) body)
    return ⟨indent, "do \x7b"⟩ :: inner ++
      [⟨indent, "\x7d while (" ++ condition.cpp classes ++ ");"⟩]
  | .switch subject cases => do
    -- The subject is evaluated once, for all cases.
    let name := "vn_switch_" ++ toString (← freshNumber)
    let inner ← caseLines (indent + 1) name "if" cases
    return [⟨indent, "\x7b"⟩,
        ⟨indent + 1, "const auto " ++ name ++ " = " ++ subject.ownedCpp classes ++ ";"⟩] ++
      inner ++ noMatchLines (indent + 1) name cases.isEmpty ++ [⟨indent, "\x7d"⟩]
  | .attempt body errorType binding handler => do
    let caught := "vn_caught_" ++ toString (← freshNumber)
    let inner ← inBlock [] (blockLines (indent + 1) body)
    let after ← inBlock [binding] (inBlock [] (blockLines (indent + 1) handler))
    return ⟨indent, "try \x7b"⟩ :: inner ++ catchLines indent caught errorType binding ++ after ++
      [⟨indent, "\x7d"⟩]

def blockLines (indent : Nat) : List Stmt → Gen (List Line)
  | [] => return []
  | s :: rest => do
    let first ← s.lines indent
    return first ++ (← blockLines indent rest)

def Conditional.lines (indent : Nat) : Conditional → Gen (List Line)
  | .mk condition body elseIfs orElse => do
    let inner ← inBlock [] (blockLines (indent + 1) body)
    let further ← clauseLines indent elseIfs
    let last ← match orElse with
      | some b =>
        let inner ← inBlock [] (blockLines (indent + 1) b)
        pure (⟨indent, "\x7d else \x7b"⟩ :: inner)
      | none => pure []
    return ⟨indent, "if (" ++ condition.cpp classes ++ ") \x7b"⟩ :: inner ++ further ++ last ++
      [⟨indent, "\x7d"⟩]

def clauseLines (indent : Nat) : List Conditional → Gen (List Line)
  | [] => return []
  | .mk condition body _ _ :: rest => do
    let inner ← inBlock [] (blockLines (indent + 1) body)
    return ⟨indent, "\x7d else if (" ++ condition.cpp classes ++ ") \x7b"⟩ :: inner ++
      (← clauseLines indent rest)

/-- The cases of a switch as a chain of conditionals, the first of them opened
by `word`. -/
def caseLines (indent : Nat) (subject word : String) : List Case → Gen (List Line)
  | [] => return []
  | .mk value body :: rest => do
    let text := operand value (value.cpp classes) .equality true
    let inner ← inBlock [] (blockLines (indent + 1) body)
    return ⟨indent, word ++ " (" ++ subject ++ " == " ++ text ++ ") \x7b"⟩ :: inner ++
      ⟨indent, "\x7d"⟩ :: (← caseLines indent subject "else if" rest)

end

end VnScript
