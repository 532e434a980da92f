import VnScript.Cpp.Unit

namespace VnScript

namespace Cpp

/-- Code without a block of its own. A comment stands where a statement has no form. -/
inductive Simple where
  | declare (type : VariableType) (name : String) (value : Option Expr)
  | plain (e : Expr)
  | comment (text : String)

mutual

/-- Generated code as C++ reads it. A switch is a block that declares `name` and holds a chain of
conditionals. -/
inductive Code where
  | comment (text : String)
  | simple (s : Simple)
  | ret (value : Option Expr)
  | conditional (first : Clause) (further : List Clause) (orElse : Option (List Code))
  | forLoop (initial : Simple) (condition increment : Expr) (body : List Code)
  | forIn (name : String) (type : Option TypeName) (collection : Expr) (body : List Code)
  | whileLoop (condition : Expr) (body : List Code)
  | doWhile (body : List Code) (condition : Expr)
  | switch (name : String) (subject : Expr) (cases : List Clause)
  | attempt (body : List Code) (caught errorType binding : String) (handler : List Code)

inductive Clause where
  | mk (condition : Expr) (body : List Code)

end

section

variable (classes : List String) (inMain : Bool)

def Simple.text : Simple → String
  | .declare type name value => initialText classes type (mangle name) value
  | .plain e => e.cpp classes
  | .comment text => text

mutual

def Code.lines (indent : Nat) : Code → List Line
  | .comment text => [⟨indent, "// " ++ text⟩]
  | .simple s => [⟨indent, s.text classes ++ ";"⟩]
  | .ret value => returnLines classes inMain indent value
  | .conditional (.mk condition body) further orElse =>
    ⟨indent, "if (" ++ condition.cpp classes ++ ") \x7b"⟩ :: codeLines (indent + 1) body ++
      furtherLines indent further ++
      (match orElse with
      | some b => ⟨indent, "\x7d else \x7b"⟩ :: codeLines (indent + 1) b
      | none => []) ++ [⟨indent, "\x7d"⟩]
  | .forLoop initial condition increment body =>
    ⟨indent, "for (" ++ (initial.text classes ++ "; " ++ condition.cpp classes ++ "; " ++
      increment.cpp classes) ++ ") \x7b"⟩ :: codeLines (indent + 1) body ++ [⟨indent, "\x7d"⟩]
  | .forIn name type collection body =>
    ⟨indent, "for (" ++ (elementType type ++ " " ++ mangle name ++ " : " ++
      collection.ownedCpp classes) ++ ") \x7b"⟩ :: codeLines (indent + 1) body ++ [⟨indent, "\x7d"⟩]
  | .whileLoop condition body =>
    ⟨indent, "while (" ++ condition.cpp classes ++ ") \x7b"⟩ :: codeLines (indent + 1) body ++
      [⟨indent, "\x7d"⟩]
  | .doWhile body condition =>
    ⟨indent, "do \x7b"⟩ :: codeLines (indent + 1) body ++
      [⟨indent, "\x7d while (" ++ condition.cpp classes ++ ");"⟩]
  | .switch name subject cases =>
    [⟨indent, "\x7b"⟩,
      ⟨indent + 1, "const auto " ++ name ++ " = " ++ subject.ownedCpp classes ++ ";"⟩] ++
      casesLines (indent + 1) name "if" cases ++ noMatchLines (indent + 1) name cases.isEmpty ++
      [⟨indent, "\x7d"⟩]
  | .attempt body caught errorType binding handler =>
    ⟨indent, "try \x7b"⟩ :: codeLines (indent + 1) body ++
      catchLines indent caught errorType binding ++ codeLines (indent + 1) handler ++
      [⟨indent, "\x7d"⟩]

def codeLines (indent : Nat) : List Code → List Line
  | [] => []
  | c :: rest => c.lines indent ++ codeLines indent rest

def furtherLines (indent : Nat) : List Clause → List Line
  | [] => []
  | .mk condition body :: rest =>
    ⟨indent, "\x7d else if (" ++ condition.cpp classes ++ ") \x7b"⟩ ::
      codeLines (indent + 1) body ++ furtherLines indent rest

def casesLines (indent : Nat) (subject word : String) : List Clause → List Line
  | [] => []
  | .mk value body :: rest =>
    ⟨indent, word ++ " (" ++ subject ++ " == " ++
      operand value (value.cpp classes) .equality true ++ ") \x7b"⟩ ::
      codeLines (indent + 1) body ++ ⟨indent, "\x7d"⟩ :: casesLines indent subject "else if" rest

end

end

/-- The first assignment to a name declares it. -/
def simpleCode (s : Stmt) : Gen Simple := do
  match s with
  | .declare type name value =>
    modify (Scope.declare name)
    return .declare type name value
  | .expr (.assign name value) =>
    if (← get).declares name then return .plain (.assign name value)
    else
      modify (Scope.declare name)
      return .declare .auto name (some value)
  | .expr e => return .plain e
  | _ => return .comment ((← read) s)

end Cpp

open Cpp

mutual

def Stmt.code : Stmt → Gen Code
  | .comment text => return .comment text
  | .declare type name value => .simple <$> simpleCode (.declare type name value)
  | .expr e => .simple <$> simpleCode (.expr e)
  | .ret value => return .ret value
  | .conditional clause => clause.code
  | .forLoop initial condition increment body => inBlock [] do
    let head ← simpleCode initial
    let inner ← inBlock [] (blockCode body)
    return .forLoop head condition increment inner
  | .forIn name type collection body => do
    let inner ← inBlock [name] (inBlock [] (blockCode body))
    return .forIn name type collection inner
  | .whileLoop condition body => do
    let inner ← inBlock [] (blockCode body)
    return .whileLoop condition inner
  | .doWhile body condition => do
    let inner ← inBlock [] (blockCode body)
    return .doWhile inner condition
  | .switch subject cases => do
    let number ← freshNumber
    let inner ← casesCode cases
    return .switch ("vn_switch_" ++ toString number) subject inner
  | .attempt body errorType binding handler => do
    let number ← freshNumber
    let inner ← inBlock [] (blockCode body)
    let after ← inBlock [binding] (inBlock [] (blockCode handler))
    return .attempt inner ("vn_caught_" ++ toString number) errorType binding after

def blockCode : List Stmt → Gen (List Code)
  | [] => return []
  | s :: rest => do
    let first ← s.code
    return first :: (← blockCode rest)

def Conditional.code : Conditional → Gen Code
  | .mk condition body elseIfs orElse => do
    let inner ← inBlock [] (blockCode body)
    let further ← clausesCode elseIfs
    let last ← match orElse with
      | some b => do
        let inner ← inBlock [] (blockCode b)
        pure (some inner)
      | none => pure none
    return .conditional (.mk condition inner) further last

def clausesCode : List Conditional → Gen (List Clause)
  | [] => return []
  | .mk condition body _ _ :: rest => do
    let inner ← inBlock [] (blockCode body)
    return .mk condition inner :: (← clausesCode rest)

def casesCode : List Case → Gen (List Clause)
  | [] => return []
  | .mk value body :: rest => do
    let inner ← inBlock [] (blockCode body)
    return .mk value inner :: (← casesCode rest)

end

section Lines

variable {α β : Type} {classes : List String} {inMain : Bool}

theorem inBlock_map (f : α → β) (names : List String) (g : Gen α) :
    inBlock names (f <$> g) = f <$> inBlock names g := by
  simp [inBlock]

theorem simpleText_eq (s : Stmt) : simpleText classes s = Simple.text classes <$> simpleCode s := by
  cases s with
  | expr e =>
    cases e with
    | assign name value =>
      simp only [simpleText, simpleCode, map_bind]
      congr 1
      funext scope
      split <;> simp [Simple.text, initialText]
    | _ => rfl
  | _ => rfl

theorem simpleLine_eq (indent : Nat) (s : Stmt) :
    simpleLine classes indent s =
      Code.lines classes inMain indent <$> Code.simple <$> simpleCode s := by
  simp [simpleLine, simpleText_eq, Code.lines]

mutual

/-- What is generated is the text of the code. -/
theorem Stmt.lines_eq (indent : Nat) : (s : Stmt) →
    s.lines classes inMain indent = Code.lines classes inMain indent <$> s.code
  | .comment _ => rfl
  | .declare _ _ _ => simpleLine_eq indent _
  | .expr _ => simpleLine_eq indent _
  | .ret _ => rfl
  | .conditional clause => clause.lines_eq indent
  | .forLoop initial condition increment body => by
    rw [Stmt.lines, Stmt.code, ← inBlock_map, simpleText_eq, blockLines_eq (indent + 1) body,
      inBlock_map]
    simp [Code.lines]
  | .forIn _ _ _ body => by
    rw [Stmt.lines, Stmt.code, blockLines_eq (indent + 1) body, inBlock_map, inBlock_map]
    simp [Code.lines]
  | .whileLoop _ body => by
    rw [Stmt.lines, Stmt.code, blockLines_eq (indent + 1) body, inBlock_map]
    simp [Code.lines]
  | .doWhile body _ => by
    rw [Stmt.lines, Stmt.code, blockLines_eq (indent + 1) body, inBlock_map]
    simp [Code.lines]
  | .switch _ [] => by
    simp [Stmt.lines, Stmt.code, caseLines, casesCode, Code.lines, casesLines]
  | .switch _ (.mk value body :: rest) => by
    simp only [Stmt.lines, Stmt.code, caseLines_eq _ _ _ (.mk value body :: rest)]
    simp [casesCode, Code.lines]
  | .attempt body _ _ handler => by
    rw [Stmt.lines, Stmt.code, blockLines_eq (indent + 1) body, blockLines_eq (indent + 1) handler,
      inBlock_map, inBlock_map, inBlock_map]
    simp [Code.lines]

theorem blockLines_eq (indent : Nat) : (ss : List Stmt) →
    blockLines classes inMain indent ss = codeLines classes inMain indent <$> blockCode ss
  | [] => rfl
  | s :: rest => by
    rw [blockLines, blockCode, s.lines_eq indent, blockLines_eq indent rest]
    simp [codeLines]

theorem Conditional.lines_eq (indent : Nat) : (c : Conditional) →
    c.lines classes inMain indent = Code.lines classes inMain indent <$> c.code
  | .mk _ body elseIfs none => by
    rw [Conditional.lines, Conditional.code, blockLines_eq (indent + 1) body,
      clauseLines_eq indent elseIfs, inBlock_map]
    simp [Code.lines]
  | .mk _ body elseIfs (some b) => by
    rw [Conditional.lines, Conditional.code, blockLines_eq (indent + 1) body,
      clauseLines_eq indent elseIfs, inBlock_map]
    simp only [blockLines_eq (indent + 1) b, inBlock_map]
    simp [Code.lines]

theorem clauseLines_eq (indent : Nat) : (cs : List Conditional) →
    clauseLines classes inMain indent cs = furtherLines classes inMain indent <$> clausesCode cs
  | [] => rfl
  | .mk _ body _ _ :: rest => by
    rw [clauseLines, clausesCode, blockLines_eq (indent + 1) body, clauseLines_eq indent rest,
      inBlock_map]
    simp [furtherLines]

theorem caseLines_eq (indent : Nat) (subject word : String) : (cs : List Case) →
    caseLines classes inMain indent subject word cs =
      casesLines classes inMain indent subject word <$> casesCode cs
  | [] => rfl
  | .mk _ body :: rest => by
    rw [caseLines, casesCode, blockLines_eq (indent + 1) body,
      caseLines_eq indent subject "else if" rest, inBlock_map]
    simp [casesLines]

end

end Lines

end VnScript
