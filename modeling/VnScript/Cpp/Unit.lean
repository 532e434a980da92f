import VnScript.Cpp.Class
import VnScript.Cpp.Prelude
import VnScript.Cpp.Statement
import VnScript.Tree.Bound

namespace VnScript

namespace Cpp

def bodyLines (classes : List String) (inMain : Bool) (indent : Nat) (parameters : List Parameter)
    (body : List Stmt) : Gen (List Line) :=
  inBlock (parameters.map Parameter.name) (blockLines classes inMain indent body)

/-- A function outside of classes. The one named `main` is where a program starts. -/
def functionLines (classes : List String) (f : Function) : Gen (List Line) := do
  let isMain := f.name == "main"
  let body ← bodyLines classes isMain 1 f.parameters f.body
  let head := if isMain then [⟨0, "int main() \x7b"⟩, ⟨1, "std::cout << std::boolalpha;"⟩]
    else [⟨0, (f.result.map typeText).getD "auto" ++ " " ++ mangle f.name ++ "(" ++
      parameterList f.parameters ++ ") \x7b"⟩]
  return head ++ body ++ [⟨0, "\x7d"⟩]

def methodLines (classes : List String) (qualifier : String) (f : Function) : Gen (List Line) := do
  let body ← bodyLines classes false 2 f.parameters f.body
  return Line.blank ::
    ⟨1, qualifier ++ methodResult f ++ " " ++ mangle f.name ++ "(" ++ parameterList f.parameters ++
      ") \x7b"⟩ :: body ++ [⟨1, "\x7d"⟩]

def methodsLines (classes : List String) (qualifier : String) : List Function → Gen (List Line)
  | [] => return []
  | f :: rest => do
    let first ← methodLines classes qualifier f
    return first ++ (← methodsLines classes qualifier rest)

def baseCall? (base : String) : Stmt → Option (List Expr)
  | .expr (.call (.named n) name arguments) =>
    if n = base ∧ name = "init" then some arguments else none
  | _ => none

/-- Take the first call of the initializer of `base` out of a body. -/
def takeBaseCall (base : String) : List Stmt → Option (List Expr) × List Stmt
  | [] => (none, [])
  | s :: rest =>
    match baseCall? base s with
    | some arguments => (some arguments, rest)
    | none => ((takeBaseCall base rest).1, s :: (takeBaseCall base rest).2)

def isReceiver : Expr → Bool
  | .identifier name => name == instanceName
  | _ => false

/-- The call of the base class's constructor, to which the instance itself is
not passed. -/
def baseInitializer (classes : List String) (base : String) (arguments : List Expr) : String :=
  let passed := arguments.filter fun e => !isReceiver e
  " : " ++ mangle base ++ "(" ++ argumentList (passed.map (Expr.cpp classes)) ++ ")"

def constructorLines (classes : List String) (c : ClassDecl) (f : Function) : Gen (List Line) := do
  let (start, body) := match c.base with
    | none => ("", f.body)
    | some base =>
      let (arguments, body) := takeBaseCall base f.body
      (arguments.elim "" (baseInitializer classes base), body)
  let inner ← bodyLines classes false 2 f.parameters body
  return Line.blank ::
    ⟨1, mangle c.name ++ "(" ++ parameterList f.parameters ++ ")" ++ start ++ " \x7b"⟩ ::
    inner ++ [⟨1, "\x7d"⟩]

def classHead (c : ClassDecl) : String :=
  match c.base with
  | some base => "class " ++ mangle c.name ++ " : public " ++ mangle base ++ " \x7b"
  | none => "class " ++ mangle c.name ++ " \x7b"

def fieldLine (f : Field) : Line := ⟨1, f.type ++ " " ++ mangle f.name ++ ";"⟩

def classLines (table : ClassTable) (c : ClassDecl) : Gen (List Line) := do
  let constructor ← match c.initializer with
    | some f => constructorLines table.names c f
    | none => pure []
  let classMethods ← methodsLines table.names "static " c.classMethods
  let instanceMethods ← methodsLines table.names "" c.instanceMethods
  return [⟨0, classHead c⟩, ⟨0, "public:"⟩] ++ (table.declared c).map fieldLine ++ constructor ++
    classMethods ++ instanceMethods ++ [⟨0, "\x7d;"⟩]

end Cpp

open Cpp

mutual

def Declaration.lines (table : ClassTable) : Declaration → Gen (List Line)
  | .function f => functionLines table.names f
  | .namespaceDecl name declarations => do
    let inner ← nestedLines table true declarations
    return ⟨0, "namespace " ++ mangle name ++ " \x7b"⟩ :: inner ++
      [⟨0, "\x7d // namespace " ++ mangle name⟩]
  | .classDecl c => classLines table c
  | .importDecl module => return [⟨0, "// import " ++ module⟩]

def nestedLines (table : ClassTable) (first : Bool) : List Declaration → Gen (List Line)
  | [] => return []
  | d :: rest => do
    let lines ← d.lines table
    return (if first then [] else [Line.blank]) ++ lines ++ (← nestedLines table false rest)

end

namespace Cpp

def unitLines (table : ClassTable) : List Declaration → Gen (List Line)
  | [] => return []
  | d :: rest => do
    let lines ← d.lines table
    return lines ++ Line.blank :: (← unitLines table rest)

def renderLines (lines : List Line) : String := String.join (lines.map Line.render)

end Cpp

namespace Program

/-- The generated code without the prelude, where `placeholder` stands for the statements
that have no C++ form. -/
def cppBodyWith (placeholder : Stmt → String) (p : Program) : String :=
  let bound := p.bind
  let lines := unitLines (ClassTable.ofProgram bound) bound.declarations
  renderLines ((lines.run placeholder).run .start).1

def cppBody (p : Program) : String := p.cppBodyWith unsupportedStatement

/-- A program as one C++ file. Every program has one; what has no C++ form
becomes a placeholder. -/
def cpp (p : Program) : String := Cpp.prelude ++ p.cppBody

end Program

end VnScript
