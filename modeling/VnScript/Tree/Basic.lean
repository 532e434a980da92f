import VnScript.Token.Keyword

namespace VnScript

inductive Operator where
  | add | sub | mul | div | mod
  | shiftLeft | shiftRight
  | and | or | xor
  | equal | notEqual | less | lessEqual | greater | greaterEqual
  deriving DecidableEq

def Operator.symbol : Operator → String
  | .add => "+"
  | .sub => "-"
  | .mul => "*"
  | .div => "/"
  | .mod => "%"
  | .shiftLeft => "<<"
  | .shiftRight => ">>"
  | .and => "AND"
  | .or => "OR"
  | .xor => "XOR"
  | .equal => "=="
  | .notEqual => "!="
  | .less => "<"
  | .lessEqual => "<="
  | .greater => ">"
  | .greaterEqual => ">="

/-- What a function is called on: nothing as in `f()`, a name as in `x.f()`, a
namespace as in `n:f()`, or the instance whose method is running. -/
inductive Receiver where
  | free
  | named (name : String)
  | namespaced (name : String)
  | self
  deriving DecidableEq

/-- The name by which the source speaks of the instance in a method. -/
def instanceName : String := "instance"

def className : String := "class"

/-- Expressions. Numbers with a point are kept as bit patterns, so that trees
tell all of them apart. -/
inductive Expr where
  | identifier (name : String)
  | integer (value : Int64)
  | float (bits : UInt32)
  | double (bits : UInt64)
  | char (value : Char)
  | boolean (value : Bool)
  | string (value : String)
  | self
  | binary (op : Operator) (left right : Expr)
  | assign (name : String) (value : Expr)
  | assignMember (object : Expr) (member : String) (value : Expr)
  | call (receiver : Receiver) (name : String) (arguments : List Expr)
  | namespaceMember (space member : String)
  | create (space : Option String) (type : String) (arguments : List Expr)
  | member (object : Expr) (name : String)

inductive VariableType where
  | typed (type : TypeName)
  | auto
  | define
  deriving DecidableEq

mutual

inductive Stmt where
  | comment (text : String)
  | declare (type : VariableType) (name : String) (value : Option Expr)
  | expr (value : Expr)
  | ret (value : Option Expr)
  | conditional (clause : Conditional)
  | forLoop (initial : Stmt) (condition increment : Expr) (body : List Stmt)
  | forIn (name : String) (type : Option TypeName) (collection : Expr) (body : List Stmt)
  | whileLoop (condition : Expr) (body : List Stmt)
  | doWhile (body : List Stmt) (condition : Expr)
  | switch (subject : Expr) (cases : List Case)
  | attempt (body : List Stmt) (errorType binding : String) (handler : List Stmt)

/-- A condition and its body, the further clauses in source order, and the
last body. The source writes no clauses within clauses. -/
inductive Conditional where
  | mk (condition : Expr) (body : List Stmt) (elseIfs : List Conditional)
      (orElse : Option (List Stmt))

inductive Case where
  | mk (value : Expr) (body : List Stmt)

end

structure Parameter where
  name : String
  type : Option TypeName
  deriving DecidableEq

structure Function where
  result : Option TypeName
  name : String
  parameters : List Parameter
  body : List Stmt

structure ClassDecl where
  name : String
  base : Option String
  classMethods : List Function
  instanceMethods : List Function
  initializer : Option Function

inductive Declaration where
  | function (f : Function)
  | namespaceDecl (name : String) (declarations : List Declaration)
  | classDecl (c : ClassDecl)
  | importDecl (module : String)

structure Program where
  declarations : List Declaration

namespace Program

def function? (p : Program) (name : String) : Option Function :=
  p.declarations.findSome? fun
    | .function f => if f.name = name then some f else none
    | _ => none

def imports (p : Program) : List String :=
  p.declarations.filterMap fun
    | .importDecl module => some module
    | _ => none

end Program

end VnScript
