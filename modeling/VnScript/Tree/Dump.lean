import VnScript.Decimal.Notation
import VnScript.Text.Integer
import VnScript.Text.Shown
import VnScript.Tree.Basic

namespace VnScript

namespace Dump

def list (items : List String) : String := "[" ++ String.intercalate ", " items ++ "]"

def option (item : Option String) : String :=
  match item with
  | some s => "Some(" ++ s ++ ")"
  | none => "None"

def constructor (name : String) (arguments : List String) : String :=
  name ++ "(" ++ String.intercalate ", " arguments ++ ")"

def record (name : String) (fields : List (String × String)) : String :=
  name ++ " \x7b " ++ String.intercalate ", " (fields.map fun (n, v) => n ++ ": " ++ v) ++ " \x7d"

def operator : Operator → String
  | .add => "Add"
  | .sub => "Sub"
  | .mul => "Mul"
  | .div => "Div"
  | .mod => "Mod"
  | .shiftLeft => "ShiftLeft"
  | .shiftRight => "ShiftRight"
  | .and => "And"
  | .or => "Or"
  | .xor => "Xor"
  | .equal => "Equal"
  | .notEqual => "NotEqual"
  | .less => "Less"
  | .lessEqual => "LessEqual"
  | .greater => "Greater"
  | .greaterEqual => "GreaterEqual"

def typeName : TypeName → String
  | .int => "Int"
  | .char => "Char"
  | .string => "String"
  | .bool => "Bool"
  | .float => "Float"
  | .double => "Double"

def variableType : VariableType → String
  | .typed t => constructor "Typed" [typeName t]
  | .auto => "Auto"
  | .define => "Define"

def receiver : Receiver → String
  | .free => "None"
  | .named n => constructor "Named" [Text.shown n]
  | .namespaced n => constructor "Namespace" [Text.shown n]
  | .self => "SelfInstance"

def assignment (target value : String) : String :=
  record "Assignment" [("target", target), ("value", value)]

end Dump

open Dump

mutual

/-- The structure of an expression, with the names of all its parts. -/
def Expr.dump : Expr → String
  | .identifier name => constructor "Identifier" [Text.shown name]
  | .integer n => constructor "Integer" [Text.decimal n.toInt]
  | .float bits => constructor "Float" [Decimal.FloatFormat.single.text bits.toNat]
  | .double bits => constructor "Double" [Decimal.FloatFormat.double.text bits.toNat]
  | .char c => constructor "Char" [Text.shownChar c]
  | .boolean b => constructor "Boolean" [if b then "true" else "false"]
  | .string s => constructor "String" [Text.shown s]
  | .self => "SelfInstance"
  | .binary op left right =>
    record "Binary" [("left", left.dump), ("op", operator op), ("right", right.dump)]
  | .assign name value => assignment (constructor "Identifier" [Text.shown name]) value.dump
  | .assignMember object member value =>
    assignment (record "Member" [("instance", object.dump), ("member", Text.shown member)]) value.dump
  | .call r name arguments =>
    constructor "Call" [record "FunctionCall" [("receiver", receiver r), ("name", Text.shown name),
      ("arguments", list (dumpExprs arguments))]]
  | .namespaceMember space member =>
    record "NamespaceAccess" [("namespace", Text.shown space), ("member", Text.shown member)]
  | .create space type arguments =>
    record "InstanceCreation" [("namespace", option (space.map Text.shown)), ("class", Text.shown type),
      ("arguments", list (dumpExprs arguments))]
  | .member object name =>
    record "InstanceAccess" [("instance", object.dump), ("member", Text.shown name)]

def dumpExprs : List Expr → List String
  | [] => []
  | e :: rest => e.dump :: dumpExprs rest

end

mutual

def Stmt.dump : Stmt → String
  | .comment s => constructor "Comment" [Text.shown s]
  | .declare type name value =>
    record "VariableDeclaration" [("variable_type", variableType type), ("name", Text.shown name),
      ("initializer", option (value.map Expr.dump))]
  | .expr e => constructor "Expression" [e.dump]
  | .ret value => constructor "Return" [option (value.map Expr.dump)]
  | .conditional clause => constructor "If" [clause.dump]
  | .forLoop initial condition increment body =>
    record "For" [("initializer", initial.dump), ("condition", condition.dump),
      ("increment", increment.dump), ("body", list (dumpBlock body))]
  | .forIn name type collection body =>
    record "ForIn" [("variable", Text.shown name), ("variable_type", option (type.map typeName)),
      ("collection", collection.dump), ("body", list (dumpBlock body))]
  | .whileLoop condition body =>
    record "While" [("condition", condition.dump), ("body", list (dumpBlock body))]
  | .doWhile body condition =>
    record "DoWhile" [("body", list (dumpBlock body)), ("condition", condition.dump)]
  | .switch subject cases =>
    record "Switch" [("scrutinee", subject.dump), ("cases", list (dumpCases cases))]
  | .attempt body errorType binding handler =>
    record "TryHappen" [("body", list (dumpBlock body)), ("error_type", Text.shown errorType),
      ("binding", Text.shown binding), ("handler", list (dumpBlock handler))]

def dumpBlock : List Stmt → List String
  | [] => []
  | s :: rest => s.dump :: dumpBlock rest

def Conditional.dump : Conditional → String
  | .mk condition body elseIfs orElse =>
    let last := match orElse with
      | some b => some (list (dumpBlock b))
      | none => none
    record "IfStatement" [("condition", condition.dump), ("body", list (dumpBlock body)),
      ("else_ifs", list (dumpClauses elseIfs)), ("else_body", option last)]

def dumpClauses : List Conditional → List String
  | [] => []
  | c :: rest => c.dump :: dumpClauses rest

def dumpCases : List Case → List String
  | [] => []
  | .mk value body :: rest =>
    record "CaseStatement" [("value", value.dump), ("body", list (dumpBlock body))] ::
      dumpCases rest

end

end VnScript
