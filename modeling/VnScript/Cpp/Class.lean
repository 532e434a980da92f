import VnScript.Cpp.Names

namespace VnScript

mutual

/-- The members that a statement assigns through the instance, with the values
assigned, in source order. Only assignments that stand as statements count. -/
def Stmt.selfAssignments : Stmt → List (String × Expr)
  | .expr (.assignMember .self member value) => [(member, value)]
  | .conditional clause => clause.selfAssignments
  | .forLoop _ _ _ body => blockSelfAssignments body
  | .forIn _ _ _ body => blockSelfAssignments body
  | .whileLoop _ body => blockSelfAssignments body
  | .doWhile body _ => blockSelfAssignments body
  | .switch _ cases => casesSelfAssignments cases
  | .attempt body _ _ handler => blockSelfAssignments body ++ blockSelfAssignments handler
  | _ => []

def blockSelfAssignments : List Stmt → List (String × Expr)
  | [] => []
  | s :: rest => s.selfAssignments ++ blockSelfAssignments rest

def Conditional.selfAssignments : Conditional → List (String × Expr)
  | .mk _ body elseIfs orElse =>
    blockSelfAssignments body ++ clausesSelfAssignments elseIfs ++
      match orElse with
      | some b => blockSelfAssignments b
      | none => []

def clausesSelfAssignments : List Conditional → List (String × Expr)
  | [] => []
  | .mk _ body _ _ :: rest => blockSelfAssignments body ++ clausesSelfAssignments rest

def casesSelfAssignments : List Case → List (String × Expr)
  | [] => []
  | .mk _ body :: rest => blockSelfAssignments body ++ casesSelfAssignments rest

end

mutual

def Stmt.firstReturned : Stmt → Option Expr
  | .ret value => value
  | .conditional clause => clause.firstReturned
  | .forLoop _ _ _ body => blockFirstReturned body
  | .forIn _ _ _ body => blockFirstReturned body
  | .whileLoop _ body => blockFirstReturned body
  | .doWhile body _ => blockFirstReturned body
  | .switch _ cases => casesFirstReturned cases
  | .attempt body _ _ handler => (blockFirstReturned body).or (blockFirstReturned handler)
  | .comment _ => none
  | .declare _ _ _ => none
  | .expr _ => none

def blockFirstReturned : List Stmt → Option Expr
  | [] => none
  | s :: rest => s.firstReturned.or (blockFirstReturned rest)

def Conditional.firstReturned : Conditional → Option Expr
  | .mk _ body elseIfs orElse =>
    ((blockFirstReturned body).or (clausesFirstReturned elseIfs)).or
      (match orElse with
      | some b => blockFirstReturned b
      | none => none)

def clausesFirstReturned : List Conditional → Option Expr
  | [] => none
  | .mk _ body _ _ :: rest => (blockFirstReturned body).or (clausesFirstReturned rest)

def casesFirstReturned : List Case → Option Expr
  | [] => none
  | .mk _ body :: rest => (blockFirstReturned body).or (casesFirstReturned rest)

end

namespace Cpp

/-- The result type of a method: as declared, else `void` without a value to
return, the type that convention gives a returned member, or `auto`. -/
def methodResult (f : Function) : String :=
  match f.result with
  | some t => typeText t
  | none =>
    match blockFirstReturned f.body with
    | none => "void"
    | some (.member _ name) => (conventionalType? name).getD "auto"
    | some _ => "auto"

structure Field where
  name : String
  type : String
  deriving DecidableEq

def fieldType (parameters : List Parameter) (member : String) (value : Expr) : String :=
  match value with
  | .identifier name =>
    typeFor member ((parameters.find? fun p => p.name == name).bind Parameter.type)
  | .integer _ => "int"
  | .boolean _ => "bool"
  | .char _ => "char"
  | .string _ => "std::string"
  | .double _ => "double"
  | .float _ => "float"
  | _ => typeFor member none

def methodFields (f : Function) : List Field :=
  (blockSelfAssignments f.body).map fun (member, value) =>
    ⟨member, fieldType f.parameters member value⟩

def firstByName (known : List String) : List Field → List Field
  | [] => []
  | f :: rest =>
    if known.contains f.name then firstByName known rest
    else f :: firstByName (f.name :: known) rest

def classFields (c : ClassDecl) : List Field :=
  firstByName [] ((c.initializer.toList ++ c.instanceMethods).flatMap methodFields)

structure ClassInfo where
  name : String
  base : Option String
  fields : List Field

mutual

def classInfos : Declaration → List ClassInfo
  | .classDecl c => [⟨c.name, c.base, classFields c⟩]
  | .namespaceDecl _ declarations => allClassInfos declarations
  | .function _ => []
  | .importDecl _ => []

def allClassInfos : List Declaration → List ClassInfo
  | [] => []
  | d :: rest => classInfos d ++ allClassInfos rest

end

/-- What is known about the classes of a program, the last one first. -/
structure ClassTable where
  infos : List ClassInfo

namespace ClassTable

def ofProgram (p : Program) : ClassTable := ⟨(allClassInfos p.declarations).reverse⟩

def names (t : ClassTable) : List String := t.infos.map ClassInfo.name

def find? (t : ClassTable) (name : String) : Option ClassInfo :=
  t.infos.find? fun info => info.name == name

def fieldsAbove (t : ClassTable) : Nat → Option String → List String
  | 0, _ => []
  | _, none => []
  | steps + 1, some name =>
    match t.find? name with
    | none => []
    | some info => info.fields.map Field.name ++ fieldsAbove t steps info.base

/-- The fields that a class inherits. A cycle of bases adds nothing after its
first round. -/
def inherited (t : ClassTable) (c : ClassDecl) : List String :=
  t.fieldsAbove t.infos.length c.base

def declared (t : ClassTable) (c : ClassDecl) : List Field :=
  ((t.find? c.name).elim [] ClassInfo.fields).filter fun f =>
    !(t.inherited c).contains f.name

end ClassTable

end Cpp

end VnScript
