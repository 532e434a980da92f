import VnScript.Tree.Basic

namespace VnScript

/-- The receiver of a call within the class `type`: the instance by its name,
and the class by its word. -/
def Receiver.bind (type : String) : Receiver → Receiver
  | .named n =>
    if n = instanceName then .self else if n = className then .namespaced type else .named n
  | r => r

/-- The object of a member access. Only here does the name of the instance
stand for the instance itself; `bound` is the object with its parts bound. -/
def boundObject (object bound : Expr) : Expr :=
  match object with
  | .identifier n => if n = instanceName then .self else bound
  | _ => bound

mutual

def Expr.bind (type : String) : Expr → Expr
  | .binary op left right => .binary op (left.bind type) (right.bind type)
  | .assign name value => .assign name (value.bind type)
  | .assignMember object member value =>
    .assignMember (boundObject object (object.bind type)) member (value.bind type)
  | .call receiver name arguments => .call (receiver.bind type) name (bindExprs type arguments)
  | .create space type' arguments => .create space type' (bindExprs type arguments)
  | .member object name => .member (boundObject object (object.bind type)) name
  | .identifier name => .identifier name
  | .integer n => .integer n
  | .float bits => .float bits
  | .double bits => .double bits
  | .char c => .char c
  | .boolean b => .boolean b
  | .string s => .string s
  | .self => .self
  | .namespaceMember space member => .namespaceMember space member

def bindExprs (type : String) : List Expr → List Expr
  | [] => []
  | e :: rest => e.bind type :: bindExprs type rest

end

mutual

def Stmt.bind (type : String) : Stmt → Stmt
  | .comment text => .comment text
  | .declare t name value => .declare t name (value.map (Expr.bind type))
  | .expr e => .expr (e.bind type)
  | .ret value => .ret (value.map (Expr.bind type))
  | .conditional clause => .conditional (clause.bind type)
  | .forLoop initial condition increment body =>
    .forLoop (initial.bind type) (condition.bind type) (increment.bind type) (bindBlock type body)
  | .forIn name t collection body => .forIn name t (collection.bind type) (bindBlock type body)
  | .whileLoop condition body => .whileLoop (condition.bind type) (bindBlock type body)
  | .doWhile body condition => .doWhile (bindBlock type body) (condition.bind type)
  | .switch subject cases => .switch (subject.bind type) (bindCases type cases)
  | .attempt body errorType binding handler =>
    .attempt (bindBlock type body) errorType binding (bindBlock type handler)

def bindBlock (type : String) : List Stmt → List Stmt
  | [] => []
  | s :: rest => s.bind type :: bindBlock type rest

def Conditional.bind (type : String) : Conditional → Conditional
  | .mk condition body elseIfs orElse =>
    .mk (condition.bind type) (bindBlock type body) (bindClauses type elseIfs)
      (match orElse with
      | some b => some (bindBlock type b)
      | none => none)

def bindClauses (type : String) : List Conditional → List Conditional
  | [] => []
  | c :: rest => c.bind type :: bindClauses type rest

def bindCases (type : String) : List Case → List Case
  | [] => []
  | .mk value body :: rest => .mk (value.bind type) (bindBlock type body) :: bindCases type rest

end

def Function.bind (type : String) (f : Function) : Function :=
  { f with body := bindBlock type f.body }

def ClassDecl.bind (c : ClassDecl) : ClassDecl where
  name := c.name
  base := c.base
  classMethods := c.classMethods.map (Function.bind c.name)
  instanceMethods := c.instanceMethods.map (Function.bind c.name)
  initializer := c.initializer.map (Function.bind c.name)

mutual

def Declaration.bind : Declaration → Declaration
  | .function f => .function f
  | .namespaceDecl name declarations => .namespaceDecl name (bindDeclarations declarations)
  | .classDecl c => .classDecl c.bind
  | .importDecl module => .importDecl module

def bindDeclarations : List Declaration → List Declaration
  | [] => []
  | d :: rest => d.bind :: bindDeclarations rest

end

def Program.bind (p : Program) : Program := ⟨bindDeclarations p.declarations⟩

end VnScript
