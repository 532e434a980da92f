import VnScript.Grammar.Statement

namespace VnScript.Grammar

variable {σ : Type} [TokenStream σ]

def parameterType : Parser σ (Option TypeName) := do
  match ← kind with
  | .keyword (.type name) =>
    let _ ← advance
    return some name
  | .keyword .autoWord =>
    let _ ← advance
    return none
  | _ => return none

def parameter : Parser σ Parameter := do
  let type ← parameterType
  if ← check (.keyword .instanceWord) then
    let _ ← advance
    return ⟨instanceName, type⟩
  else return ⟨← identifier, type⟩

def parameters (count : Nat) : Parser σ (List Parameter) := parenthesized parameter count

def body (count : Nat) : Parser σ (List Stmt) := block count (statement count)

def function (count : Nat) : Parser σ Function := do
  word .funcWord
  let name ← identifier
  let params ← parameters count
  return ⟨none, name, params, ← body count⟩

/-- The parameters without the leading one that stands for the instance. -/
def withoutReceiver : List Parameter → List Parameter
  | [] => []
  | p :: rest => if p.name = instanceName then rest else p :: rest

def method (count : Nat) (name : String) : Parser σ Function := do
  let params ← parameters count
  return ⟨none, name, withoutReceiver params, ← body count⟩

inductive Member where
  | initializer (f : Function)
  | instanceMethod (f : Function)
  | classMethod (f : Function)

def initializerName : String := "init"

def instanceMember (count : Nat) : Parser σ Member := do
  let _ ← advance
  let _ ← consume .dot
  if ← check (.keyword .initWord) then
    let _ ← advance
    return .initializer (← method count initializerName)
  else return .instanceMethod (← method count (← identifier))

def classMember (count : Nat) : Parser σ Member := do
  let _ ← advance
  let _ ← consume .dot
  return .classMethod (← method count (← identifier))

/-- The class with these members. Of several initializers the last one counts. -/
def classOfMembers (name : String) (base : Option String) (members : List Member) : ClassDecl where
  name := name
  base := base
  classMethods := members.filterMap fun | .classMethod f => some f | _ => none
  instanceMethods := members.filterMap fun | .instanceMethod f => some f | _ => none
  initializer := (members.filterMap fun | .initializer f => some f | _ => none).getLast?

def memberItem (count : Nat) : TokenKind → Option (Parser σ (List Member))
  | .rightBrace => none
  | .endOfFile => none
  | .comment => some skip
  | .keyword .instanceWord => some (one (instanceMember count))
  | .keyword .classWord => some (one (classMember count))
  | _ => some (unexpected .classMember)

def classDecl (count : Nat) : Parser σ ClassDecl := do
  word .classWord
  let name ← identifier
  let _ ← consume .leftParen
  let base ← if ← check .identifier then some <$> identifier else pure none
  let _ ← consume .rightParen
  let _ ← consume .leftBrace
  let members ← sequence (memberItem count) count
  let _ ← consume .rightBrace
  return classOfMembers name base members

def moduleParts : Nat → Parser σ String
  | 0 => return ""
  | count + 1 => do
    if ← check .dot then
      let _ ← advance
      let part ← identifier
      return "." ++ part ++ (← moduleParts count)
    else return ""

def importDecl (count : Nat) : Parser σ String := do
  word .importWord
  let first ← identifier
  let rest ← moduleParts count
  let _ ← consume .semicolon
  return first ++ rest

section

variable (count : Nat) (self : Parser σ Declaration)

def declarationItem (stop : TokenKind → Bool) (k : TokenKind) :
    Option (Parser σ (List Declaration)) :=
  if stop k then none else if k = .comment then some skip else some (one self)

def declarations (stop : TokenKind → Bool) : Parser σ (List Declaration) :=
  sequence (declarationItem self stop) count

def namespaceDecl : Parser σ Declaration := do
  word .namespaceWord
  let name ← identifier
  let _ ← consume .leftBrace
  let ds ← declarations count self fun k => k == .rightBrace || k == .endOfFile
  let _ ← consume .rightBrace
  return .namespaceDecl name ds

def declarationStep : Parser σ Declaration := do
  match ← kind with
  | .keyword .funcWord => .function <$> function count
  | .keyword .namespaceWord => namespaceDecl count self
  | .keyword .classWord => .classDecl <$> classDecl count
  | .keyword .importWord => .importDecl <$> importDecl count
  | _ => fail (.expectedFunction (← place))

end

def declaration : Nat → Parser σ Declaration
  | 0 => do fail (.expectedFunction (← place))
  | count + 1 => declarationStep (count + 1) (declaration count)

def program (count : Nat) : Parser σ Program :=
  Program.mk <$> declarations count (declaration count) (· == .endOfFile)

end VnScript.Grammar

namespace VnScript

/-- Read a whole text as a program. No production takes more rounds than the text
has tokens. -/
def parse (source : String) : Except ParseError Program :=
  match Cursor.ofString source with
  | .error e => .error (.lexical e)
  | .ok cursor =>
    ((Grammar.program (Scan.ofString source).tokens.length).run cursor).map Prod.fst

end VnScript
