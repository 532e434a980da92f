import VnScript.Grammar.Expression
import VnScript.Text.Blank

namespace VnScript.Grammar

variable {σ : Type} [TokenStream σ]

def variableType? : TokenKind → Option VariableType
  | .keyword (.type name) => some (.typed name)
  | .keyword .autoWord => some .auto
  | .keyword .defineWord => some .define
  | _ => none

def declaredValue (expr : Parser σ Expr) : Parser σ (Option Expr) := do
  if ← check .assign then
    let _ ← advance
    return some (← expr)
  else return none

def condition (expr : Parser σ Expr) : Parser σ Expr := do
  let _ ← consume .leftParen
  let e ← expr
  let _ ← consume .rightParen
  return e

section

variable (count : Nat) (expr : Parser σ Expr) (self : Parser σ Stmt)

def blockItem (k : TokenKind) : Option (Parser σ (List Stmt)) :=
  if k = .rightBrace ∨ k = .endOfFile then none else some (one self)

def block : Parser σ (List Stmt) := do
  let _ ← consume .leftBrace
  let body ← sequence (blockItem self) count
  let _ ← consume .rightBrace
  return body

def clause : Parser σ Conditional := do
  let e ← condition expr
  return .mk e (← block count self) [] none

def furtherClauses : Nat → Parser σ (List Conditional × Option (List Stmt))
  | 0 => return ([], none)
  | n + 1 => do
    match ← kind with
    | .keyword .elseIfWord =>
      let _ ← advance
      let c ← clause count expr self
      let (elseIfs, orElse) ← furtherClauses n
      return (c :: elseIfs, orElse)
    | .keyword .elseWord =>
      let _ ← advance
      if ← check (.keyword .ifWord) then
        let _ ← advance
        let c ← clause count expr self
        let (elseIfs, orElse) ← furtherClauses n
        return (c :: elseIfs, orElse)
      else return ([], some (← block count self))
    | _ => return ([], none)

def conditional : Parser σ Stmt := do
  word .ifWord
  let e ← condition expr
  let body ← block count self
  let (elseIfs, orElse) ← furtherClauses count expr self count
  return .conditional (.mk e body elseIfs orElse)

def forIn (name : String) (type : Option TypeName) : Parser σ Stmt := do
  word .inWord
  let collection ← expr
  let _ ← consume .rightParen
  return .forIn name type collection (← block count self)

def forClauses (initial : Stmt) : Parser σ Stmt := do
  let _ ← consume .semicolon
  let e ← expr
  let _ ← consume .semicolon
  let increment ← expr
  let _ ← consume .rightParen
  return .forLoop initial e increment (← block count self)

def boundType : VariableType → Option TypeName
  | .typed type => some type
  | _ => none

def initialAssignment : Parser σ Stmt := do
  let p ← place
  match ← expr with
  | .assign name value => return .expr (.assign name value)
  | .assignMember object member value => return .expr (.assignMember object member value)
  | _ => fail (.invalidInitializer p)

/-- A loop over the items of a collection, or one of three clauses whose first
is a declaration or an assignment. -/
def forLoop : Parser σ Stmt := do
  word .forWord
  let _ ← consume .leftParen
  let k ← kind
  match variableType? k with
  | some type =>
    let _ ← advance
    let name ← identifier
    if ← check (.keyword .inWord) then forIn count expr self name (boundType type)
    else
      let value ← declaredValue expr
      forClauses count expr self (.declare type name value)
  | none =>
    if k = .identifier then
      -- Only the token behind the name tells a loop over items from an assignment.
      if (← peek) = .keyword .inWord then
        let name ← identifier
        forIn count expr self name none
      else
        let initial ← initialAssignment expr
        forClauses count expr self initial
    else fail (.invalidInitializer (← place))

def whileLoop : Parser σ Stmt := do
  word .whileWord
  let e ← condition expr
  return .whileLoop e (← block count self)

/-- A loop that tests behind its body. A semicolon may end it. -/
def doWhile : Parser σ Stmt := do
  word .doWord
  let body ← block count self
  word .whileWord
  let e ← condition expr
  if ← check .semicolon then
    let _ ← advance
  return .doWhile body e

def case : Parser σ Case := do
  let _ ← advance
  let value ← expr
  return .mk value (← block count self)

def caseItem : TokenKind → Option (Parser σ (List Case))
  | .comment => some skip
  | .keyword .caseWord => some (one (case count expr self))
  | _ => none

def switch : Parser σ Stmt := do
  word .switchWord
  let subject ← condition expr
  let _ ← consume .leftBrace
  let cases ← sequence (caseItem count expr self) count
  let _ ← consume .rightBrace
  return .switch subject cases

def ret : Parser σ Stmt := do
  word .returnWord
  let value ← if ← check .semicolon then pure none else some <$> expr
  let _ ← consume .semicolon
  return .ret value

def attempt : Parser σ Stmt := do
  word .tryWord
  let body ← block count self
  word .happenWord
  let _ ← consume .leftParen
  let errorType ← identifier
  let _ ← consume .rightParen
  word .asWord
  let binding ← identifier
  return .attempt body errorType binding (← block count self)

def declare (type : VariableType) : Parser σ Stmt := do
  let _ ← advance
  let name ← identifier
  let value ← declaredValue expr
  let _ ← consume .semicolon
  return .declare type name value

def plainStatement : Parser σ Stmt := do
  let e ← expr
  let _ ← consume .semicolon
  return .expr e

def statementStep : Parser σ Stmt := do
  match ← kind with
  | .comment => return .comment (Text.trim (← advance).lexeme)
  | .keyword (.type name) => declare expr (.typed name)
  | .keyword .autoWord => declare expr .auto
  | .keyword .defineWord => declare expr .define
  | .keyword .ifWord => conditional count expr self
  | .keyword .forWord => forLoop count expr self
  | .keyword .whileWord => whileLoop count expr self
  | .keyword .doWord => doWhile count expr self
  | .keyword .switchWord => switch count expr self
  | .keyword .returnWord => ret expr
  | .keyword .tryWord => attempt count self
  | _ => plainStatement expr

end

def statement : Nat → Parser σ Stmt
  | 0 => unexpected .expression
  | count + 1 => statementStep (count + 1) (expression (count + 1)) (statement count)

end VnScript.Grammar
