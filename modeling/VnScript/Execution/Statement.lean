import VnScript.Execution.Expression

namespace VnScript

variable {σ : Type} [Console σ]

def VariableType.initialValue : VariableType → Value
  | .define => .string ""
  | _ => .absent

def Eval.forItems (body : Value → Eval σ Flow) : Items → Eval σ Flow
  | .numbers r => forRange body r.iterator
  | .characters cs => forCharacters body cs

variable (limit : Nat)

mutual

/-- Execute a statement. Each run of a loop may take `limit` rounds. -/
def Stmt.exec : Stmt → Eval σ Flow
  | .comment _ => pure .next
  | .declare type name value => do
    let v ← match value with
      | some e => e.eval
      | none => pure type.initialValue
    Eval.assign name v
    return .next
  | .expr e => do
    let _ ← e.eval
    return .next
  | .ret value => do
    let v ← match value with
      | some e => e.eval
      | none => pure .absent
    return .returned v
  | .conditional clause => clause.exec
  | .forLoop initial condition increment body => do
    let _ ← initial.exec
    let round := Eval.andThen (execBlock body) do
      let _ ← increment.eval
      return .next
    Eval.loop condition.test round limit
  | .forIn name _ collection body => do
    let items ← collection.items
    let round (v : Value) : Eval σ Flow := do
      Eval.assign name v
      execBlock body
    Eval.forItems round items
  | .whileLoop condition body => Eval.loop condition.test (execBlock body) limit
  | .doWhile body condition =>
    Eval.loopBehind (execBlock body) condition.test limit
  | .switch subject cases => do
    let v ← subject.eval
    execCases v cases
  | .attempt body errorType binding handler =>
    Eval.rescue (execBlock body) fun e =>
      if e.caughtBy errorType then some do
        Eval.assign binding (.string e.message)
        execBlock handler
      else none

def execBlock : List Stmt → Eval σ Flow
  | [] => pure .next
  | s :: rest => Eval.andThen s.exec (execBlock rest)

def Conditional.exec : Conditional → Eval σ Flow
  | .mk condition body elseIfs orElse => do
    if ← condition.test then execBlock body
    else
      let last := match orElse with
        | some b => execBlock b
        | none => pure .next
      execClauses last elseIfs

def execClauses (last : Eval σ Flow) : List Conditional → Eval σ Flow
  | [] => last
  | .mk condition body _ _ :: rest => do
    if ← condition.test then execBlock body else execClauses last rest

/-- Execute the first case whose value equals `v`, and none of those behind it. -/
def execCases (v : Value) : List Case → Eval σ Flow
  | [] => Eval.fail (.noMatchingCase v.render)
  | .mk value body :: rest => do
    if (← value.eval) = v then execBlock body else execCases v rest

end

end VnScript
