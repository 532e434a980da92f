import VnScript.Console.Basic
import VnScript.Execution.Environment
import VnScript.Value.Range

namespace VnScript

structure RunState (σ : Type) where
  environment : Environment
  console : σ

/-- How a computation ends: with a value, with an error, or not at all within
the number of rounds that its loops were given. -/
inductive Outcome (σ α : Type) where
  | done (value : α) (state : RunState σ)
  | failed (error : RuntimeError) (state : RunState σ)
  | unfinished

/-- A computation that reads and changes the state of a run. What it changed
before an error stays changed. -/
def Eval (σ α : Type) : Type := RunState σ → Outcome σ α

namespace Eval

variable {σ α β : Type}

@[inline] protected def pure (a : α) : Eval σ α := fun s => .done a s

@[inline] protected def bind (x : Eval σ α) (f : α → Eval σ β) : Eval σ β := fun s =>
  match x s with
  | .done a s' => f a s'
  | .failed e s' => .failed e s'
  | .unfinished => .unfinished

instance : Monad (Eval σ) where
  pure := Eval.pure
  bind := Eval.bind

def fail (e : RuntimeError) : Eval σ α := fun s => .failed e s

def ofExcept : Except RuntimeError α → Eval σ α
  | .ok a => pure a
  | .error e => fail e

def environment : Eval σ Environment := fun s => .done s.environment s

def assign (name : String) (value : Value) : Eval σ Unit := fun s =>
  .done () { s with environment := s.environment.insert name value }

def variableValue (name : String) : Eval σ Value := do
  match (← environment).get? name with
  | some v => return v
  | none => fail (.undefinedVariable name)

/-- Call the console. A call that fails has reached the console all the same. -/
def onConsole (call : σ → Except String α × σ) : Eval σ α := fun s =>
  match call s.console with
  | (.ok a, c) => .done a { s with console := c }
  | (.error reason, c) => .failed (.console reason) { s with console := c }

/-- Go on with a handler, in the state at the error, where `handler?` has one. -/
def rescue (x : Eval σ α) (handler? : RuntimeError → Option (Eval σ α)) : Eval σ α := fun s =>
  match x s with
  | .failed e s' =>
    match handler? e with
    | some handler => handler s'
    | none => .failed e s'
  | outcome => outcome

end Eval

/-- How a statement ends: the next one follows, or the function returns. -/
inductive Flow where
  | next
  | returned (value : Value)
  deriving DecidableEq

namespace Eval

variable {σ : Type}

@[inline] def andThen (first second : Eval σ Flow) : Eval σ Flow := do
  match ← first with
  | .next => second
  | .returned v => return .returned v

def loop (test : Eval σ Bool) (body : Eval σ Flow) : Nat → Eval σ Flow
  | 0, _ => .unfinished
  | limit + 1, s =>
    match test s with
    | .done true s' =>
      match body s' with
      | .done .next s'' => loop test body limit s''
      | outcome => outcome
    | .done false s' => .done .next s'
    | .failed e s' => .failed e s'
    | .unfinished => .unfinished

/-- Run `body`, and again while `test` holds behind it. There are at most `limit` tests. -/
def loopBehind (body : Eval σ Flow) (test : Eval σ Bool) : Nat → Eval σ Flow
  | 0, s =>
    match body s with
    | .done .next _ => .unfinished
    | outcome => outcome
  | limit + 1, s =>
    match body s with
    | .done .next s' =>
      match test s' with
      | .done true s'' => loopBehind body test limit s''
      | .done false s'' => .done .next s''
      | .failed e s'' => .failed e s''
      | .unfinished => .unfinished
    | outcome => outcome

def forRange (body : Value → Eval σ Flow) (it : Range.Iterator) : Eval σ Flow := fun s =>
  match h : it.next.1 with
  | none => .done .next s
  | some n =>
    have : it.next.2.distance < it.distance := Range.Iterator.distance_next h
    match body (.integer n) s with
    | .done .next s' => forRange body it.next.2 s'
    | outcome => outcome
termination_by it.distance

def forCharacters (body : Value → Eval σ Flow) : List Char → Eval σ Flow
  | [], s => .done .next s
  | c :: rest, s =>
    match body (.char c) s with
    | .done .next s' => forCharacters body rest s'
    | outcome => outcome

end Eval

end VnScript
