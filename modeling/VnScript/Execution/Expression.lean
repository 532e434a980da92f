import VnScript.Execution.Eval
import VnScript.Tree.Basic
import VnScript.Value.Arithmetic
import VnScript.Value.Conversion

namespace VnScript

variable {σ : Type} [Console σ]

namespace Eval

def unsupported {α : Type} (construct : String) : Eval σ α := fail (.unsupportedExpression construct)

def renderAll (values : List Value) : String := String.join (values.map Value.render)

/-- A logical operator evaluates its right operand only where the left one
leaves the result open. -/
def logical (op : Operator) (left right : Eval σ Value) : Eval σ Value := do
  let l ← ofExcept (← left).truth
  if (op = .and && !l) || (op = .or && l) then return .boolean l
  else return .boolean (← ofExcept (← right).truth)

def operation (op : Operator) (left right : Eval σ Value) : Eval σ Value :=
  if op = .and ∨ op = .or then logical op left right
  else do
    let l ← left
    let r ← right
    ofExcept (l.apply op r)

/-- Print the arguments on a line of their own. All are evaluated before
anything is written. -/
def print (arguments : Eval σ (List Value)) : Eval σ Value := do
  let values ← arguments
  onConsole (Console.writeLine (renderAll values))
  return .absent

/-- Read a line, behind a prompt if one is given. At the end of the input the
line is empty. -/
def input (count : Nat) (arguments : Eval σ (List Value)) : Eval σ Value := do
  if 1 < count then fail (.argumentCount "System.input" "0 or 1" count)
  else
    match ← arguments with
    | [] => pure ()
    | prompt :: _ => onConsole (Console.writePrompt prompt.render)
    return .string ((← onConsole Console.readLine).getD "")

def callSystem (name : String) (count : Nat) (arguments : Eval σ (List Value)) : Eval σ Value :=
  if name = "print" then print arguments
  else if name = "input" then input count arguments
  else fail (.unsupportedCall ("System." ++ name))

def callConversion (name : String) (count : Nat) (arguments : Eval σ (List Value)) :
    Eval σ Value := do
  if count ≠ 1 then fail (.argumentCount ("type:" ++ name) "1" count)
  else
    match ← arguments with
    | v :: _ => ofExcept (v.convert name)
    | [] => fail (.argumentCount ("type:" ++ name) "1" 0)

/-- Replace in the text that a variable holds before the arguments are evaluated. -/
def callReplace (receiver : String) (arguments : Eval σ (List Value)) : Eval σ Value := do
  match ← variableValue receiver with
  | .string text => ofExcept (Value.replace receiver text (← arguments))
  | _ => fail (.unsupportedCall (receiver ++ ".replace"))

def call (receiver : Receiver) (name : String) (count : Nat) (arguments : Eval σ (List Value)) :
    Eval σ Value :=
  match receiver with
  | .free => fail (.unsupportedCall name)
  | .named n =>
    if n = "System" then callSystem name count arguments
    else if name = "replace" then callReplace n arguments
    else fail (.unsupportedCall (n ++ "." ++ name))
  | .namespaced n =>
    if n = "type" then callConversion name count arguments
    else fail (.unsupportedCall (n ++ ":" ++ name))
  | .self => fail (.unsupportedCall (instanceName ++ "." ++ name))

end Eval

mutual

def Expr.eval : Expr → Eval σ Value
  | .identifier name => Eval.variableValue name
  | .integer n => pure (.integer n)
  | .float _ => Eval.unsupported "float literal"
  | .double _ => Eval.unsupported "double literal"
  | .char c => pure (.char c)
  | .boolean b => pure (.boolean b)
  | .string s => pure (.string s)
  | .self => Eval.unsupported "instance reference"
  | .binary op left right => Eval.operation op left.eval right.eval
  | .assign name value => do
    let v ← value.eval
    Eval.assign name v
    return v
  | .assignMember _ _ _ => Eval.unsupported "member assignment"
  | .call receiver name arguments =>
    Eval.call receiver name arguments.length (evalAll arguments)
  | .namespaceMember space member =>
    Eval.unsupported ("namespace access '" ++ space ++ ":" ++ member ++ "'")
  | .create _ type _ => Eval.unsupported ("instance creation of '" ++ type ++ "'")
  | .member _ name => Eval.unsupported ("member access '." ++ name ++ "'")

def evalAll : List Expr → Eval σ (List Value)
  | [] => pure []
  | e :: rest => do
    let v ← e.eval
    return v :: (← evalAll rest)

end

namespace Expr

def test (e : Expr) : Eval σ Bool := do Eval.ofExcept (← e.eval).truth

def asItems (e : Expr) : Eval σ Items := do Eval.ofExcept (Items.ofValue (← e.eval))

/-- The items of a collection: the numbers of a call of `range`, else the
characters of a text. -/
def items (e : Expr) : Eval σ Items :=
  match e with
  | .call .free name bounds =>
    if name = "range" then do
      let r ← Eval.ofExcept (Range.ofBounds (← evalAll bounds))
      return .numbers r
    else e.asItems
  | _ => e.asItems

end Expr

end VnScript
