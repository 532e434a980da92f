import VnScript.Tree.Basic
import VnScript.Value.Basic
import VnScript.Value.Error

namespace VnScript

def Operator.fit (op : Operator) (result : Int) : Except RuntimeError Int64 :=
  match Text.int64? result with
  | some n => .ok n
  | none => .error (.integerOverflow op.symbol)

def Operator.shiftAmount (op : Operator) (n : Int64) : Except RuntimeError Nat :=
  if 0 ≤ n.toInt ∧ n.toInt < 64 then .ok n.toInt.toNat else .error (.integerOverflow op.symbol)

/-- Arithmetic on integers. Division truncates toward zero, and a remainder
exists only where the quotient does. Bits that a left shift moves out are
dropped; a right shift keeps the sign. -/
def Operator.arithmetic? (op : Operator) (a b : Int64) : Option (Except RuntimeError Int64) :=
  match op with
  | .sub => some (op.fit (a.toInt - b.toInt))
  | .mul => some (op.fit (a.toInt * b.toInt))
  | .div => some (if b = 0 then .error .divisionByZero else op.fit (a.toInt.tdiv b.toInt))
  | .mod => some (if b = 0 then .error .divisionByZero
      else (op.fit (a.toInt.tdiv b.toInt)).map fun _ => Int64.ofInt (a.toInt.tmod b.toInt))
  | .shiftLeft => some ((op.shiftAmount b).map fun n => Int64.ofInt (a.toInt * Nat.pow 2 n))
  | .shiftRight => some ((op.shiftAmount b).map fun n => Int64.ofInt (a.toInt / Nat.pow 2 n))
  | _ => none

def Operator.holds? (op : Operator) (order : Ordering) : Option Bool :=
  match op with
  | .less => some order.isLT
  | .lessEqual => some order.isLE
  | .greater => some order.isGT
  | .greaterEqual => some order.isGE
  | _ => none

namespace Value

def mismatch (operation : String) (left right : Value) : RuntimeError :=
  .typeMismatch operation left.typeName right.typeName

def truth : Value → Except RuntimeError Bool
  | boolean b => .ok b
  | integer n => .ok (n != 0)
  | v => .error (.notACondition v.typeName)

/-- Values of one kind are ordered, booleans excepted. Texts are ordered by
their first difference. -/
def order? : Value → Value → Option Ordering
  | integer a, integer b => some (compare a.toInt b.toInt)
  | char a, char b => some (compare a.toNat b.toNat)
  | string a, string b => some (compare a b)
  | _, _ => none

def compareWith (op : Operator) (left right : Value) : Except RuntimeError Value :=
  match (order? left right).bind op.holds? with
  | some b => .ok (boolean b)
  | none => .error (mismatch op.symbol left right)

def compute (op : Operator) (left right : Value) : Except RuntimeError Value :=
  match left, right with
  | integer a, integer b =>
    match op.arithmetic? a b with
    | some result => result.map integer
    | none => .error (mismatch op.symbol left right)
  | _, _ => .error (mismatch op.symbol left right)

/-- Apply an operator to two values. `+` joins the texts of its operands, also
of two numbers. -/
def apply (op : Operator) (left right : Value) : Except RuntimeError Value :=
  match op with
  | .add => .ok (string (left.render ++ right.render))
  | .equal => .ok (boolean (left == right))
  | .notEqual => .ok (boolean (left != right))
  | .and => do return boolean ((← left.truth) && (← right.truth))
  | .or => do return boolean ((← left.truth) || (← right.truth))
  | .xor => do return boolean ((← left.truth) != (← right.truth))
  | .less => compareWith op left right
  | .lessEqual => compareWith op left right
  | .greater => compareWith op left right
  | .greaterEqual => compareWith op left right
  | _ => compute op left right

end Value

end VnScript
