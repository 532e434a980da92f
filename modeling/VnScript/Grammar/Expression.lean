import VnScript.Decimal.Binary
import VnScript.Grammar.Cursor
import VnScript.Text.Integer
import VnScript.Tree.Basic

namespace VnScript.Grammar

variable {σ : Type} [TokenStream σ]

def comparison? : TokenKind → Option Operator
  | .equal => some .equal
  | .notEqual => some .notEqual
  | .less => some .less
  | .lessEqual => some .lessEqual
  | .greater => some .greater
  | .greaterEqual => some .greaterEqual
  | _ => none

def logical? : TokenKind → Option Operator
  | .keyword .andWord => some .and
  | .keyword .orWord => some .or
  | .keyword .xorWord => some .xor
  | _ => none

def shift? : TokenKind → Option Operator
  | .shiftLeft => some .shiftLeft
  | .shiftRight => some .shiftRight
  | _ => none

def additive? : TokenKind → Option Operator
  | .plus => some .add
  | .minus => some .sub
  | _ => none

def multiplicative? : TokenKind → Option Operator
  | .star => some .mul
  | .slash => some .div
  | .percent => some .mod
  | _ => none

/-- An assignment token, with the operator that a compound one applies first. -/
def assignment? : TokenKind → Option (Option Operator)
  | .assign => some none
  | .plusAssign => some (some .add)
  | .minusAssign => some (some .sub)
  | .starAssign => some (some .mul)
  | .slashAssign => some (some .div)
  | .percentAssign => some (some .mod)
  | _ => none

/-- The levels of binary operators, from the loosest to the tightest. -/
def levels : List (TokenKind → Option Operator) :=
  [comparison?, logical?, shift?, additive?, multiplicative?]

def chain (operator? : TokenKind → Option Operator) (operand : Parser σ Expr) :
    Nat → Expr → Parser σ Expr
  | 0, left => return left
  | count + 1, left => do
    match operator? (← kind) with
    | none => return left
    | some op =>
      let _ ← advance
      let right ← operand
      chain operator? operand count (.binary op left right)

/-- Binary operators over `primary`, one left-associative level after another. -/
def binary (count : Nat) (primary : Parser σ Expr) :
    List (TokenKind → Option Operator) → Parser σ Expr
  | [] => primary
  | operator? :: tighter => do
    let left ← binary count primary tighter
    chain operator? (binary count primary tighter) count left

def literalChar? (s : String) : Option Char :=
  match s.toList with
  | [c] => some c
  | _ => none

def literal? (k : TokenKind) (text : String) : Option Expr :=
  match k with
  | .integer => (Text.readInt64? text).map .integer
  | .float => (Decimal.FloatFormat.single.read? text).map fun bits => .float bits.toUInt32
  | .double => (Decimal.FloatFormat.double.read? text).map fun bits => .double bits.toUInt64
  | .char => (literalChar? text).map .char
  | .string => some (.string text)
  | _ => none

def literal : Parser σ Expr := do
  let token ← advance
  match literal? token.kind token.lexeme with
  | some e => return e
  | none => fail (.invalidLiteral token.kind token.lexeme token.start.toPlace)

section

variable (count : Nat) (self : Parser σ Expr)

def arguments : Parser σ (List Expr) := parenthesized self count

/-- A member, or a call where a parenthesis follows. -/
def memberOrCall (receiver : Receiver) (access : String → Expr) : Parser σ Expr := do
  let _ ← advance
  let member ← memberName
  if ← check .leftParen then return .call receiver member (← arguments count self)
  else return access member

def named (name : String) : Parser σ Expr := do
  match ← kind with
  | .colon => memberOrCall count self (.namespaced name) (.namespaceMember name)
  | .dot => memberOrCall count self (.named name) (.member (.identifier name))
  | .leftParen => return .call .free name (← arguments count self)
  | _ => return .identifier name

/-- A creation where a name follows, else the instance whose method is running. -/
def instanceExpression : Parser σ Expr := do
  word .instanceWord
  if ← check .identifier then
    let first ← identifier
    if ← check .colon then
      let _ ← advance
      let type ← identifier
      return .create (some first) type (← arguments count self)
    else return .create none first (← arguments count self)
  else named count self instanceName

def classCall : Parser σ Expr := do
  let _ ← advance
  let _ ← consume .dot
  let name ← memberName
  return .call (.named className) name (← arguments count self)

def primary : Parser σ Expr := do
  match ← kind with
  | .integer => literal
  | .float => literal
  | .double => literal
  | .char => literal
  | .string => literal
  | .keyword .trueWord =>
    let _ ← advance
    return .boolean true
  | .keyword .falseWord =>
    let _ ← advance
    return .boolean false
  | .keyword .instanceWord => instanceExpression count self
  | .keyword .classWord => classCall count self
  | .identifier => named count self (← advance).lexeme
  | _ => unexpected .expression

def comparison : Parser σ Expr := binary count (primary count self) levels

def compound (op : Option Operator) (target value : Expr) : Expr :=
  match op with
  | some op => .binary op target value
  | none => value

/-- Assignment binds loosest and to the right. -/
def assignment : Parser σ Expr := do
  let target ← comparison count self
  match assignment? (← kind) with
  | none => return target
  | some op =>
    -- A target that cannot be assigned to is reported where its operator stands.
    let p ← place
    match target with
    | .identifier name =>
      let _ ← advance
      return .assign name (compound op target (← self))
    | .member object member =>
      let _ ← advance
      return .assignMember object member (compound op target (← self))
    | _ => fail (.invalidTarget p)

end

/-- An expression within the next `count` tokens. With none left there is no
expression to find. -/
def expression : Nat → Parser σ Expr
  | 0 => unexpected .expression
  | count + 1 => assignment (count + 1) (expression count)

end VnScript.Grammar
