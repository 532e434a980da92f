import VnScript.Text.Blank
import VnScript.Text.Replace
import VnScript.Value.Basic
import VnScript.Value.Error

namespace VnScript.Value

/-- The character with a given code. Surrogates are no characters. -/
def charOfCode? (n : Int64) : Option Char :=
  if 0 ≤ n.toInt ∧ n.toInt.toNat.isValidChar then some (Char.ofNat n.toInt.toNat) else none

def toInteger? : Value → Option Int64
  | integer n => some n
  | char c => some (Int64.ofNat c.toNat)
  | boolean b => some (if b then 1 else 0)
  | string s => Text.readInt64? (Text.trim s)
  | absent => none

def toChar? : Value → Option Char
  | char c => some c
  | integer n => charOfCode? n
  | string s => s.toList.head?
  | boolean _ => none
  | absent => none

def convert (target : String) (v : Value) : Except RuntimeError Value :=
  let orInvalid (result : Option Value) : Except RuntimeError Value :=
    match result with
    | some w => .ok w
    | none => .error (.invalidConversion v.render target)
  if target = "int" then orInvalid (v.toInteger?.map integer)
  else if target = "string" then .ok (string v.render)
  else if target = "char" then orInvalid (v.toChar?.map char)
  else .error (.unsupportedCall ("type:" ++ target))

def replace (receiver text : String) (arguments : List Value) : Except RuntimeError Value :=
  match arguments with
  | [string old, string new] => .ok (string (Text.replace text old new))
  | [old, new] => .error (.typeMismatch "replace" old.typeName new.typeName)
  | _ => .error (.argumentCount (receiver ++ ".replace") "2" arguments.length)

end VnScript.Value
