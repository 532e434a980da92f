import VnScript.Text.Integer

namespace VnScript

/-- The values of a running program. A variable declared without a value is
`absent`. -/
inductive Value where
  | integer (value : Int64)
  | char (value : Char)
  | string (value : String)
  | boolean (value : Bool)
  | absent
  deriving DecidableEq

namespace Value

def render : Value → String
  | integer n => Text.decimal n.toInt
  | char c => c.toString
  | string s => s
  | boolean b => if b then "true" else "false"
  | absent => "undefined"

def typeName : Value → String
  | integer _ => "int"
  | char _ => "char"
  | string _ => "string"
  | boolean _ => "bool"
  | absent => "undefined"

end Value

end VnScript
