import VnScript.Tree.Basic

namespace VnScript.Cpp

def reserved : List String :=
  ["alignas", "alignof", "asm", "break", "catch", "const", "constexpr", "continue", "default",
    "delete", "enum", "explicit", "export", "extern", "friend", "goto", "inline", "long",
    "mutable", "new", "noexcept", "nullptr", "operator", "private", "protected", "public",
    "register", "short", "signed", "sizeof", "static", "struct", "template", "this", "throw",
    "try", "typedef", "typeid", "typename", "union", "unsigned", "using", "virtual", "void",
    "volatile"]

def dashless (name : String) : String :=
  String.ofList (name.toList.map fun c => if c = '-' then '_' else c)

/-- The C++ name for a name: dashes become underscores, and a reserved word
gets an underscore behind it. -/
def mangle (name : String) : String :=
  if reserved.contains (dashless name) then dashless name ++ "_" else dashless name

def typeText : TypeName → String
  | .int => "int"
  | .char => "char"
  | .string => "std::string"
  | .bool => "bool"
  | .float => "float"
  | .double => "double"

/-- The type of values about which nothing is known. -/
def dynamicType : String := "vn_value"

def conventionalType? (name : String) : Option String :=
  if name = "name" then some "std::string"
  else if name = "age" ∨ name = "id" then some "int"
  else none

def typeFor (name : String) (declared : Option TypeName) : String :=
  match declared with
  | some t => typeText t
  | none => (conventionalType? name).getD dynamicType

def parameterText (p : Parameter) : String := typeFor p.name p.type ++ " " ++ mangle p.name

def parameterList (ps : List Parameter) : String :=
  String.intercalate ", " (ps.map parameterText)

end VnScript.Cpp
