import VnScript.Cpp.Literal
import VnScript.Cpp.Names
import VnScript.Text.Integer

namespace VnScript

namespace Cpp

/-- How tightly C++ binds, from assignment to names and literals. -/
abbrev Strength := Nat

namespace Strength

def assignment : Strength := 2
def logicalOr : Strength := 3
def logicalAnd : Strength := 4
def equality : Strength := 8
def relational : Strength := 9
def shift : Strength := 11
def additive : Strength := 12
def multiplicative : Strength := 13
def access : Strength := 16
def primary : Strength := 17

end Strength

end Cpp

open Cpp

namespace Operator

def strength : Operator → Strength
  | .mul | .div | .mod => .multiplicative
  | .add | .sub => .additive
  | .shiftLeft | .shiftRight => .shift
  | .less | .lessEqual | .greater | .greaterEqual => .relational
  | .equal | .notEqual | .xor => .equality
  | .and => .logicalAnd
  | .or => .logicalOr

def cppSymbol : Operator → String
  | .and => "&&"
  | .or => "||"
  | .xor => "!="
  | op => op.symbol

end Operator

namespace Expr

def strength : Expr → Strength
  | .binary op _ _ => op.strength
  | .assign .. => .assignment
  | .assignMember .. => .assignment
  | .call .. => .access
  | .member .. => .access
  | _ => .primary

/-- Whether an expression is a text literal or a sum with one among its terms. -/
def joinsText : Expr → Bool
  | .string _ => true
  | .binary .add left right => left.joinsText || right.joinsText
  | _ => false

/-- The terms of a sum, which print one after another. -/
def segments : Expr → List Expr
  | .binary .add left right => left.segments ++ right.segments
  | e => [e]

end Expr

namespace Cpp

/-- The text of an operand. Parentheses keep it together where C++ would group
it otherwise under an operator of strength `parent`, whose right operand it
may be. -/
def operand (e : Expr) (text : String) (parent : Strength) (right : Bool) : String :=
  if e.strength < parent || (right && e.strength == parent) then "(" ++ text ++ ")" else text

def joinedTerm (e : Expr) (text : String) : String :=
  match e with
  | .string s => ownedLiteral s
  | _ => if e.joinsText then text else "vn_to_string(" ++ text ++ ")"

/-- An expression whose value is kept: a text literal as a text of its own. -/
def owned (e : Expr) (text : String) : String :=
  match e with
  | .string s => ownedLiteral s
  | _ => text

structure Rendered where
  text : String
  stream : List String

def Rendered.single (e : Expr) (text : String) : Rendered := ⟨text, [operand e text .shift true]⟩

def placeholder (what : String) : String :=
  dynamicType ++ "\x7b\x7d /* unsupported: " ++ what ++ " */"

def argumentList (texts : List String) : String := String.intercalate ", " texts

def printText (arguments : List Rendered) : String :=
  "std::cout" ++ String.join ((arguments.flatMap Rendered.stream).map (" << " ++ ·)) ++
    " << std::endl"

def inputText (prompt : String) : String :=
  "([&]() \x7b " ++ prompt ++
    "std::string vn_line; std::getline(std::cin, vn_line); return vn_line; \x7d())"

def promptText (arguments : List Expr) (texts : List Rendered) : String :=
  match arguments, texts with
  | e :: _, r :: _ => "std::cout << " ++ operand e r.text .shift true ++ "; "
  | _, _ => ""

def systemCall (name : String) (arguments : List Expr) (texts : List Rendered) : String :=
  if name = "print" then printText texts
  else if name = "input" then inputText (promptText arguments texts)
  else placeholder ("System." ++ name)

def conversionHelper? (name : String) : Option String :=
  if name = "int" then some "vn_to_int"
  else if name = "string" then some "vn_to_string"
  else if name = "char" then some "vn_to_char"
  else none

def conversionCall (name : String) (arguments : List Expr) (texts : List Rendered) : String :=
  match conversionHelper? name, arguments, texts with
  | none, _, _ => placeholder ("type:" ++ name)
  | some helper, [e], [r] => helper ++ "(" ++ owned e r.text ++ ")"
  | some _, _, _ =>
    placeholder ("type:" ++ name ++ " with " ++ toString arguments.length ++ " arguments")

section

variable (classes : List String)

/-- A member of an object, or of a class where the object has a class's name. -/
def memberText (object : Expr) (text member : String) : String :=
  match object with
  | .identifier name =>
    if classes.contains name then mangle name ++ "::" ++ mangle member
    else operand object text .access false ++ "->" ++ mangle member
  | _ => operand object text .access false ++ "->" ++ mangle member

def callText (receiver : Receiver) (name : String) (arguments : List Expr)
    (texts : List Rendered) : String :=
  let list := argumentList (texts.map Rendered.text)
  let plain := mangle name ++ "(" ++ list ++ ")"
  match receiver with
  | .free => plain
  | .named n =>
    if n = "System" then systemCall name arguments texts
    else if classes.contains n then mangle n ++ "::" ++ plain
    else if name = "replace" ∧ arguments.length = 2 then
      "vn_replace(" ++ mangle n ++ ", " ++ list ++ ")"
    else mangle n ++ "->" ++ plain
  | .namespaced n =>
    if n = "type" then conversionCall name arguments texts else mangle n ++ "::" ++ plain
  | .self => "this->" ++ plain

def creationText (space : Option String) (type : String) (texts : List Rendered) : String :=
  let name := match space with
    | some n => mangle n ++ "::" ++ mangle type
    | none => mangle type
  "std::make_unique<" ++ name ++ ">(" ++ argumentList (texts.map Rendered.text) ++ ")"

def binaryText (op : Operator) (left right : Expr) (l r : String) : String :=
  if op = .add ∧ (left.joinsText || right.joinsText) then
    joinedTerm left l ++ " + " ++ joinedTerm right r
  else
    operand left l op.strength false ++ " " ++ op.cppSymbol ++ " " ++
      operand right r op.strength true

end

end Cpp

mutual

/-- The C++ form of an expression. `classes` are the names of all classes. -/
def Expr.rendered (classes : List String) : Expr → Rendered
  | .identifier name => .single (.identifier name) (mangle name)
  | .integer n => .single (.integer n) (Text.decimal n.toInt)
  | .float bits => .single (.float bits) (floatLiteral bits)
  | .double bits => .single (.double bits) (doubleLiteral bits)
  | .char c => .single (.char c) (Text.quotedChar c)
  | .boolean b => .single (.boolean b) (if b then "true" else "false")
  | .string s => .single (.string s) (Text.quoted s)
  | .self => .single .self "this"
  | .binary op left right =>
    let l := left.rendered classes
    let r := right.rendered classes
    let text := binaryText op left right l.text r.text
    if op = .add then ⟨text, l.stream ++ r.stream⟩ else .single (.binary op left right) text
  | .assign name value =>
    .single (.assign name value) (mangle name ++ " = " ++ (value.rendered classes).text)
  | .assignMember object member value =>
    .single (.assignMember object member value)
      (memberText classes object (object.rendered classes).text member ++ " = " ++
        (value.rendered classes).text)
  | .call receiver name arguments =>
    .single (.call receiver name arguments)
      (callText classes receiver name arguments (renderedAll classes arguments))
  | .namespaceMember space member =>
    .single (.namespaceMember space member) (mangle space ++ "::" ++ mangle member)
  | .create space type arguments =>
    .single (.create space type arguments)
      (creationText space type (renderedAll classes arguments))
  | .member object name =>
    .single (.member object name) (memberText classes object (object.rendered classes).text name)

def renderedAll (classes : List String) : List Expr → List Rendered
  | [] => []
  | e :: rest => e.rendered classes :: renderedAll classes rest

end

namespace Expr

variable (classes : List String)

def cpp (e : Expr) : String := (e.rendered classes).text

def ownedCpp (e : Expr) : String := owned e (e.cpp classes)

theorem stream_rendered (e : Expr) :
    (e.rendered classes).stream = e.segments.map fun s => operand s (s.cpp classes) .shift true := by
  fun_induction segments e with
  | case1 left right ihl ihr => simp [rendered, ihl, ihr]
  | case2 e h =>
    cases e with
    | binary op left right =>
      cases op with
      | add => exact absurd rfl (h left right)
      | _ => simp [rendered, cpp, Rendered.single]
    | _ => simp [rendered, cpp, Rendered.single]

end Expr

end VnScript
