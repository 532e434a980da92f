import VnScript.Cpp.Expression
import VnScript.Proofs.Cpp.Grammar
import VnScript.Proofs.Cpp.Literal

namespace VnScript

namespace Cpp

/-- Operands of one operator, grouped from the left. -/
def chain (sign : String) : List Tree → Tree
  | [] => .leaf ""
  | t :: ts => ts.foldl (.binary sign) t

/-- A number literal. Its minus sign is an operator. -/
def integerTree (n : Int) : Tree :=
  if n < 0 then .negative (.leaf (Text.decimal (-n))) else .leaf (Text.decimal n)

/-- How an expression groups, as which terms it stands in a sum of texts, and what of it is
printed one after another. -/
structure Grouped where
  tree : Tree
  terms : List Tree
  stream : List Tree

def Grouped.single (t : Tree) : Grouped := ⟨t, [.call (.leaf "vn_to_string") [t]], [t]⟩

def ownedTree (s : String) : Tree := .call (.qualified "std" "string") [.leaf (Text.quoted s)]

def Grouped.literal (s : String) : Grouped :=
  ⟨.leaf (Text.quoted s), [ownedTree s], [.leaf (Text.quoted s)]⟩

def Grouped.sum (left right : Grouped) : Grouped :=
  ⟨chain "+" (left.terms ++ right.terms), left.terms ++ right.terms, left.stream ++ right.stream⟩

/-- A sum of numbers is one term of a sum of texts. -/
def Grouped.addition (left right : Grouped) : Grouped :=
  { Grouped.single (.binary "+" left.tree right.tree) with stream := left.stream ++ right.stream }

def printTree (groups : List Grouped) : Tree :=
  chain "<<" (.qualified "std" "cout" ::
    (groups.flatMap Grouped.stream ++ [.qualified "std" "endl"]))

def inputTree : List Grouped → Tree
  | [] => .call .readLine []
  | g :: _ => .call (.readLineAfter (.binary "<<" (.qualified "std" "cout") g.tree)) []

def systemTree (name : String) (groups : List Grouped) : Tree :=
  if name = "print" then printTree groups
  else if name = "input" then inputTree groups
  else .value dynamicType

/-- The tree of an expression whose value is kept. -/
def ownedValue (e : Expr) (t : Tree) : Tree :=
  match e with
  | .string s => ownedTree s
  | _ => t

def conversionTree (name : String) (arguments : List Expr) (groups : List Grouped) : Tree :=
  match conversionHelper? name, arguments, groups with
  | some helper, [e], [g] => .call (.leaf helper) [ownedValue e g.tree]
  | _, _, _ => .value dynamicType

section

variable (classes : List String)

def memberTree (object : Expr) (t : Tree) (member : String) : Tree :=
  match object with
  | .identifier name =>
    if classes.contains name then .qualified (mangle name) (mangle member)
    else .member t (mangle member)
  | _ => .member t (mangle member)

def callTree (receiver : Receiver) (name : String) (arguments : List Expr)
    (groups : List Grouped) : Tree :=
  let ts := groups.map Grouped.tree
  match receiver with
  | .free => .call (.leaf (mangle name)) ts
  | .named n =>
    if n = "System" then systemTree name groups
    else if classes.contains n then .call (.qualified (mangle n) (mangle name)) ts
    else if name = "replace" ∧ arguments.length = 2 then
      .call (.leaf "vn_replace") (.leaf (mangle n) :: ts)
    else .call (.member (.leaf (mangle n)) (mangle name)) ts
  | .namespaced n =>
    if n = "type" then conversionTree name arguments groups
    else .call (.qualified (mangle n) (mangle name)) ts
  | .self => .call (.member (.leaf "this") (mangle name)) ts

end

end Cpp

open Cpp

mutual

/-- How C++ is to group the form of an expression: as the expression itself, but for sums that
join texts, which group from the left. -/
def Expr.grouped (classes : List String) : Expr → Grouped
  | .identifier name => .single (.leaf (mangle name))
  | .integer n => .single (integerTree n.toInt)
  | .float bits => .single (.leaf (floatLiteral bits))
  | .double bits => .single (.leaf (doubleLiteral bits))
  | .char c => .single (.leaf (Text.quotedChar c))
  | .boolean b => .single (.leaf (if b then "true" else "false"))
  | .string s => .literal s
  | .self => .single (.leaf "this")
  | .binary op left right =>
    let l := left.grouped classes
    let r := right.grouped classes
    if op = .add then
      if left.joinsText || right.joinsText then l.sum r else l.addition r
    else .single (.binary op.cppSymbol l.tree r.tree)
  | .assign name value =>
    .single (.assign (.leaf (mangle name)) (value.grouped classes).tree)
  | .assignMember object member value =>
    .single (.assign (memberTree classes object (object.grouped classes).tree member)
      (value.grouped classes).tree)
  | .call receiver name arguments =>
    .single (callTree classes receiver name arguments (groupedAll classes arguments))
  | .namespaceMember space member => .single (.qualified (mangle space) (mangle member))
  | .create space type arguments =>
    .single (.call (.unique (space.map mangle) (mangle type))
      ((groupedAll classes arguments).map Grouped.tree))
  | .member object name =>
    .single (memberTree classes object (object.grouped classes).tree name)

def groupedAll (classes : List String) : List Expr → List Grouped
  | [] => []
  | e :: rest => e.grouped classes :: groupedAll classes rest

end

namespace Expr

def tree (classes : List String) (e : Expr) : Tree := (e.grouped classes).tree

end Expr

mutual

/-- The property holds of an expression and of all in it. -/
def Expr.Everywhere (P : Expr → Prop) : Expr → Prop
  | .binary op left right =>
    P (.binary op left right) ∧ left.Everywhere P ∧ right.Everywhere P
  | .assign name value => P (.assign name value) ∧ value.Everywhere P
  | .assignMember object member value =>
    P (.assignMember object member value) ∧ object.Everywhere P ∧ value.Everywhere P
  | .call receiver name arguments =>
    P (.call receiver name arguments) ∧ EverywhereAll P arguments
  | .create space type arguments =>
    P (.create space type arguments) ∧ EverywhereAll P arguments
  | .member object name => P (.member object name) ∧ object.Everywhere P
  | e => P e

def EverywhereAll (P : Expr → Prop) : List Expr → Prop
  | [] => True
  | e :: rest => e.Everywhere P ∧ EverywhereAll P rest

end

def Receiver.names : Receiver → List String
  | .named n | .namespaced n => [n]
  | .free | .self => []

namespace Expr

def IsUnsigned : Expr → Prop
  | .integer n => 0 ≤ n.toInt
  | .float bits => Decimal.FloatFormat.single.IsUnsigned bits.toNat
  | .double bits => Decimal.FloatFormat.double.IsUnsigned bits.toNat
  | _ => True

def IsPrint : Expr → Prop
  | .call (.named "System") "print" _ => True
  | _ => False

/-- The names in an expression itself, without those in its parts. -/
def names : Expr → List String
  | .identifier name => [name]
  | .assign name _ => [name]
  | .assignMember _ m _ => [m]
  | .call receiver name _ => receiver.names ++ [name]
  | .namespaceMember space m => [space, m]
  | .create space type _ => space.toList ++ [type]
  | .member _ name => [name]
  | _ => []

variable (classes : List String)

/-- The names that stand before and behind a `::`. -/
def qualified? : Expr → Option (String × String)
  | .assignMember (.identifier n) m _ => if classes.contains n then some (n, m) else none
  | .call (.named n) name _ => if classes.contains n then some (n, name) else none
  | .call (.namespaced n) name _ => some (n, name)
  | .namespaceMember space m => some (space, m)
  | .member (.identifier n) name => if classes.contains n then some (n, name) else none
  | _ => none

/-- The C++ form is made of names and of literals without a sign, and the template of smart
pointers has its argument. -/
structure IsPlain (e : Expr) : Prop where
  unsigned : e.IsUnsigned
  silent : ¬e.IsPrint
  named : ∀ name ∈ e.names, IsNameText (mangle name)
  complete : ∀ p ∈ qualified? classes e, ¬IsTemplate (mangle p.1) (mangle p.2)

end Expr

end VnScript
