import VnScript.Grammar.Declaration
import VnScript.Proofs.Token.Spelling

namespace VnScript

open Grammar

/-- A name that the source can declare. -/
def IsName (name : String) : Prop := IsIdentifier name.toList
  deriving Decidable

/-- A name that the source can use: one it can declare, or that of the instance. -/
def IsUsable (name : String) : Prop := IsName name ∨ name = instanceName
  deriving Decidable

/-- A name that the source can write behind a point or a colon. -/
def IsMemberName (name : String) : Prop := IsWord name.toList
  deriving Decidable

def IsModuleName (name : String) : Prop :=
  ∃ parts, parts ≠ [] ∧ (∀ part ∈ parts, IsName part) ∧ name = ".".intercalate parts

def IsCommentText (text : String) : Prop :=
  Text.trim text = text ∧ ∀ c ∈ text.toList, c ≠ '\n' ∧ c ≠ '}'

/-- A receiver with the name that is called on it. -/
def Receiver.WellFormed (name : String) : Receiver → Prop
  | .free => IsUsable name
  | .named receiver => (IsUsable receiver ∨ receiver = className) ∧ IsMemberName name
  | .namespaced space => IsUsable space ∧ IsMemberName name
  | .self => False

def Expr.IsObject (object : Expr) : Prop := ∃ name, object = .identifier name ∧ IsUsable name

mutual

/-- The expressions that the source can write, whatever stands in which operand. Bits of
numbers with a point have no sign, and are those of a number or of infinity. -/
def Expr.WellFormed : Expr → Prop
  | .identifier name => IsUsable name
  | .integer n => 0 ≤ n.toInt ∧ n.toInt < 2 ^ 63
  | .float bits => bits.toNat ≤ Decimal.FloatFormat.single.infinityBits
  | .double bits => bits.toNat ≤ Decimal.FloatFormat.double.infinityBits
  | .char c => c ≠ '\x27'
  | .boolean _ => True
  | .string s => '"' ∉ s.toList
  | .self => False
  | .binary _ left right => left.WellFormed ∧ right.WellFormed
  | .assign name value => IsUsable name ∧ value.WellFormed
  | .assignMember object member value =>
    object.IsObject ∧ IsMemberName member ∧ value.WellFormed
  | .call receiver name arguments => receiver.WellFormed name ∧ exprsWellFormed arguments
  | .namespaceMember space member => IsUsable space ∧ IsMemberName member
  | .create space type arguments =>
    (∀ name ∈ space, IsName name) ∧ IsName type ∧ exprsWellFormed arguments
  | .member object name => object.IsObject ∧ IsMemberName name

def exprsWellFormed : List Expr → Prop
  | [] => True
  | e :: rest => e.WellFormed ∧ exprsWellFormed rest

end

/-- A statement that can stand first in the head of a loop: a declaration, or an assignment
that does not start with the instance. -/
def Stmt.IsInitial : Stmt → Prop
  | .declare _ _ _ => True
  | .expr (.assign name _) => IsName name
  | .expr (.assignMember (.identifier name) _ _) => IsName name
  | _ => False

section

variable (E : Expr → Prop)

mutual

/-- The statements that the source can write with expressions in `E`. -/
def Stmt.WellFormed : Stmt → Prop
  | .comment text => IsCommentText text
  | .declare _ name value => IsName name ∧ ∀ e ∈ value, E e
  | .expr e => E e
  | .ret value => ∀ e ∈ value, E e
  | .conditional clause => clause.WellFormed
  | .forLoop initial condition increment body =>
    initial.IsInitial ∧ initial.WellFormed ∧ E condition ∧ E increment ∧ blockWellFormed body
  | .forIn name _ collection body => IsName name ∧ E collection ∧ blockWellFormed body
  | .whileLoop condition body => E condition ∧ blockWellFormed body
  | .doWhile body condition => blockWellFormed body ∧ E condition
  | .switch subject cases => E subject ∧ casesWellFormed cases
  | .attempt body errorType binding handler =>
    blockWellFormed body ∧ IsName errorType ∧ IsName binding ∧ blockWellFormed handler

def blockWellFormed : List Stmt → Prop
  | [] => True
  | s :: rest => s.WellFormed ∧ blockWellFormed rest

def Conditional.WellFormed : Conditional → Prop
  | .mk condition body elseIfs orElse =>
    E condition ∧ blockWellFormed body ∧ clausesWellFormed elseIfs ∧ orElseWellFormed orElse

def orElseWellFormed : Option (List Stmt) → Prop
  | some b => blockWellFormed b
  | none => True

/-- Further clauses have none of their own, and no last body. -/
def clausesWellFormed : List Conditional → Prop
  | [] => True
  | .mk condition body elseIfs orElse :: rest =>
    (E condition ∧ blockWellFormed body ∧ elseIfs = [] ∧ orElse = none) ∧ clausesWellFormed rest

def casesWellFormed : List Case → Prop
  | [] => True
  | .mk value body :: rest => (E value ∧ blockWellFormed body) ∧ casesWellFormed rest

end

structure Function.WellFormed (f : Function) : Prop where
  result : f.result = none
  parameters : ∀ p ∈ f.parameters, IsUsable p.name
  body : blockWellFormed E f.body

structure ClassDecl.WellFormed (c : ClassDecl) : Prop where
  name : IsName c.name
  base : ∀ b ∈ c.base, IsName b
  classMethods : ∀ f ∈ c.classMethods, IsName f.name ∧ f.WellFormed E
  instanceMethods : ∀ f ∈ c.instanceMethods, IsName f.name ∧ f.WellFormed E
  initializer : ∀ f ∈ c.initializer, f.name = initializerName ∧ f.WellFormed E

mutual

def Declaration.WellFormed : Declaration → Prop
  | .function f => IsName f.name ∧ f.WellFormed E
  | .namespaceDecl name declarations => IsName name ∧ declarationsWellFormed declarations
  | .classDecl c => c.WellFormed E
  | .importDecl module => IsModuleName module

def declarationsWellFormed : List Declaration → Prop
  | [] => True
  | d :: rest => d.WellFormed ∧ declarationsWellFormed rest

end

/-- The programs that the source can write with expressions in `E`. -/
def Program.WellFormed (p : Program) : Prop := declarationsWellFormed E p.declarations

variable {E}

theorem wellFormed_of_mem {ds : List Declaration} {d : Declaration}
    (h : declarationsWellFormed E ds) (hd : d ∈ ds) : d.WellFormed E := by
  induction ds with
  | nil => cases hd
  | cons d' ds ih =>
    cases hd with
    | head => exact h.1
    | tail _ hd => exact ih h.2 hd

theorem Program.WellFormed.function {p : Program} (h : p.WellFormed E) {name : String}
    {f : Function} (hf : p.function? name = some f) : f.WellFormed E := by
  obtain ⟨d, hd, hsome⟩ := List.exists_of_findSome?_eq_some hf
  have hw := wellFormed_of_mem h hd
  cases d with
  | function g =>
    simp only at hsome
    split at hsome <;> cases hsome
    exact hw.2
  | namespaceDecl _ _ | classDecl _ | importDecl _ => cases hsome

end

end VnScript
