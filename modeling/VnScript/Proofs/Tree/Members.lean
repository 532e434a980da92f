import Mathlib.Data.List.Nodup
import Mathlib.Logic.Relation
import VnScript.Proofs.Tree.WellFormed
import VnScript.Tree.Bound

namespace VnScript

mutual

/-- A statement and the statements in it, at any depth, in source order. -/
def Stmt.parts : Stmt → List Stmt
  | .comment text => [.comment text]
  | .declare type name value => [.declare type name value]
  | .expr e => [.expr e]
  | .ret value => [.ret value]
  | .conditional clause => .conditional clause :: clause.parts
  | .forLoop initial condition increment body =>
    .forLoop initial condition increment body :: initial.parts ++ blockParts body
  | .forIn name type collection body => .forIn name type collection body :: blockParts body
  | .whileLoop condition body => .whileLoop condition body :: blockParts body
  | .doWhile body condition => .doWhile body condition :: blockParts body
  | .switch subject cases => .switch subject cases :: casesParts cases
  | .attempt body errorType binding handler =>
    .attempt body errorType binding handler :: blockParts body ++ blockParts handler

def blockParts : List Stmt → List Stmt
  | [] => []
  | s :: rest => s.parts ++ blockParts rest

def Conditional.parts : Conditional → List Stmt
  | .mk _ body elseIfs orElse =>
    blockParts body ++ clausesParts elseIfs ++
      match orElse with
      | some b => blockParts b
      | none => []

def clausesParts : List Conditional → List Stmt
  | [] => []
  | c :: rest => c.parts ++ clausesParts rest

def casesParts : List Case → List Stmt
  | [] => []
  | .mk _ body :: rest => blockParts body ++ casesParts rest

end

/-- The member that a statement assigns through the instance. -/
def Stmt.member? : Stmt → Option String
  | .expr (.assignMember (.identifier name) member _) =>
    if name = instanceName then some member else none
  | _ => none

theorem Stmt.member?_eq_some {s : Stmt} {m : String} :
    s.member? = some m ↔
      ∃ value, s = .expr (.assignMember (.identifier instanceName) m value) := by
  constructor
  · intro h
    unfold Stmt.member? at h
    split at h
    · next name member value =>
      obtain ⟨rfl, hm⟩ := Option.ite_none_right_eq_some.1 h
      cases hm
      exact ⟨value, rfl⟩
    · cases h
  · rintro ⟨value, rfl⟩
    rfl

/-- The members that a class assigns through the instance in statements, first those of the
initializer, in source order. -/
def ClassDecl.assignedMembers (c : ClassDecl) : List String :=
  (c.initializer.toList ++ c.instanceMethods).flatMap fun f =>
    (blockParts f.body).filterMap Stmt.member?

theorem ClassDecl.mem_assignedMembers {c : ClassDecl} {m : String} :
    m ∈ c.assignedMembers ↔ ∃ f ∈ c.initializer.toList ++ c.instanceMethods, ∃ value,
      Stmt.expr (.assignMember (.identifier instanceName) m value) ∈ blockParts f.body := by
  rw [ClassDecl.assignedMembers, List.mem_flatMap]
  refine exists_congr fun f => and_congr_right fun _ => ?_
  rw [List.mem_filterMap]
  constructor
  · rintro ⟨s, hs, hm⟩
    obtain ⟨value, rfl⟩ := Stmt.member?_eq_some.1 hm
    exact ⟨value, hs⟩
  · rintro ⟨value, hs⟩
    exact ⟨_, hs, Stmt.member?_eq_some.2 ⟨value, rfl⟩⟩

mutual

/-- The classes of a declaration at any depth, in source order. -/
def Declaration.classes : Declaration → List ClassDecl
  | .classDecl c => [c]
  | .namespaceDecl _ declarations => classesOf declarations
  | .function _ => []
  | .importDecl _ => []

def classesOf : List Declaration → List ClassDecl
  | [] => []
  | d :: rest => d.classes ++ classesOf rest

end

namespace Program

def classes (p : Program) : List ClassDecl := classesOf p.declarations

variable (p : Program)

/-- The class that a name stands for: the last one of that name in the program. -/
def class? (name : String) : Option ClassDecl := p.classes.reverse.find? fun c => c.name == name

/-- The base class of a class, if the program has one of that name. -/
def base? (c : ClassDecl) : Option ClassDecl := c.base.bind p.class?

def climb : Nat → ClassDecl → Option ClassDecl
  | 0, c => some c
  | n + 1, c => (p.base? c).bind (climb n)

/-- A class inherits from those that a chain of bases leads to. -/
def Inherits : ClassDecl → ClassDecl → Prop := Relation.TransGen fun c a => p.base? c = some a

variable {p} {a b c : ClassDecl} {name : String}

theorem mem_of_class? (h : p.class? name = some c) : c ∈ p.classes :=
  List.mem_reverse.1 (List.mem_of_find?_eq_some h)

theorem class?_last {before after : List ClassDecl} (h : p.classes = before ++ c :: after)
    (hl : ∀ d ∈ after, d.name ≠ c.name) : p.class? c.name = some c := by
  have hafter : after.reverse.find? (fun d => d.name == c.name) = none :=
    List.find?_eq_none.2 fun d hd => by
      rw [beq_iff_eq]
      exact hl d (List.mem_reverse.1 hd)
  rw [class?, h, List.reverse_append, List.reverse_cons, List.append_assoc, List.find?_append,
    hafter, Option.none_or]
  exact List.find?_cons_of_pos (beq_self_eq_true c.name)

theorem climb_add (m n : Nat) (c : ClassDecl) :
    p.climb (m + n) c = (p.climb m c).bind (p.climb n) := by
  induction m generalizing c with
  | zero => rw [Nat.zero_add, climb, Option.bind_some]
  | succ m ih =>
    rw [Nat.succ_add, climb, climb, Option.bind_assoc]
    exact congrArg _ (funext ih)

theorem mem_of_climb {n : Nat} (h : p.climb (n + 1) c = some a) : a ∈ p.classes := by
  induction n generalizing c with
  | zero =>
    obtain ⟨b, hb, ha⟩ := Option.bind_eq_some_iff.1 h
    obtain ⟨name, -, hname⟩ := Option.bind_eq_some_iff.1 hb
    cases ha
    exact mem_of_class? hname
  | succ n ih =>
    obtain ⟨b, -, ha⟩ := Option.bind_eq_some_iff.1 h
    exact ih ha

theorem inherits_iff : p.Inherits c a ↔ ∃ n, p.climb (n + 1) c = some a := by
  constructor
  · intro h
    induction h using Relation.TransGen.head_induction_on with
    | single h => exact ⟨0, by rw [climb, h]; rfl⟩
    | head h _ ih =>
      obtain ⟨n, hn⟩ := ih
      exact ⟨n + 1, by rw [climb, h]; exact hn⟩
  · rintro ⟨n, h⟩
    induction n generalizing c with
    | zero =>
      obtain ⟨b, hb, ha⟩ := Option.bind_eq_some_iff.1 h
      cases ha
      exact .single hb
    | succ n ih =>
      obtain ⟨b, hb, ha⟩ := Option.bind_eq_some_iff.1 h
      exact .head hb (ih ha)

theorem climb_repeats {n : Nat} (hn : p.classes.length < n) (h : p.climb n c = some a) :
    ∃ i j, 0 < i ∧ i < j ∧ j ≤ n ∧ p.climb i c = p.climb j c := by
  by_contra hno
  -- Otherwise there would be more classes on the way than there are.
  have hinj : ∀ i ∈ List.range n, ∀ j ∈ List.range n,
      p.climb (i + 1) c = p.climb (j + 1) c → i = j := by
    intro i hi j hj he
    rw [List.mem_range] at hi hj
    obtain hij | rfl | hij := Nat.lt_trichotomy i j
    · exact absurd ⟨i + 1, j + 1, by omega, by omega, by omega, he⟩ hno
    · rfl
    · exact absurd ⟨j + 1, i + 1, by omega, by omega, by omega, he.symm⟩ hno
  have hclasses : (List.range n).map (fun i => p.climb (i + 1) c) ⊆ p.classes.map some := by
    intro o ho
    obtain ⟨i, hi, rfl⟩ := List.mem_map.1 ho
    rw [List.mem_range] at hi
    have hsplit : i + 1 + (n - (i + 1)) = n := by omega
    rw [← hsplit, climb_add] at h
    obtain ⟨b, hb, -⟩ := Option.bind_eq_some_iff.1 h
    change p.climb (i + 1) c ∈ _
    rw [hb]
    exact List.mem_map_of_mem (mem_of_climb hb)
  have hlength := (List.Nodup.map_on hinj List.nodup_range).length_le_of_subset hclasses
  rw [List.length_map, List.length_map, List.length_range] at hlength
  omega

/-- Every class above another one is at most as many bases above it as there are classes, also
where the bases form a cycle. -/
theorem exists_climb_le {n : Nat} (h : p.climb (n + 1) c = some a) :
    ∃ m < p.classes.length, p.climb (m + 1) c = some a := by
  induction n using Nat.strong_induction_on with
  | h n ih =>
    by_cases hn : n < p.classes.length
    · exact ⟨n, hn, h⟩
    obtain ⟨i, j, hi, hij, hj, he⟩ := climb_repeats (by omega) h
    -- The way from `i` to `j` is left out.
    have hlong : j + (n + 1 - j) = n + 1 := by omega
    have hshort : i + (n + 1 - j) = (n - (j - i)) + 1 := by omega
    have hskip : p.climb ((n - (j - i)) + 1) c = some a := by
      rw [← hshort, climb_add, he, ← climb_add, hlong, h]
    exact ih (n - (j - i)) (by omega) hskip

end Program

end VnScript
