import Mathlib.Logic.Basic
import VnScript.Proofs.Tree.Nested
import VnScript.Proofs.Tree.Nodes
import VnScript.Tree.Bound

namespace VnScript

namespace TreeNode

/-- The name of the instance as an accessed object, and the named receivers for the instance and the
class: within a class they stand for something else. -/
def Unbound (n : TreeNode) : Prop :=
  n.accessed ∧ n.form = .identifier instanceName ∨
    ∃ name, n.form = .call (.named instanceName) name ∨ n.form = .call (.named className) name

/-- What an unbound node within the class `type` stands for. Every other node stands for itself. -/
def bind (type : String) (n : TreeNode) : TreeNode :=
  match n.form with
  | .identifier name => if n.accessed ∧ name = instanceName then { n with form := .self } else n
  | .call (.named receiver) name =>
    if receiver = instanceName then { n with form := .call .self name }
    else if receiver = className then { n with form := .call (.namespaced type) name }
    else n
  | _ => n

/-- The name of the instance where nothing of it is accessed. -/
def isBareInstance (n : TreeNode) : Bool := !n.accessed && n.form == .identifier instanceName

variable (type : String) (n : TreeNode)

theorem bind_eq_self_iff : n.bind type = n ↔ ¬ n.Unbound := by
  obtain ⟨accessed, form⟩ := n
  unfold bind Unbound
  grind

theorem bind_bind : (n.bind type).bind type = n.bind type := by
  obtain ⟨accessed, form⟩ := n
  unfold bind
  grind

theorem not_unbound_bind : ¬ (n.bind type).Unbound :=
  ((n.bind type).bind_eq_self_iff type).1 (n.bind_bind type)

theorem isBareInstance_bind : (n.bind type).isBareInstance = n.isBareInstance := by
  obtain ⟨accessed, form⟩ := n
  unfold bind isBareInstance
  grind

theorem bind_of_isBareInstance {n : TreeNode} (h : n.isBareInstance) : n.bind type = n := by
  obtain ⟨accessed, form⟩ := n
  unfold isBareInstance at h
  unfold bind
  grind

end TreeNode

section Class

variable (type : String)

theorem TreeNode.bind_call (accessed : Bool) (receiver : Receiver) (name : String) :
    (⟨accessed, .call (receiver.bind type) name⟩ : TreeNode) =
      (⟨accessed, .call receiver name⟩ : TreeNode).bind type := by
  cases receiver with
  | named receiver =>
    by_cases hi : receiver = instanceName
    · simp [TreeNode.bind, Receiver.bind, hi]
    · by_cases hc : receiver = className
      · subst hc
        simp [TreeNode.bind, Receiver.bind, hi]
      · simp [TreeNode.bind, Receiver.bind, hi, hc]
  | free | namespaced _ | self => rfl

theorem Expr.bind_node (e : Expr) :
    (⟨false, (e.bind type).form⟩ : TreeNode) = (⟨false, e.form⟩ : TreeNode).bind type := by
  cases e with
  | call receiver name _ => exact TreeNode.bind_call type false receiver name
  | identifier name => simp [Expr.bind, Expr.form, TreeNode.bind]
  | _ => rfl

theorem Expr.bind_accessed (e : Expr) :
    (⟨true, (boundObject e (e.bind type)).form⟩ : TreeNode) =
      (⟨true, e.form⟩ : TreeNode).bind type := by
  cases e with
  | call receiver name _ => exact TreeNode.bind_call type true receiver name
  | identifier name =>
    by_cases hi : name = instanceName
    · simp [boundObject, Expr.form, TreeNode.bind, hi]
    · simp [boundObject, Expr.bind, Expr.form, TreeNode.bind, hi]
  | _ => rfl

theorem boundObject_branches (e : Expr) :
    (boundObject e (e.bind type)).branches = (e.bind type).branches := by
  cases e with
  | identifier name =>
    rw [boundObject]
    split <;> rfl
  | _ => rfl

mutual

/-- The branches of an expression are bound node by node. Its own node depends on where it stands. -/
theorem Expr.bind_branches : (e : Expr) →
    (e.bind type).branches = e.branches.map (TreeNode.bind type)
  | .binary _ left right => by
    rw [Expr.bind, Expr.branches, Expr.branches, left.bind_node, right.bind_node,
      left.bind_branches, right.bind_branches]
    rfl
  | .assign _ value => by
    rw [Expr.bind, Expr.branches, Expr.branches, value.bind_node, value.bind_branches]
    rfl
  | .assignMember object _ value => by
    rw [Expr.bind, Expr.branches, Expr.branches, object.bind_accessed, value.bind_node,
      boundObject_branches, object.bind_branches, value.bind_branches]
    rfl
  | .call _ _ arguments | .create _ _ arguments => bindExprs_nodes arguments
  | .member object _ => by
    rw [Expr.bind, Expr.branches, Expr.branches, object.bind_accessed, boundObject_branches,
      object.bind_branches]
    rfl
  | .identifier _ | .integer _ | .float _ | .double _ | .char _ | .boolean _ | .string _ | .self
  | .namespaceMember _ _ => rfl

theorem bindExprs_nodes : (es : List Expr) →
    exprsNodes (bindExprs type es) = (exprsNodes es).map (TreeNode.bind type)
  | [] => rfl
  | e :: rest => by
    rw [bindExprs, exprsNodes, exprsNodes, e.bind_node, e.bind_branches, bindExprs_nodes rest]
    rfl

end

theorem Expr.bind_before (e : Expr) {further further' : Forest TreeNode}
    (h : further' = further.map (TreeNode.bind type)) :
    (e.bind type).before further' = (e.before further).map (TreeNode.bind type) := by
  rw [Expr.before, Expr.before, e.bind_node, e.bind_branches, h]
  rfl

theorem bind_listBefore {t t' further further' : Forest TreeNode}
    (h : t' = t.map (TreeNode.bind type)) (hf : further' = further.map (TreeNode.bind type)) :
    listBefore t' further' = (listBefore t further).map (TreeNode.bind type) := by
  rw [h, hf]
  rfl

theorem bind_toList (value : Option Expr) :
    exprsNodes (value.map (Expr.bind type)).toList =
      (exprsNodes value.toList).map (TreeNode.bind type) := by
  cases value with
  | none => rfl
  | some e => exact e.bind_before type rfl

theorem Stmt.bind_node (s : Stmt) :
    (⟨false, (s.bind type).form⟩ : TreeNode) = (⟨false, s.form⟩ : TreeNode).bind type := by
  cases s <;> rfl

mutual

theorem Stmt.bind_branches : (s : Stmt) →
    (s.bind type).branches = s.branches.map (TreeNode.bind type)
  | .comment _ => rfl
  | .declare _ _ value | .ret value => bind_toList type value
  | .expr e => e.bind_before type rfl
  | .conditional clause => congrArg (Forest.tree _ · .empty) clause.bind_branches
  | .forLoop initial condition increment body => by
    rw [Stmt.bind, Stmt.branches, Stmt.branches, initial.bind_node, initial.bind_branches,
      condition.bind_before type (increment.bind_before type (bindBlock_nodes body))]
    rfl
  | .forIn _ _ collection body => collection.bind_before type (bindBlock_nodes body)
  | .whileLoop condition body => condition.bind_before type (bindBlock_nodes body)
  | .doWhile body condition =>
    bind_listBefore type (bindBlock_nodes body) (condition.bind_before type rfl)
  | .switch subject cases => subject.bind_before type (bindCases_nodes cases)
  | .attempt body _ _ handler =>
    bind_listBefore type (bindBlock_nodes body) (bindBlock_nodes handler)

theorem bindBlock_nodes : (ss : List Stmt) →
    blockNodes (bindBlock type ss) = (blockNodes ss).map (TreeNode.bind type)
  | [] => rfl
  | s :: rest => by
    rw [bindBlock, blockNodes, blockNodes, s.bind_node, s.bind_branches, bindBlock_nodes rest]
    rfl

theorem Conditional.bind_branches : (c : Conditional) →
    (c.bind type).branches = c.branches.map (TreeNode.bind type)
  | .mk condition body elseIfs none =>
    condition.bind_before type (bind_listBefore type (bindBlock_nodes body)
      (bind_listBefore type (bindClauses_nodes elseIfs) rfl))
  | .mk condition body elseIfs (some b) =>
    condition.bind_before type (bind_listBefore type (bindBlock_nodes body)
      (bind_listBefore type (bindClauses_nodes elseIfs)
        (bind_listBefore type (bindBlock_nodes b) rfl)))

theorem bindClauses_nodes : (cs : List Conditional) →
    clausesNodes (bindClauses type cs) = (clausesNodes cs).map (TreeNode.bind type)
  | [] => rfl
  | c :: rest => congrArg₂ (Forest.tree _) c.bind_branches (bindClauses_nodes rest)

theorem bindCases_nodes : (cs : List Case) →
    casesNodes (bindCases type cs) = (casesNodes cs).map (TreeNode.bind type)
  | [] => rfl
  | .mk value body :: rest => congrArg₂ (Forest.tree _)
    (value.bind_before type (bindBlock_nodes body)) (bindCases_nodes rest)

end

theorem bindFunctions_nodes (fs : List Function) :
    functionsNodes (fs.map (Function.bind type)) =
      (functionsNodes fs).map (TreeNode.bind type) := by
  induction fs with
  | nil => rfl
  | cons f fs ih => exact congrArg₂ (Forest.tree _) (bindBlock_nodes type f.body) ih

end Class

theorem ClassDecl.bind_branches (c : ClassDecl) :
    c.bind.branches = c.branches.map (TreeNode.bind c.name) := by
  have hinit : functionsNodes (c.initializer.map (Function.bind c.name)).toList =
      (functionsNodes c.initializer.toList).map (TreeNode.bind c.name) := by
    rw [Option.toList_map]
    exact bindFunctions_nodes c.name _
  exact bind_listBefore c.name (bindFunctions_nodes c.name c.classMethods)
    (bind_listBefore c.name (bindFunctions_nodes c.name c.instanceMethods) hinit)

def bindPlaced : Option String × TreeNode → Option String × TreeNode
  | (some type, n) => (some type, n.bind type)
  | (none, n) => (none, n)

theorem bindPlaced_bindPlaced : (n : Option String × TreeNode) →
    bindPlaced (bindPlaced n) = bindPlaced n
  | (some type, n) => congrArg (Prod.mk _) (n.bind_bind type)
  | (none, _) => rfl

theorem isBareInstance_bindPlaced : (n : Option String × TreeNode) →
    (bindPlaced n).2.isBareInstance = n.2.isBareInstance
  | (some type, n) => n.isBareInstance_bind type
  | (none, _) => rfl

theorem bindPlaced_of_isBareInstance {n : Option String × TreeNode} (h : n.2.isBareInstance) :
    bindPlaced n = n := by
  obtain ⟨within, n⟩ := n
  cases within with
  | none => rfl
  | some type => exact congrArg (Prod.mk _) (n.bind_of_isBareInstance type h)

mutual

theorem Declaration.bind_branches : (d : Declaration) → d.bind.branches = d.branches.map bindPlaced
  | .function f => (Forest.map_map bindPlaced (Prod.mk none) (blockNodes f.body)).symm
  | .namespaceDecl _ ds => bindDeclarations_nodes ds
  | .classDecl c => by
    rw [Declaration.bind, Declaration.branches, Declaration.branches, c.bind_branches,
      Forest.map_map, Forest.map_map]
    rfl
  | .importDecl _ => rfl

theorem bindDeclarations_nodes : (ds : List Declaration) →
    declarationsNodes (bindDeclarations ds) = (declarationsNodes ds).map bindPlaced
  | [] => rfl
  | d :: rest => by
    have hform : d.bind.form = d.form := by cases d <;> rfl
    rw [bindDeclarations, declarationsNodes, declarationsNodes, hform, d.bind_branches,
      bindDeclarations_nodes rest]
    rfl

end

namespace Program

variable (p : Program)

theorem bind_nodes : p.bind.nodes = p.nodes.map bindPlaced := bindDeclarations_nodes p.declarations

theorem bind_bind : p.bind.bind = p.bind := by
  -- a law of one node is enough, as nothing of a program is without a node
  refine nodes_injective ?_
  have hb : bindPlaced ∘ bindPlaced = bindPlaced := funext bindPlaced_bindPlaced
  rw [bind_nodes, bind_nodes, Forest.map_map, hb]

theorem bareInstances_bind : p.bind.nodes.labels.filter (fun n => n.2.isBareInstance) =
    p.nodes.labels.filter fun n => n.2.isBareInstance := by
  rw [bind_nodes, Forest.labels_map]
  induction p.nodes.labels with
  | nil => rfl
  | cons n rest ih =>
    rw [List.map_cons, List.filter_cons, List.filter_cons, isBareInstance_bindPlaced, ih]
    split
    · next hn => rw [bindPlaced_of_isBareInstance hn]
    · rfl

end Program

/-- Binding is done once and for all: it keeps the functions outside of classes, and no node within
a class is unbound afterwards. The one program that has the nodes of `p`, each unbound one within a
class replaced by what it stands for, is `p` with its receivers bound. So nothing else changes. -/
theorem receivers_bound (p : Program) :
    p.bind.bind = p.bind ∧
    p.bind.functions = p.functions ∧
    (∀ type n, (some type, n) ∈ p.bind.nodes.labels → ¬ n.Unbound) ∧
    (∀ q : Program, q.nodes = p.nodes.map bindPlaced ↔ q = p.bind) ∧
    p.bind.nodes.shape = p.nodes.shape ∧
    p.bind.nodes.labels.filter (fun n => n.2.isBareInstance) =
      p.nodes.labels.filter fun n => n.2.isBareInstance := by
  refine ⟨p.bind_bind, p.functions_bind, ?_, ?_, ?_, p.bareInstances_bind⟩
  · intro type n hn
    rw [p.bind_nodes, Forest.labels_map, List.mem_map] at hn
    obtain ⟨⟨within, m⟩, -, hm⟩ := hn
    cases within with
    | none => cases hm
    | some type' =>
      cases hm
      exact m.not_unbound_bind type
  · intro q
    rw [← p.bind_nodes]
    exact Program.nodes_injective.eq_iff
  · rw [p.bind_nodes, Forest.shape_map]

end VnScript
