import Mathlib.Data.Prod.Basic
import VnScript.Tree.Basic

namespace VnScript

/-- Trees side by side, each with a label at its root. -/
inductive Forest (α : Type) where
  | empty
  | tree (label : α) (branches further : Forest α)

namespace Forest

variable {α β γ : Type}

def map (f : α → β) : Forest α → Forest β
  | empty => empty
  | tree a branches further => tree (f a) (branches.map f) (further.map f)

/-- All labels, each before those below it. -/
def labels : Forest α → List α
  | empty => []
  | tree a branches further => a :: (branches.labels ++ further.labels)

def shape (t : Forest α) : Forest Unit := t.map fun _ => ()

theorem map_map (g : β → γ) (f : α → β) (t : Forest α) : (t.map f).map g = t.map (g ∘ f) := by
  induction t with
  | empty => rfl
  | tree a branches further ihb ihf => simp only [map, ihb, ihf, Function.comp_apply]

theorem labels_map (f : α → β) (t : Forest α) : (t.map f).labels = t.labels.map f := by
  induction t with
  | empty => rfl
  | tree a branches further ihb ihf =>
    simp only [map, labels, ihb, ihf, List.map_cons, List.map_append]

theorem map_injective {f : α → β} (hf : Function.Injective f) : Function.Injective (map f) := by
  intro t t' h
  induction t generalizing t' with
  | empty =>
    cases t' with
    | empty => rfl
    | tree => cases h
  | tree a branches further ihb ihf =>
    cases t' with
    | empty => cases h
    | tree a' branches' further' =>
      injection h with ha hbranches hfurther
      rw [hf ha, ihb hbranches, ihf hfurther]

theorem shape_map (f : α → β) (t : Forest α) : (t.map f).shape = t.shape := map_map _ f t

end Forest

/-- What a node of a program's tree says, apart from its branches. Where something follows the
elements of a list, they stand below a node of their own. -/
inductive Form where
  | identifier (name : String)
  | integer (value : Int64)
  | float (bits : UInt32)
  | double (bits : UInt64)
  | char (value : Char)
  | boolean (value : Bool)
  | string (value : String)
  | self
  | binary (op : Operator)
  | assign (name : String)
  | assignMember (member : String)
  | call (receiver : Receiver) (name : String)
  | namespaceMember (space member : String)
  | create (space : Option String) (type : String)
  | member (name : String)
  | comment (text : String)
  | declare (type : VariableType) (name : String)
  | expr
  | ret
  | conditional
  | forLoop
  | forIn (name : String) (type : Option TypeName)
  | whileLoop
  | doWhile
  | switch
  | attempt (errorType binding : String)
  | clause
  | case
  | list
  | function (result : Option TypeName) (name : String) (parameters : List Parameter)
  | namespaceDecl (name : String)
  | classDecl (name : String) (base : Option String)
  | importDecl (module : String)
  deriving DecidableEq

/-- A node, which is accessed if it is the object of a member access or of a member assignment. -/
structure TreeNode where
  accessed : Bool
  form : Form
  deriving DecidableEq

def Expr.form : Expr → Form
  | .identifier name => .identifier name
  | .integer value => .integer value
  | .float bits => .float bits
  | .double bits => .double bits
  | .char value => .char value
  | .boolean value => .boolean value
  | .string value => .string value
  | .self => .self
  | .binary op _ _ => .binary op
  | .assign name _ => .assign name
  | .assignMember _ name _ => .assignMember name
  | .call receiver name _ => .call receiver name
  | .namespaceMember space name => .namespaceMember space name
  | .create space type _ => .create space type
  | .member _ name => .member name

def Stmt.form : Stmt → Form
  | .comment text => .comment text
  | .declare type name _ => .declare type name
  | .expr _ => .expr
  | .ret _ => .ret
  | .conditional _ => .conditional
  | .forLoop _ _ _ _ => .forLoop
  | .forIn name type _ _ => .forIn name type
  | .whileLoop _ _ => .whileLoop
  | .doWhile _ _ => .doWhile
  | .switch _ _ => .switch
  | .attempt _ errorType binding _ => .attempt errorType binding

def Function.form (f : Function) : Form := .function f.result f.name f.parameters

def Declaration.form : Declaration → Form
  | .function f => f.form
  | .namespaceDecl name _ => .namespaceDecl name
  | .classDecl c => .classDecl c.name c.base
  | .importDecl module => .importDecl module

mutual

def Expr.branches : Expr → Forest TreeNode
  | .binary _ left right => .tree ⟨false, left.form⟩ left.branches
    (.tree ⟨false, right.form⟩ right.branches .empty)
  | .assign _ value => .tree ⟨false, value.form⟩ value.branches .empty
  | .assignMember object _ value => .tree ⟨true, object.form⟩ object.branches
    (.tree ⟨false, value.form⟩ value.branches .empty)
  | .call _ _ arguments => exprsNodes arguments
  | .create _ _ arguments => exprsNodes arguments
  | .member object _ => .tree ⟨true, object.form⟩ object.branches .empty
  | .identifier _ => .empty
  | .integer _ => .empty
  | .float _ => .empty
  | .double _ => .empty
  | .char _ => .empty
  | .boolean _ => .empty
  | .string _ => .empty
  | .self => .empty
  | .namespaceMember _ _ => .empty

def exprsNodes : List Expr → Forest TreeNode
  | [] => .empty
  | e :: rest => .tree ⟨false, e.form⟩ e.branches (exprsNodes rest)

end

def Expr.before (e : Expr) (further : Forest TreeNode) : Forest TreeNode :=
  .tree ⟨false, e.form⟩ e.branches further

def listBefore (elements further : Forest TreeNode) : Forest TreeNode :=
  .tree ⟨false, .list⟩ elements further

mutual

def Stmt.branches : Stmt → Forest TreeNode
  | .comment _ => .empty
  | .declare _ _ value => exprsNodes value.toList
  | .expr e => e.before .empty
  | .ret value => exprsNodes value.toList
  | .conditional clause => .tree ⟨false, .clause⟩ clause.branches .empty
  | .forLoop initial condition increment body =>
    .tree ⟨false, initial.form⟩ initial.branches
      (condition.before (increment.before (blockNodes body)))
  | .forIn _ _ collection body => collection.before (blockNodes body)
  | .whileLoop condition body => condition.before (blockNodes body)
  | .doWhile body condition => listBefore (blockNodes body) (condition.before .empty)
  | .switch subject cases => subject.before (casesNodes cases)
  | .attempt body _ _ handler => listBefore (blockNodes body) (blockNodes handler)

def blockNodes : List Stmt → Forest TreeNode
  | [] => .empty
  | s :: rest => .tree ⟨false, s.form⟩ s.branches (blockNodes rest)

def Conditional.branches : Conditional → Forest TreeNode
  | .mk condition body elseIfs orElse =>
    condition.before (listBefore (blockNodes body)
      (listBefore (clausesNodes elseIfs)
        (match orElse with
        | some b => listBefore (blockNodes b) .empty
        | none => .empty)))

def clausesNodes : List Conditional → Forest TreeNode
  | [] => .empty
  | c :: rest => .tree ⟨false, .clause⟩ c.branches (clausesNodes rest)

def casesNodes : List Case → Forest TreeNode
  | [] => .empty
  | .mk value body :: rest =>
    .tree ⟨false, .case⟩ (value.before (blockNodes body)) (casesNodes rest)

end

def functionsNodes : List Function → Forest TreeNode
  | [] => .empty
  | f :: rest => .tree ⟨false, f.form⟩ (blockNodes f.body) (functionsNodes rest)

def ClassDecl.branches (c : ClassDecl) : Forest TreeNode :=
  listBefore (functionsNodes c.classMethods)
    (listBefore (functionsNodes c.instanceMethods) (functionsNodes c.initializer.toList))

mutual

/-- The nodes below that of a declaration, each with the class that it is within. -/
def Declaration.branches : Declaration → Forest (Option String × TreeNode)
  | .function f => (blockNodes f.body).map (Prod.mk none)
  | .namespaceDecl _ ds => declarationsNodes ds
  | .classDecl c => c.branches.map (Prod.mk (some c.name))
  | .importDecl _ => .empty

def declarationsNodes : List Declaration → Forest (Option String × TreeNode)
  | [] => .empty
  | d :: rest => .tree (none, ⟨false, d.form⟩) d.branches (declarationsNodes rest)

end

def Program.nodes (p : Program) : Forest (Option String × TreeNode) :=
  declarationsNodes p.declarations

mutual

theorem Expr.eq_of_branches : (e e' : Expr) → e.form = e'.form → e.branches = e'.branches → e = e'
  | .binary _ left right, e', hform, hbranches => by
    -- the form leaves no other constructor
    cases e' <;> cases hform
    injection hbranches with hl hleft hfurther
    injection hfurther with hr hright
    rw [left.eq_of_branches _ (congrArg TreeNode.form hl) hleft,
      right.eq_of_branches _ (congrArg TreeNode.form hr) hright]
  | .assign _ value, e', hform, hbranches => by
    cases e' <;> cases hform
    injection hbranches with hv hvalue
    rw [value.eq_of_branches _ (congrArg TreeNode.form hv) hvalue]
  | .assignMember object _ value, e', hform, hbranches => by
    cases e' <;> cases hform
    injection hbranches with ho hobject hfurther
    injection hfurther with hv hvalue
    rw [object.eq_of_branches _ (congrArg TreeNode.form ho) hobject,
      value.eq_of_branches _ (congrArg TreeNode.form hv) hvalue]
  | .call _ _ arguments, e', hform, hbranches
  | .create _ _ arguments, e', hform, hbranches => by
    cases e' <;> cases hform
    rw [exprs_eq_of_nodes arguments _ hbranches]
  | .member object _, e', hform, hbranches => by
    cases e' <;> cases hform
    injection hbranches with ho hobject
    rw [object.eq_of_branches _ (congrArg TreeNode.form ho) hobject]
  | .identifier _, e', hform, _ | .integer _, e', hform, _ | .float _, e', hform, _
  | .double _, e', hform, _ | .char _, e', hform, _ | .boolean _, e', hform, _
  | .string _, e', hform, _ | .self, e', hform, _ | .namespaceMember _ _, e', hform, _ => by
    cases e' <;> cases hform
    rfl

theorem exprs_eq_of_nodes : (es es' : List Expr) → exprsNodes es = exprsNodes es' → es = es'
  | [], [], _ => rfl
  | [], _ :: _, h | _ :: _, [], h => by cases h
  | e :: rest, e' :: rest', h => by
    injection h with he hbranches hrest
    rw [e.eq_of_branches e' (congrArg TreeNode.form he) hbranches,
      exprs_eq_of_nodes rest rest' hrest]

end

theorem eq_of_toList {α : Type} {o o' : Option α} (h : o.toList = o'.toList) : o = o' := by
  simpa using congrArg List.head? h

theorem Expr.eq_of_before {e e' : Expr} {t t' : Forest TreeNode}
    (h : e.before t = e'.before t') : e = e' ∧ t = t' := by
  injection h with hform hbranches hfurther
  exact ⟨e.eq_of_branches e' (congrArg TreeNode.form hform) hbranches, hfurther⟩

theorem eq_of_exprsNodes_toList {value value' : Option Expr}
    (h : exprsNodes value.toList = exprsNodes value'.toList) : value = value' :=
  eq_of_toList (exprs_eq_of_nodes _ _ h)

theorem eq_of_listBefore {t t' further further' : Forest TreeNode}
    (h : listBefore t further = listBefore t' further') : t = t' ∧ further = further' := by
  injection h with _ ht hfurther
  exact ⟨ht, hfurther⟩

mutual

theorem Stmt.eq_of_branches : (s s' : Stmt) → s.form = s'.form → s.branches = s'.branches → s = s'
  | .comment _, s', hform, _ => by
    cases s' <;> cases hform
    rfl
  | .declare _ _ value, s', hform, hbranches | .ret value, s', hform, hbranches => by
    cases s' <;> cases hform
    rw [eq_of_exprsNodes_toList hbranches]
  | .expr e, s', hform, hbranches => by
    cases s' <;> cases hform
    rw [(Expr.eq_of_before hbranches).1]
  | .conditional clause, s', hform, hbranches => by
    cases s' <;> cases hform
    injection hbranches with _ hclause
    rw [clause.eq_of_branches _ hclause]
  | .forLoop initial condition increment body, s', hform, hbranches => by
    cases s' <;> cases hform
    injection hbranches with hi hinitial hfurther
    obtain ⟨hcondition, hfurther⟩ := Expr.eq_of_before hfurther
    obtain ⟨hincrement, hbody⟩ := Expr.eq_of_before hfurther
    rw [initial.eq_of_branches _ (congrArg TreeNode.form hi) hinitial, hcondition, hincrement,
      block_eq_of_nodes body _ hbody]
  | .forIn _ _ collection body, s', hform, hbranches
  | .whileLoop condition body, s', hform, hbranches => by
    cases s' <;> cases hform
    obtain ⟨rfl, hbody⟩ := Expr.eq_of_before hbranches
    rw [block_eq_of_nodes body _ hbody]
  | .doWhile body condition, s', hform, hbranches => by
    cases s' <;> cases hform
    obtain ⟨hbody, hcondition⟩ := eq_of_listBefore hbranches
    rw [block_eq_of_nodes body _ hbody, (Expr.eq_of_before hcondition).1]
  | .switch subject cases, s', hform, hbranches => by
    cases s' <;> cases hform
    obtain ⟨rfl, hcases⟩ := Expr.eq_of_before hbranches
    rw [cases_eq_of_nodes cases _ hcases]
  | .attempt body _ _ handler, s', hform, hbranches => by
    cases s' <;> cases hform
    obtain ⟨hbody, hhandler⟩ := eq_of_listBefore hbranches
    rw [block_eq_of_nodes body _ hbody, block_eq_of_nodes handler _ hhandler]

theorem block_eq_of_nodes : (ss ss' : List Stmt) → blockNodes ss = blockNodes ss' → ss = ss'
  | [], [], _ => rfl
  | [], _ :: _, h | _ :: _, [], h => by cases h
  | s :: rest, s' :: rest', h => by
    injection h with hs hbranches hrest
    rw [s.eq_of_branches s' (congrArg TreeNode.form hs) hbranches,
      block_eq_of_nodes rest rest' hrest]

theorem Conditional.eq_of_branches : (c c' : Conditional) → c.branches = c'.branches → c = c'
  | .mk _ body elseIfs none, .mk _ body' elseIfs' none, h => by
    obtain ⟨rfl, hfurther⟩ := Expr.eq_of_before h
    obtain ⟨hbody, hfurther⟩ := eq_of_listBefore hfurther
    obtain ⟨hclauses, -⟩ := eq_of_listBefore hfurther
    rw [block_eq_of_nodes body body' hbody, clauses_eq_of_nodes elseIfs elseIfs' hclauses]
  | .mk _ body elseIfs (some b), .mk _ body' elseIfs' (some b'), h => by
    obtain ⟨rfl, hfurther⟩ := Expr.eq_of_before h
    obtain ⟨hbody, hfurther⟩ := eq_of_listBefore hfurther
    obtain ⟨hclauses, hlast⟩ := eq_of_listBefore hfurther
    rw [block_eq_of_nodes body body' hbody, clauses_eq_of_nodes elseIfs elseIfs' hclauses,
      block_eq_of_nodes b b' (eq_of_listBefore hlast).1]
  | .mk _ _ _ none, .mk _ _ _ (some _), h | .mk _ _ _ (some _), .mk _ _ _ none, h => by
    obtain ⟨-, hfurther⟩ := Expr.eq_of_before h
    obtain ⟨-, hfurther⟩ := eq_of_listBefore hfurther
    cases (eq_of_listBefore hfurther).2

theorem clauses_eq_of_nodes : (cs cs' : List Conditional) →
    clausesNodes cs = clausesNodes cs' → cs = cs'
  | [], [], _ => rfl
  | [], _ :: _, h | _ :: _, [], h => by cases h
  | c :: rest, c' :: rest', h => by
    injection h with _ hbranches hrest
    rw [c.eq_of_branches c' hbranches, clauses_eq_of_nodes rest rest' hrest]

theorem cases_eq_of_nodes : (cs cs' : List Case) → casesNodes cs = casesNodes cs' → cs = cs'
  | [], [], _ => rfl
  | [], .mk _ _ :: _, h | .mk _ _ :: _, [], h => by cases h
  | .mk _ body :: rest, .mk _ body' :: rest', h => by
    injection h with _ hbranches hrest
    obtain ⟨rfl, hbody⟩ := Expr.eq_of_before hbranches
    rw [block_eq_of_nodes body body' hbody, cases_eq_of_nodes rest rest' hrest]

end

theorem Function.eq_of_body {f f' : Function} (hform : f.form = f'.form)
    (hbody : f.body = f'.body) : f = f' := by
  cases f
  cases f'
  cases hform
  cases hbody
  rfl

theorem functions_eq_of_nodes {fs fs' : List Function}
    (h : functionsNodes fs = functionsNodes fs') : fs = fs' := by
  induction fs generalizing fs' with
  | nil =>
    cases fs' with
    | nil => rfl
    | cons => cases h
  | cons f fs ih =>
    cases fs' with
    | nil => cases h
    | cons f' fs' =>
      injection h with hf hbody hrest
      rw [Function.eq_of_body (congrArg TreeNode.form hf) (block_eq_of_nodes _ _ hbody), ih hrest]

theorem ClassDecl.eq_of_branches {c c' : ClassDecl} (hname : c.name = c'.name)
    (hbase : c.base = c'.base) (hbranches : c.branches = c'.branches) : c = c' := by
  obtain ⟨name, base, classMethods, instanceMethods, initializer⟩ := c
  obtain ⟨_, _, classMethods', instanceMethods', initializer'⟩ := c'
  cases hname
  cases hbase
  obtain ⟨hclass, hfurther⟩ := eq_of_listBefore hbranches
  obtain ⟨hinstance, hinit⟩ := eq_of_listBefore hfurther
  cases functions_eq_of_nodes hclass
  cases functions_eq_of_nodes hinstance
  cases eq_of_toList (functions_eq_of_nodes hinit)
  rfl

mutual

theorem Declaration.eq_of_branches : (d d' : Declaration) → d.form = d'.form →
    d.branches = d'.branches → d = d'
  | .function f, d', hform, hbranches => by
    cases d' with
    | function f' =>
      have hbody := Forest.map_injective (Prod.mk_right_injective _) hbranches
      rw [Function.eq_of_body hform (block_eq_of_nodes _ _ hbody)]
    | namespaceDecl _ _ | classDecl _ | importDecl _ => cases hform
  | .namespaceDecl _ ds, d', hform, hbranches => by
    cases d' <;> cases hform
    rw [declarations_eq_of_nodes ds _ hbranches]
  | .classDecl c, d', hform, hbranches => by
    cases d' with
    | classDecl c' =>
      injection hform with hname hbase
      rw [Declaration.branches, Declaration.branches, ← hname] at hbranches
      have hclass := Forest.map_injective (Prod.mk_right_injective _) hbranches
      rw [c.eq_of_branches hname hbase hclass]
    | function _ | namespaceDecl _ _ | importDecl _ => cases hform
  | .importDecl _, d', hform, _ => by
    cases d' <;> cases hform
    rfl

theorem declarations_eq_of_nodes : (ds ds' : List Declaration) →
    declarationsNodes ds = declarationsNodes ds' → ds = ds'
  | [], [], _ => rfl
  | [], _ :: _, h | _ :: _, [], h => by cases h
  | d :: rest, d' :: rest', h => by
    injection h with hd hbranches hrest
    rw [d.eq_of_branches d' (congrArg (fun n => n.2.form) hd) hbranches,
      declarations_eq_of_nodes rest rest' hrest]

end

/-- No part of a program is without a node. -/
theorem Program.nodes_injective : Function.Injective Program.nodes := by
  rintro ⟨ds⟩ ⟨ds'⟩ h
  rw [declarations_eq_of_nodes ds ds' h]

end VnScript
