import VnScript.Tree.Bound

namespace VnScript

mutual

/-- The declarations in a declaration that are no namespaces, at any depth and in source order. -/
def Declaration.members : Declaration → List Declaration
  | .function f => [.function f]
  | .namespaceDecl _ declarations => membersOf declarations
  | .classDecl c => [.classDecl c]
  | .importDecl module => [.importDecl module]

def membersOf : List Declaration → List Declaration
  | [] => []
  | d :: rest => d.members ++ membersOf rest

end

namespace Declaration

def inner : Declaration → List Declaration
  | .namespaceDecl _ declarations => membersOf declarations
  | _ => []

def function? : Declaration → Option Function
  | .function f => some f
  | _ => none

def module? : Declaration → Option String
  | .importDecl module => some module
  | _ => none

end Declaration

theorem membersOf_append (ds ds' : List Declaration) :
    membersOf (ds ++ ds') = membersOf ds ++ membersOf ds' := by
  induction ds with
  | nil => rfl
  | cons d rest ih => rw [List.cons_append, membersOf, membersOf, ih, List.append_assoc]

section Members

variable {α : Type} {pick : Declaration → Option α}

theorem filterMap_members (hpick : ∀ name ds, pick (.namespaceDecl name ds) = none)
    (d : Declaration) :
    d.members.filterMap pick = [d].filterMap pick ++ d.inner.filterMap pick := by
  cases d with
  | namespaceDecl name ds =>
    rw [List.filterMap_cons_none (hpick name ds)]
    rfl
  | function _ | classDecl _ | importDecl _ => exact (List.append_nil _).symm

theorem filterMap_membersOf (hpick : ∀ name ds, pick (.namespaceDecl name ds) = none)
    (ds : List Declaration) : ((membersOf ds).filterMap pick).Perm
      (ds.filterMap pick ++ (ds.flatMap Declaration.inner).filterMap pick) := by
  induction ds with
  | nil => exact .refl []
  | cons d rest ih =>
    have hd : [d].filterMap pick ++ rest.filterMap pick = (d :: rest).filterMap pick :=
      List.filterMap_append.symm
    rw [membersOf, List.filterMap_append, filterMap_members hpick, List.flatMap_cons,
      List.filterMap_append, ← hd, List.append_assoc, List.append_assoc]
    exact ((ih.append_left _).trans (List.perm_append_comm_assoc _ _ _)).append_left _

end Members

namespace Program

variable (p : Program)

/-- The functions outside of classes, at any depth. -/
def functions : List Function := (membersOf p.declarations).filterMap Declaration.function?

def outerFunctions : List Function := p.declarations.filterMap Declaration.function?

def innerFunctions : List Function :=
  (p.declarations.flatMap Declaration.inner).filterMap Declaration.function?

def allImports : List String := (membersOf p.declarations).filterMap Declaration.module?

def innerImports : List String :=
  (p.declarations.flatMap Declaration.inner).filterMap Declaration.module?

end Program

section Bound

mutual

theorem Declaration.functions_bind : (d : Declaration) →
    d.bind.members.filterMap Declaration.function? = d.members.filterMap Declaration.function?
  | .function _ | .classDecl _ | .importDecl _ => rfl
  | .namespaceDecl _ ds => functionsOf_bind ds

theorem functionsOf_bind : (ds : List Declaration) →
    (membersOf (bindDeclarations ds)).filterMap Declaration.function? =
      (membersOf ds).filterMap Declaration.function?
  | [] => rfl
  | d :: rest => by
    rw [bindDeclarations, membersOf, membersOf, List.filterMap_append, List.filterMap_append,
      d.functions_bind, functionsOf_bind rest]

end

theorem Program.functions_bind (p : Program) : p.bind.functions = p.functions :=
  functionsOf_bind p.declarations

end Bound

end VnScript
