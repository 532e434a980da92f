import VnScript.Proofs.Tree.WellFormed
import VnScript.Tree.Bound

namespace VnScript

def Stmt.isComment : Stmt → Bool
  | .comment _ => true
  | _ => false

mutual

/-- The texts of the comments in a statement, at any depth, in source order. -/
def Stmt.comments : Stmt → List String
  | .comment text => [text]
  | .conditional clause => clause.comments
  | .forLoop initial _ _ body => initial.comments ++ blockComments body
  | .forIn _ _ _ body => blockComments body
  | .whileLoop _ body => blockComments body
  | .doWhile body _ => blockComments body
  | .switch _ cases => casesComments cases
  | .attempt body _ _ handler => blockComments body ++ blockComments handler
  | .declare _ _ _ => []
  | .expr _ => []
  | .ret _ => []

def blockComments : List Stmt → List String
  | [] => []
  | s :: rest => s.comments ++ blockComments rest

def Conditional.comments : Conditional → List String
  | .mk _ body elseIfs orElse =>
    blockComments body ++ clausesComments elseIfs ++
      match orElse with
      | some b => blockComments b
      | none => []

def clausesComments : List Conditional → List String
  | [] => []
  | c :: rest => c.comments ++ clausesComments rest

def casesComments : List Case → List String
  | [] => []
  | .mk _ body :: rest => blockComments body ++ casesComments rest

end

mutual

/-- Delete the comments in a statement, at any depth. -/
def Stmt.withoutComments : Stmt → Stmt
  | .conditional clause => .conditional clause.withoutComments
  | .forLoop initial condition increment body =>
    .forLoop initial.withoutComments condition increment (blockWithoutComments body)
  | .forIn name type collection body => .forIn name type collection (blockWithoutComments body)
  | .whileLoop condition body => .whileLoop condition (blockWithoutComments body)
  | .doWhile body condition => .doWhile (blockWithoutComments body) condition
  | .switch subject cases => .switch subject (casesWithoutComments cases)
  | .attempt body errorType binding handler =>
    .attempt (blockWithoutComments body) errorType binding (blockWithoutComments handler)
  | .comment text => .comment text
  | .declare type name value => .declare type name value
  | .expr e => .expr e
  | .ret value => .ret value

def blockWithoutComments : List Stmt → List Stmt
  | [] => []
  | s :: rest =>
    if s.isComment then blockWithoutComments rest
    else s.withoutComments :: blockWithoutComments rest

def Conditional.withoutComments : Conditional → Conditional
  | .mk condition body elseIfs orElse =>
    .mk condition (blockWithoutComments body) (clausesWithoutComments elseIfs)
      (match orElse with
      | some b => some (blockWithoutComments b)
      | none => none)

def clausesWithoutComments : List Conditional → List Conditional
  | [] => []
  | c :: rest => c.withoutComments :: clausesWithoutComments rest

def casesWithoutComments : List Case → List Case
  | [] => []
  | .mk value body :: rest => .mk value (blockWithoutComments body) :: casesWithoutComments rest

end

namespace Function

def comments (f : Function) : List String := blockComments f.body

def withoutComments (f : Function) : Function := { f with body := blockWithoutComments f.body }

end Function

namespace ClassDecl

/-- The comments in a class, those of the initializer first. -/
def comments (c : ClassDecl) : List String :=
  c.initializer.toList.flatMap Function.comments ++ c.classMethods.flatMap Function.comments ++
    c.instanceMethods.flatMap Function.comments

def withoutComments (c : ClassDecl) : ClassDecl where
  name := c.name
  base := c.base
  classMethods := c.classMethods.map Function.withoutComments
  instanceMethods := c.instanceMethods.map Function.withoutComments
  initializer := c.initializer.map Function.withoutComments

end ClassDecl

mutual

def Declaration.comments : Declaration → List String
  | .function f => f.comments
  | .namespaceDecl _ declarations => declarationsComments declarations
  | .classDecl c => c.comments
  | .importDecl _ => []

def declarationsComments : List Declaration → List String
  | [] => []
  | d :: rest => d.comments ++ declarationsComments rest

end

mutual

def Declaration.withoutComments : Declaration → Declaration
  | .function f => .function f.withoutComments
  | .namespaceDecl name declarations =>
    .namespaceDecl name (declarationsWithoutComments declarations)
  | .classDecl c => .classDecl c.withoutComments
  | .importDecl module => .importDecl module

def declarationsWithoutComments : List Declaration → List Declaration
  | [] => []
  | d :: rest => d.withoutComments :: declarationsWithoutComments rest

end

namespace Program

/-- The texts of all comment statements of a program. -/
def comments (p : Program) : List String := declarationsComments p.declarations

def withoutComments (p : Program) : Program := ⟨declarationsWithoutComments p.declarations⟩

end Program

theorem Stmt.eq_comment_of {s : Stmt} (h : s.isComment = true) : ∃ text, s = .comment text := by
  cases s with
  | comment text => exact ⟨text, rfl⟩
  | _ => cases h

theorem casesWithoutComments_isEmpty (cs : List Case) :
    (casesWithoutComments cs).isEmpty = cs.isEmpty := by
  cases cs with
  | nil => rfl
  | cons c rest =>
    cases c
    rfl

section Initial

variable {s : Stmt}

theorem Stmt.IsInitial.withoutComments (h : s.IsInitial) : s.withoutComments = s := by
  cases s with
  | declare _ _ _ | expr _ => rfl
  | _ => exact h.elim

theorem Stmt.IsInitial.comments (h : s.IsInitial) : s.comments = [] := by
  cases s with
  | declare _ _ _ | expr _ => rfl
  | _ => exact h.elim

end Initial

section Bound

variable {type : String}

theorem Stmt.isComment_bind (s : Stmt) : (s.bind type).isComment = s.isComment := by
  cases s <;> rfl

mutual

theorem Stmt.comments_bind : (s : Stmt) → (s.bind type).comments = s.comments
  | .conditional clause => clause.comments_bind
  | .forLoop initial _ _ body =>
    congrArg₂ (· ++ ·) initial.comments_bind (blockComments_bind body)
  | .forIn _ _ _ body | .whileLoop _ body | .doWhile body _ => blockComments_bind body
  | .switch _ cases => casesComments_bind cases
  | .attempt body _ _ handler =>
    congrArg₂ (· ++ ·) (blockComments_bind body) (blockComments_bind handler)
  | .comment _ | .declare _ _ _ | .expr _ | .ret _ => rfl

theorem blockComments_bind : (ss : List Stmt) → blockComments (bindBlock type ss) = blockComments ss
  | [] => rfl
  | s :: rest => congrArg₂ (· ++ ·) s.comments_bind (blockComments_bind rest)

theorem Conditional.comments_bind : (c : Conditional) → (c.bind type).comments = c.comments
  | .mk _ body elseIfs none =>
    congrArg (· ++ []) (congrArg₂ (· ++ ·) (blockComments_bind body) (clausesComments_bind elseIfs))
  | .mk _ body elseIfs (some b) =>
    congrArg₂ (· ++ ·)
      (congrArg₂ (· ++ ·) (blockComments_bind body) (clausesComments_bind elseIfs))
      (blockComments_bind b)

theorem clausesComments_bind : (cs : List Conditional) →
    clausesComments (bindClauses type cs) = clausesComments cs
  | [] => rfl
  | c :: rest => congrArg₂ (· ++ ·) c.comments_bind (clausesComments_bind rest)

theorem casesComments_bind : (cs : List Case) → casesComments (bindCases type cs) = casesComments cs
  | [] => rfl
  | .mk _ body :: rest => congrArg₂ (· ++ ·) (blockComments_bind body) (casesComments_bind rest)

end

mutual

theorem Stmt.withoutComments_bind : (s : Stmt) →
    s.withoutComments.bind type = (s.bind type).withoutComments
  | .conditional clause => congrArg Stmt.conditional clause.withoutComments_bind
  | .forLoop initial condition increment body => by
    simp only [Stmt.withoutComments, Stmt.bind, initial.withoutComments_bind,
      blockWithoutComments_bind body]
  | .forIn name t collection body => by
    simp only [Stmt.withoutComments, Stmt.bind, blockWithoutComments_bind body]
  | .whileLoop condition body => by
    simp only [Stmt.withoutComments, Stmt.bind, blockWithoutComments_bind body]
  | .doWhile body condition => by
    simp only [Stmt.withoutComments, Stmt.bind, blockWithoutComments_bind body]
  | .switch subject cases => by
    simp only [Stmt.withoutComments, Stmt.bind, casesWithoutComments_bind cases]
  | .attempt body errorType binding handler => by
    simp only [Stmt.withoutComments, Stmt.bind, blockWithoutComments_bind body,
      blockWithoutComments_bind handler]
  | .comment _ | .declare _ _ _ | .expr _ | .ret _ => rfl

theorem blockWithoutComments_bind : (ss : List Stmt) →
    bindBlock type (blockWithoutComments ss) = blockWithoutComments (bindBlock type ss)
  | [] => rfl
  | s :: rest => by
    have hrest := blockWithoutComments_bind rest
    by_cases hs : s.isComment = true
    · simp only [blockWithoutComments, bindBlock, Stmt.isComment_bind, hs, if_true, hrest]
    · simp only [blockWithoutComments, bindBlock, Stmt.isComment_bind, hs, if_false, hrest,
        s.withoutComments_bind, Bool.false_eq_true]

theorem Conditional.withoutComments_bind : (c : Conditional) →
    c.withoutComments.bind type = (c.bind type).withoutComments
  | .mk condition body elseIfs none => by
    simp only [Conditional.withoutComments, Conditional.bind, blockWithoutComments_bind body,
      clausesWithoutComments_bind elseIfs]
  | .mk condition body elseIfs (some b) => by
    simp only [Conditional.withoutComments, Conditional.bind, blockWithoutComments_bind body,
      clausesWithoutComments_bind elseIfs, blockWithoutComments_bind b]

theorem clausesWithoutComments_bind : (cs : List Conditional) →
    bindClauses type (clausesWithoutComments cs) = clausesWithoutComments (bindClauses type cs)
  | [] => rfl
  | c :: rest =>
    congrArg₂ List.cons c.withoutComments_bind (clausesWithoutComments_bind rest)

theorem casesWithoutComments_bind : (cs : List Case) →
    bindCases type (casesWithoutComments cs) = casesWithoutComments (bindCases type cs)
  | [] => rfl
  | .mk value body :: rest => by
    simp only [casesWithoutComments, bindCases, blockWithoutComments_bind body,
      casesWithoutComments_bind rest]

end

theorem Function.comments_bind (f : Function) : (f.bind type).comments = f.comments :=
  blockComments_bind f.body

theorem Function.withoutComments_bind (f : Function) :
    f.withoutComments.bind type = (f.bind type).withoutComments := by
  unfold Function.bind Function.withoutComments
  rw [blockWithoutComments_bind]

end Bound

theorem ClassDecl.comments_bind (c : ClassDecl) : c.bind.comments = c.comments := by
  simp only [ClassDecl.comments, ClassDecl.bind, Option.toList_map, List.flatMap_map,
    Function.comments_bind]

theorem ClassDecl.withoutComments_bind (c : ClassDecl) :
    c.withoutComments.bind = c.bind.withoutComments := by
  simp only [ClassDecl.withoutComments, ClassDecl.bind, List.map_map, Option.map_map,
    Function.comp_def, Function.withoutComments_bind]

end VnScript
