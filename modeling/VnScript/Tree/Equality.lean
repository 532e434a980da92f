import VnScript.Tree.Basic

namespace VnScript

-- Trees that hold lists of trees have no derived equality. Trees of different constructors
-- differ at once; what is left compares part by part.

def decEqCons {α : Type} {a b : α} {as bs : List α} (head : Decidable (a = b))
    (tail : Decidable (as = bs)) : Decidable (a :: as = b :: bs) :=
  decidable_of_iff (a = b ∧ as = bs) (by simp)

mutual

def Expr.decEq (a b : Expr) : Decidable (a = b) := by
  cases a <;> cases b <;> try exact isFalse Expr.noConfusion
  case self.self => exact isTrue rfl
  case identifier.identifier x y | string.string x y | integer.integer x y | float.float x y |
      double.double x y | char.char x y | boolean.boolean x y =>
    exact decidable_of_iff (x = y) (by simp)
  case binary.binary op l r op' l' r' =>
    have := l.decEq l'
    have := r.decEq r'
    exact decidable_of_iff (op = op' ∧ l = l' ∧ r = r') (by simp)
  case assign.assign n e n' e' =>
    have := e.decEq e'
    exact decidable_of_iff (n = n' ∧ e = e') (by simp)
  case assignMember.assignMember o n e o' n' e' =>
    have := o.decEq o'
    have := e.decEq e'
    exact decidable_of_iff (o = o' ∧ n = n' ∧ e = e') (by simp)
  case call.call r n es r' n' es' =>
    have := decEqExprs es es'
    exact decidable_of_iff (r = r' ∧ n = n' ∧ es = es') (by simp)
  case namespaceMember.namespaceMember s n s' n' =>
    exact decidable_of_iff (s = s' ∧ n = n') (by simp)
  case create.create s n es s' n' es' =>
    have := decEqExprs es es'
    exact decidable_of_iff (s = s' ∧ n = n' ∧ es = es') (by simp)
  case member.member o n o' n' =>
    have := o.decEq o'
    exact decidable_of_iff (o = o' ∧ n = n') (by simp)

def decEqExprs : (es es' : List Expr) → Decidable (es = es')
  | [], [] => isTrue rfl
  | [], _ :: _ | _ :: _, [] => isFalse nofun
  | e :: es, e' :: es' => decEqCons (e.decEq e') (decEqExprs es es')

end

instance : DecidableEq Expr := Expr.decEq

mutual

def Stmt.decEq (a b : Stmt) : Decidable (a = b) := by
  cases a <;> cases b <;> try exact isFalse Stmt.noConfusion
  case comment.comment x y | expr.expr x y | ret.ret x y =>
    exact decidable_of_iff (x = y) (by simp)
  case declare.declare t n e t' n' e' =>
    exact decidable_of_iff (t = t' ∧ n = n' ∧ e = e') (by simp)
  case conditional.conditional c c' =>
    have := c.decEq c'
    exact decidable_of_iff (c = c') (by simp)
  case forLoop.forLoop s c i b s' c' i' b' =>
    have := s.decEq s'
    have := decEqStmts b b'
    exact decidable_of_iff (s = s' ∧ c = c' ∧ i = i' ∧ b = b') (by simp)
  case forIn.forIn n t c b n' t' c' b' =>
    have := decEqStmts b b'
    exact decidable_of_iff (n = n' ∧ t = t' ∧ c = c' ∧ b = b') (by simp)
  case whileLoop.whileLoop c b c' b' =>
    have := decEqStmts b b'
    exact decidable_of_iff (c = c' ∧ b = b') (by simp)
  case doWhile.doWhile b c b' c' =>
    have := decEqStmts b b'
    exact decidable_of_iff (b = b' ∧ c = c') (by simp)
  case switch.switch e cs e' cs' =>
    have := decEqCases cs cs'
    exact decidable_of_iff (e = e' ∧ cs = cs') (by simp)
  case attempt.attempt b t n h b' t' n' h' =>
    have := decEqStmts b b'
    have := decEqStmts h h'
    exact decidable_of_iff (b = b' ∧ t = t' ∧ n = n' ∧ h = h') (by simp)

def decEqStmts : (b b' : List Stmt) → Decidable (b = b')
  | [], [] => isTrue rfl
  | [], _ :: _ | _ :: _, [] => isFalse nofun
  | s :: b, s' :: b' => decEqCons (s.decEq s') (decEqStmts b b')

def Conditional.decEq : (c c' : Conditional) → Decidable (c = c')
  | .mk e b cs none, .mk e' b' cs' none =>
    have := decEqStmts b b'
    have := decEqConditionals cs cs'
    decidable_of_iff (e = e' ∧ b = b' ∧ cs = cs') (by simp)
  | .mk e b cs (some o), .mk e' b' cs' (some o') =>
    have := decEqStmts b b'
    have := decEqConditionals cs cs'
    have := decEqStmts o o'
    decidable_of_iff (e = e' ∧ b = b' ∧ cs = cs' ∧ o = o') (by simp)
  | .mk _ _ _ none, .mk _ _ _ (some _) | .mk _ _ _ (some _), .mk _ _ _ none => isFalse nofun

def decEqConditionals : (cs cs' : List Conditional) → Decidable (cs = cs')
  | [], [] => isTrue rfl
  | [], _ :: _ | _ :: _, [] => isFalse nofun
  | c :: cs, c' :: cs' => decEqCons (c.decEq c') (decEqConditionals cs cs')

def Case.decEq : (c c' : Case) → Decidable (c = c')
  | .mk e b, .mk e' b' =>
    have := decEqStmts b b'
    decidable_of_iff (e = e' ∧ b = b') (by simp)

def decEqCases : (cs cs' : List Case) → Decidable (cs = cs')
  | [], [] => isTrue rfl
  | [], _ :: _ | _ :: _, [] => isFalse nofun
  | c :: cs, c' :: cs' => decEqCons (c.decEq c') (decEqCases cs cs')

end

instance : DecidableEq Stmt := Stmt.decEq

deriving instance DecidableEq for Function, ClassDecl

mutual

def Declaration.decEq (a b : Declaration) : Decidable (a = b) := by
  cases a <;> cases b <;> try exact isFalse Declaration.noConfusion
  case function.function x y | classDecl.classDecl x y | importDecl.importDecl x y =>
    exact decidable_of_iff (x = y) (by simp)
  case namespaceDecl.namespaceDecl n ds n' ds' =>
    have := decEqDeclarations ds ds'
    exact decidable_of_iff (n = n' ∧ ds = ds') (by simp)

def decEqDeclarations : (ds ds' : List Declaration) → Decidable (ds = ds')
  | [], [] => isTrue rfl
  | [], _ :: _ | _ :: _, [] => isFalse nofun
  | d :: ds, d' :: ds' => decEqCons (d.decEq d') (decEqDeclarations ds ds')

end

instance : DecidableEq Declaration := Declaration.decEq

deriving instance DecidableEq for Program

end VnScript
