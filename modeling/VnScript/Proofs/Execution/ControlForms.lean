import VnScript.Proofs.Execution.Adequacy

namespace VnScript

open Machine Machine.Config

/-- A condition with clauses as conditions within last bodies. -/
def Conditional.nested (condition : Expr) (body : List Stmt) (orElse : Option (List Stmt)) :
    List Conditional → Conditional
  | [] => .mk condition body [] orElse
  | .mk c b _ _ :: rest => .mk condition body [] (some [.conditional (nested c b orElse rest)])

/-- From every state both blocks end in the same way or neither ends: within any number of rounds
that their loops are given, and step by step. -/
structure BehavesAs (σ : Type) [Console σ] (ss ss' : List Stmt) : Prop where
  exec : ∀ limit, (execBlock limit ss : Eval σ Flow) = execBlock limit ss'
  ends : ∀ (s : RunState σ) (o : Outcome σ Flow),
    Ends ⟨.block ss, [], s⟩ o ↔ Ends ⟨.block ss', [], s⟩ o

variable {σ : Type} [Console σ] {limit : Nat}

section Blocks

/-- A block that ends step by step does so within some number of rounds, and so does any block that
executes as it does. -/
theorem ends_of_exec {ss ss' : List Stmt} {s : RunState σ} {o : Outcome σ Flow}
    (h : ∀ limit, (execBlock limit ss : Eval σ Flow) = execBlock limit ss')
    (ho : Ends ⟨.block ss, [], s⟩ o) : Ends ⟨.block ss', [], s⟩ o := by
  obtain ⟨n, hn⟩ := ho.exists_limit
  have hrun : execBlock n ss s = o := hn n (Nat.le_refl n) _ (execBlock_realized [] s ss)
  have hrealized : Realizes n .flow [] ⟨.block ss', [], s⟩ (execBlock n ss' s) :=
    execBlock_realized [] s ss'
  rw [← h, hrun] at hrealized
  exact hrealized.ends ho.finished

theorem behavesAs_of_exec {ss ss' : List Stmt}
    (h : ∀ limit, (execBlock limit ss : Eval σ Flow) = execBlock limit ss') :
    BehavesAs σ ss ss' :=
  ⟨h, fun _ _ => ⟨ends_of_exec h, ends_of_exec fun limit => (h limit).symm⟩⟩

theorem execBlock_single (s : Stmt) : (execBlock limit [s] : Eval σ Flow) = s.exec limit :=
  Eval.andThen_next _

end Blocks

section Loops

omit [Console σ] in
theorem andThen_of_next {α : Type} {x : Eval σ Flow} {y : Eval σ α}
    (h : x = do let _ ← y; return .next) (second : Eval σ Flow) :
    Eval.andThen x second = x >>= fun _ => second := by
  subst h
  simp only [Eval.andThen, bind_assoc, pure_bind]

theorem forLoop_exec {α : Type} {initial : Stmt} {y : Eval σ α}
    (h : initial.exec limit = do let _ ← y; return .next) (condition increment : Expr)
    (body : List Stmt) :
    (execBlock limit [.forLoop initial condition increment body] : Eval σ Flow) =
      execBlock limit [initial, .whileLoop condition (body ++ [.expr increment])] := by
  have hround : (execBlock limit (body ++ [.expr increment]) : Eval σ Flow) =
      Eval.andThen (execBlock limit body) do let _ ← increment.eval; return .next := by
    rw [execBlock_append, execBlock_single]
    rfl
  rw [execBlock_single, execBlock, execBlock_single, andThen_of_next h, Stmt.exec, Stmt.exec, hround]

theorem declare_exec (limit : Nat) (type : VariableType) (name : String) (value : Option Expr) :
    ∃ y : Eval σ Unit,
      (Stmt.declare type name value).exec limit = do let _ ← y; return .next := by
  cases value with
  | none => exact ⟨Eval.assign name type.initialValue, rfl⟩
  | some e => exact ⟨do Eval.assign name (← e.eval), (bind_assoc _ _ _).symm⟩

theorem doWhile_exec (body : List Stmt) (condition : Expr) :
    (execBlock limit [.doWhile body condition] : Eval σ Flow) =
      execBlock limit (body ++ [.whileLoop condition body]) := by
  rw [execBlock_single, execBlock_append, execBlock_single, Stmt.exec, Stmt.exec,
    Eval.loopBehind_eq]

end Loops

section Conditions

theorem conditional_exec (condition : Expr) (body : List Stmt) (c : Expr)
    (b : List Stmt) (es : List Conditional) (e : Option (List Stmt)) (rest : List Conditional)
    (orElse : Option (List Stmt)) :
    ((Conditional.mk condition body (.mk c b es e :: rest) orElse).exec limit : Eval σ Flow) =
      (Conditional.mk condition body []
        (some [.conditional (.mk c b rest orElse)])).exec limit := by
  cases orElse <;> simp only [Conditional.exec, execClauses, execBlock_single, Stmt.exec]

theorem nested_exec (condition : Expr) (body : List Stmt) (orElse : Option (List Stmt))
    (clauses : List Conditional) :
    ((Conditional.mk condition body clauses orElse).exec limit : Eval σ Flow) =
      (Conditional.nested condition body orElse clauses).exec limit := by
  induction clauses generalizing condition body with
  | nil => rfl
  | cons clause rest ih =>
    obtain ⟨c, b, es, e⟩ := clause
    have hinner : (Stmt.conditional (.mk c b rest orElse)).exec limit =
        ((Stmt.conditional (.nested c b orElse rest)).exec limit : Eval σ Flow) := ih c b
    rw [conditional_exec, Conditional.nested, Conditional.exec, Conditional.exec]
    simp only [execClauses, execBlock_single, hinner]

end Conditions

/-- Loops with a head of three parts, loops that test behind their body and conditions with further
clauses behave as what they stand for: the loop that tests before its body, and conditions within
last bodies, one clause at a time or all of them. -/
theorem derived_forms :
    (∀ type name value condition increment body,
      BehavesAs σ [.forLoop (.declare type name value) condition increment body]
        [.declare type name value, .whileLoop condition (body ++ [.expr increment])]) ∧
      (∀ e condition increment body,
        BehavesAs σ [.forLoop (.expr e) condition increment body]
          [.expr e, .whileLoop condition (body ++ [.expr increment])]) ∧
      (∀ body condition,
        BehavesAs σ [.doWhile body condition] (body ++ [.whileLoop condition body])) ∧
      (∀ condition body c b es e rest orElse,
        BehavesAs σ [.conditional (.mk condition body (.mk c b es e :: rest) orElse)]
          [.conditional (.mk condition body [] (some [.conditional (.mk c b rest orElse)]))]) ∧
      ∀ condition body clauses orElse,
        BehavesAs σ [.conditional (.mk condition body clauses orElse)]
          [.conditional (.nested condition body orElse clauses)] := by
  refine ⟨fun type name value condition increment body => behavesAs_of_exec fun limit => ?_,
    fun e condition increment body => behavesAs_of_exec fun limit => ?_,
    fun body condition => behavesAs_of_exec fun limit => doWhile_exec body condition,
    fun condition body c b es e rest orElse => behavesAs_of_exec fun limit => ?_,
    fun condition body clauses orElse => behavesAs_of_exec fun limit => ?_⟩
  · obtain ⟨y, hy⟩ := declare_exec (σ := σ) limit type name value
    exact forLoop_exec hy condition increment body
  · have he : (Stmt.expr e).exec limit = (do let _ ← e.eval; return .next : Eval σ Flow) := rfl
    exact forLoop_exec he condition increment body
  · rw [execBlock_single, execBlock_single]
    exact conditional_exec condition body c b es e rest orElse
  · rw [execBlock_single, execBlock_single]
    exact nested_exec condition body orElse clauses

end VnScript
