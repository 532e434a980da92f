import VnScript.Execution.Run
import VnScript.Proofs.Tree.Assigned

namespace VnScript

/-- The state at the end, however a computation ends. -/
def Outcome.state? {σ α : Type} : Outcome σ α → Option (RunState σ)
  | .done _ s => some s
  | .failed _ s => some s
  | .unfinished => none

namespace Eval

variable {σ α β γ : Type}

theorem bind_done {x : Eval σ α} {f : α → Eval σ β} {s s' : RunState σ} {a : α}
    (h : x s = .done a s') : (x >>= f) s = f a s' := by
  change Eval.bind x f s = _
  simp only [Eval.bind, h]

theorem bind_failed {x : Eval σ α} {f : α → Eval σ β} {s s' : RunState σ} {e : RuntimeError}
    (h : x s = .failed e s') : (x >>= f) s = .failed e s' := by
  change Eval.bind x f s = _
  simp only [Eval.bind, h]

theorem bind_unfinished {x : Eval σ α} {f : α → Eval σ β} {s : RunState σ}
    (h : x s = .unfinished) : (x >>= f) s = .unfinished := by
  change Eval.bind x f s = _
  simp only [Eval.bind, h]

theorem onConsole_ok {call : σ → Except String α × σ} {s : RunState σ} {a : α} {c : σ}
    (h : call s.console = (.ok a, c)) : onConsole call s = .done a { s with console := c } := by
  simp only [onConsole, h]

theorem onConsole_error {call : σ → Except String α × σ} {s : RunState σ} {reason : String} {c : σ}
    (h : call s.console = (.error reason, c)) :
    onConsole call s = .failed (.console reason) { s with console := c } := by
  simp only [onConsole, h]

theorem id_map_eq (x : Eval σ α) : id <$> x = x := by
  funext s
  change Eval.bind x (fun a => pure (id a)) s = x s
  unfold Eval.bind
  split <;> next h => exact h.symm

theorem bind_assoc_eq (x : Eval σ α) (f : α → Eval σ β) (g : β → Eval σ γ) :
    x >>= f >>= g = x >>= fun a => f a >>= g := by
  funext s
  cases h : x s with
  | done a s' =>
    rw [bind_done h]
    change Eval.bind (x >>= f) g s = Eval.bind (f a) g s'
    simp only [Eval.bind, bind_done h]
  | failed e s' => rw [bind_failed h, bind_failed (bind_failed h)]
  | unfinished => rw [bind_unfinished h, bind_unfinished (bind_unfinished h)]

instance : LawfulMonad (Eval σ) :=
  LawfulMonad.mk' (Eval σ) id_map_eq (fun _ _ => rfl) bind_assoc_eq

theorem andThen_apply (first second : Eval σ Flow) (s : RunState σ) :
    andThen first second s =
      match first s with
      | .done .next s' => second s'
      | outcome => outcome := by
  unfold andThen
  cases h : first s with
  | done flow t =>
    rw [bind_done h]
    cases flow <;> rfl
  | failed e t => rw [bind_failed h]
  | unfinished => rw [bind_unfinished h]

theorem andThen_assoc (first second third : Eval σ Flow) :
    andThen (andThen first second) third = andThen first (andThen second third) := by
  unfold andThen
  rw [bind_assoc]
  congr 1
  funext flow
  cases flow with
  | next => rfl
  | returned v => rfl

theorem andThen_next (x : Eval σ Flow) : andThen x (pure .next) = x := by
  funext s
  rw [andThen_apply]
  split
  · next h => exact h.symm
  · rfl

/-- A loop that tests behind its body is the body and then the loop that tests before it. -/
theorem loopBehind_eq (body : Eval σ Flow) (test : Eval σ Bool) (limit : Nat) :
    loopBehind body test limit = andThen body (loop test body limit) := by
  induction limit with
  | zero =>
    funext s
    rw [andThen_apply]
    rfl
  | succ limit ih =>
    funext s
    rw [andThen_apply, loopBehind]
    cases hb : body s with
    | done flow s' =>
      cases flow with
      | returned v => rfl
      | next =>
        simp only [loop]
        cases ht : test s' with
        | done holds s'' =>
          cases holds with
          | false => rfl
          | true =>
            rw [ih]
            exact andThen_apply body (loop test body limit) s''
        | failed e s'' => rfl
        | unfinished => rfl
    | failed e s' => rfl
    | unfinished => rfl

theorem variableValue_apply (name : String) (s : RunState σ) :
    variableValue name s =
      match s.environment.get? name with
      | some v => .done v s
      | none => .failed (.undefinedVariable name) s := by
  have henv : (environment : Eval σ Environment) s = .done s.environment s := rfl
  rw [variableValue, bind_done henv]
  cases s.environment.get? name <;> rfl

/-- Computations that are the same but for their values, which `f` cannot tell apart, end alike. -/
theorem same_ending {x y : Eval σ α} {f : α → β} (h : f <$> x = f <$> y) (s : RunState σ) :
    (∃ a b s', x s = .done a s' ∧ y s = .done b s' ∧ f a = f b) ∨
      (∃ e s', x s = .failed e s' ∧ y s = .failed e s') ∨
      x s = .unfinished ∧ y s = .unfinished := by
  rw [← bind_pure_comp, ← bind_pure_comp] at h
  have hs := congrFun h s
  -- Endings of different kinds stay different under `f`.
  cases hx : x s with
  | done a s' =>
    rw [bind_done hx] at hs
    cases hy : y s with
    | done b t =>
      rw [bind_done hy] at hs
      obtain ⟨hf, rfl⟩ : f a = f b ∧ s' = t := by simpa [Pure.pure, Eval.pure] using hs
      exact .inl ⟨a, b, s', rfl, rfl, hf⟩
    | failed e t => simp [bind_failed hy, Pure.pure, Eval.pure] at hs
    | unfinished => simp [bind_unfinished hy, Pure.pure, Eval.pure] at hs
  | failed e s' =>
    rw [bind_failed hx] at hs
    cases hy : y s with
    | done b t => simp [bind_done hy, Pure.pure, Eval.pure] at hs
    | failed e t =>
      rw [bind_failed hy] at hs
      cases hs
      exact .inr (.inl ⟨_, _, rfl, rfl⟩)
    | unfinished => simp [bind_unfinished hy] at hs
  | unfinished =>
    rw [bind_unfinished hx] at hs
    cases hy : y s with
    | done b t => simp [bind_done hy, Pure.pure, Eval.pure] at hs
    | failed e t => simp [bind_failed hy] at hs
    | unfinished => exact .inr (.inr ⟨rfl, rfl⟩)

variable [Console σ]

/-- A property that the simplest computations have and that sequences inherit from their parts. -/
structure Compositional (P : {α : Type} → Eval σ α → Prop) : Prop where
  pure {α : Type} (a : α) : P (Pure.pure a : Eval σ α)
  fail {α : Type} (e : RuntimeError) : P (fail e : Eval σ α)
  bind {α β : Type} {x : Eval σ α} {f : α → Eval σ β} : P x → (∀ a, P (f a)) → P (x >>= f)
  environment : P (environment : Eval σ Environment)
  writeLine (text : String) : P (onConsole (Console.writeLine text) : Eval σ Unit)
  writePrompt (text : String) : P (onConsole (Console.writePrompt text) : Eval σ Unit)
  readLine : P (onConsole Console.readLine : Eval σ (Option String))

namespace Compositional

variable {P : {α : Type} → Eval σ α → Prop}

omit [Console σ] in
theorem ite {c : Prop} [Decidable c] {x y : Eval σ α} (hx : P x) (hy : P y) :
    P (if c then x else y) := by
  split
  · exact hx
  · exact hy

variable (h : Compositional P)

include h

theorem ofExcept (r : Except RuntimeError α) : P (ofExcept r : Eval σ α) := by
  cases r with
  | ok a => exact h.pure a
  | error e => exact h.fail e

theorem variableValue (name : String) : P (variableValue name : Eval σ Value) := by
  refine h.bind h.environment fun environment => ?_
  split
  · exact h.pure _
  · exact h.fail _

theorem operation (op : Operator) {left right : Eval σ Value} (hl : P left) (hr : P right) :
    P (operation op left right) := by
  refine ite ?_ (h.bind hl fun _ => h.bind hr fun _ => h.ofExcept _)
  refine h.bind hl fun _ => h.bind (h.ofExcept _) fun _ => ite (h.pure _) ?_
  exact h.bind hr fun _ => h.bind (h.ofExcept _) fun _ => h.pure _

variable {arguments : Eval σ (List Value)}

theorem print (ha : P arguments) : P (print arguments) :=
  h.bind ha fun _ => h.bind (h.writeLine _) fun _ => h.pure _

theorem input (count : Nat) (ha : P arguments) : P (input count arguments) := by
  refine ite (h.fail _) (h.bind ha fun values => ?_)
  have hread (u : PUnit) : P (do
      return Value.string ((← onConsole (Console.readLine (σ := σ))).getD "")) :=
    h.bind h.readLine fun _ => h.pure _
  cases values with
  | nil => exact hread ⟨⟩
  | cons prompt _ => exact h.bind (h.writePrompt _) hread

theorem callConversion (name : String) (count : Nat) (ha : P arguments) :
    P (callConversion name count arguments) := by
  refine ite (h.fail _) (h.bind ha fun values => ?_)
  cases values with
  | nil => exact h.fail _
  | cons v _ => exact h.ofExcept _

theorem callReplace (receiver : String) (ha : P arguments) :
    P (callReplace receiver arguments) := by
  refine h.bind (h.variableValue receiver) fun v => ?_
  cases v with
  | string text => exact h.bind ha fun _ => h.ofExcept _
  | _ => exact h.fail _

theorem call (receiver : Receiver) (name : String) (count : Nat) (ha : P arguments) :
    P (call receiver name count arguments) := by
  cases receiver with
  | free | self => exact h.fail _
  | named n =>
    exact ite (ite (h.print ha) (ite (h.input count ha) (h.fail _)))
      (ite (h.callReplace n ha) (h.fail _))
  | namespaced n => exact ite (h.callConversion name count ha) (h.fail _)

end Compositional

end Eval

open Eval

variable {σ : Type} [Console σ] {P : {α : Type} → Eval σ α → Prop}

mutual

/-- A property of all assignments to the names that an expression assigns holds of its
evaluation. -/
theorem Expr.eval_compositional (h : Compositional P) :
    (e : Expr) → (∀ name ∈ e.assigned, ∀ v, P (assign name v : Eval σ Unit)) →
      P (e.eval : Eval σ Value)
  | .identifier name, _ => h.variableValue name
  | .integer _, _ | .char _, _ | .boolean _, _ | .string _, _ => h.pure _
  | .float _, _ | .double _, _ | .self, _ => h.fail _
  | .binary op left right, ha =>
    h.operation op
      (left.eval_compositional h fun name hn => ha name (List.mem_append_left _ hn))
      (right.eval_compositional h fun name hn => ha name (List.mem_append_right _ hn))
  | .assign name value, ha =>
    h.bind (value.eval_compositional h fun other hn => ha other (List.mem_cons_of_mem _ hn))
      fun v => h.bind (ha name List.mem_cons_self v) fun _ => h.pure _
  | .assignMember _ _ _, _ | .namespaceMember _ _, _ | .create _ _ _, _ | .member _ _, _ => h.fail _
  | .call receiver name arguments, ha =>
    h.call receiver name arguments.length (evalAll_compositional h arguments ha)

theorem evalAll_compositional (h : Compositional P) :
    (es : List Expr) → (∀ name ∈ assignedAll es, ∀ v, P (assign name v : Eval σ Unit)) →
      P (evalAll es : Eval σ (List Value))
  | [], _ => h.pure _
  | e :: rest, ha =>
    h.bind (e.eval_compositional h fun name hn => ha name (List.mem_append_left _ hn)) fun _ =>
      h.bind (evalAll_compositional h rest fun name hn => ha name (List.mem_append_right _ hn))
        fun _ => h.pure _

end

namespace Eval

/-- A computation without loops ends. -/
def Ends {α : Type} (x : Eval σ α) : Prop := ∀ s, x s ≠ .unfinished

omit [Console σ] in
theorem ends_onConsole {α : Type} (call : σ → Except String α × σ) : Ends (onConsole call) := by
  intro s
  unfold Eval.onConsole
  split <;> simp

theorem ends_compositional : Compositional (@Ends σ) where
  pure _ := nofun
  fail _ := nofun
  bind {α β x f} hx hf s := by
    cases h : x s with
    | done a s' => exact bind_done h ▸ hf a s'
    | failed e s' => simp [bind_failed h]
    | unfinished => exact absurd h (hx s)
  environment := nofun
  writeLine _ := ends_onConsole _
  writePrompt _ := ends_onConsole _
  readLine := ends_onConsole _

end Eval

theorem evalAll_ends (es : List Expr) : Ends (evalAll es : Eval σ (List Value)) :=
  evalAll_compositional ends_compositional es fun _ _ _ => nofun

end VnScript
