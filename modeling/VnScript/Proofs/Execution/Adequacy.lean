import VnScript.Proofs.Execution.Iteration
import VnScript.Proofs.Execution.Steps

namespace VnScript

open Machine Eval

variable {σ α β : Type}

section Equations

theorem Eval.loop_succ (test : Eval σ Bool) (body : Eval σ Flow) (limit : Nat) :
    loop test body (limit + 1) = do
      if ← test then andThen body (loop test body limit) else return .next := by
  funext s
  rw [loop]
  cases h : test s with
  | done holds t =>
    rw [bind_done h]
    cases holds with
    | false => rfl
    | true =>
      simp only [if_true, andThen]
      cases hb : body t with
      | done flow u =>
        rw [bind_done hb]
        cases flow <;> rfl
      | failed e u => rw [bind_failed hb]
      | unfinished => rw [bind_unfinished hb]
  | failed e t => rw [bind_failed h]
  | unfinished => rw [bind_unfinished h]

theorem Eval.andThen_bind (first second : Eval σ Flow) (x : Eval σ α) :
    andThen (andThen first do let _ ← x; return .next) second =
      andThen first (x >>= fun _ => second) := by
  unfold andThen
  rw [bind_assoc]
  congr 1
  funext flow
  cases flow with
  | next => exact bind_assoc x _ _
  | returned v => rfl

theorem Eval.onConsole_map (call : σ → Except String α × σ) (f : α → β) :
    onConsole (fun c => ((call c).1.map f, (call c).2)) = (do return f (← onConsole call)) := by
  funext s
  cases h : call s.console with
  | mk r console =>
    cases r with
    | ok a =>
      rw [bind_done (onConsole_ok h)]
      exact onConsole_ok (by simp only [h, Except.map])
    | error reason =>
      rw [bind_failed (onConsole_error h)]
      exact onConsole_error (by simp only [h, Except.map])

end Equations

namespace Machine.Config

variable [Console σ]

/-- The run does what an outcome tells: it comes to the end of the computation, or to its error, or
goes on for so many steps. -/
def Realizes (limit : Nat) (finish : α → Control) (enclosing : List Enclosing) (c : Config σ) :
    Outcome σ α → Prop
  | .done a s => c.LeadsTo ⟨finish a, enclosing, s⟩
  | .failed e s => c.LeadsTo ⟨.raised e, enclosing, s⟩
  | .unfinished => (c.after limit).isSome

variable {limit : Nat} {enclosing inner : List Enclosing} {finish : α → Control}
  {finish' : β → Control} {c c' : Config σ}

theorem Realizes.mono {m : Nat} {o : Outcome σ α} (hm : m ≤ limit)
    (ho : c.Realizes limit finish enclosing o) : c.Realizes m finish enclosing o := by
  cases o with
  | done a s => exact ho
  | failed e s => exact ho
  | unfinished => exact isSome_after_of_le hm ho

theorem Realizes.succ {o : Outcome σ α} (h : c.step = some c')
    (ho : c'.Realizes limit finish enclosing o) : c.Realizes (limit + 1) finish enclosing o := by
  cases o with
  | done a s => exact LeadsTo.step h ho
  | failed e s => exact LeadsTo.step h ho
  | unfinished =>
    change (after (limit + 1) c).isSome
    rw [after, h]
    exact ho

theorem Realizes.step {o : Outcome σ α} (h : c.step = some c')
    (ho : c'.Realizes limit finish enclosing o) : c.Realizes limit finish enclosing o :=
  (ho.succ h).mono (Nat.le_succ limit)

theorem Realizes.of_leads {o : Outcome σ α} (h : c.LeadsTo c')
    (ho : c'.Realizes limit finish enclosing o) : c.Realizes limit finish enclosing o := by
  obtain ⟨n, hn⟩ := h
  induction n generalizing c with
  | zero =>
    cases hn
    exact ho
  | succ n ih =>
    rw [after] at hn
    obtain ⟨d, hd, hn⟩ := Option.bind_eq_some_iff.1 hn
    exact .step hd (ih hn)

/-- A computation and what follows it, where errors of the first leave what encloses it alone. -/
theorem Realizes.bind {x : Eval σ α} {f : α → Eval σ β} {s : RunState σ}
    (hx : c.Realizes limit finish inner (x s))
    (hf : ∀ a s', Realizes limit finish' enclosing ⟨finish a, inner, s'⟩ (f a s'))
    (he : ∀ e (s' : RunState σ), LeadsTo ⟨.raised e, inner, s'⟩ ⟨.raised e, enclosing, s'⟩) :
    c.Realizes limit finish' enclosing ((x >>= f) s) := by
  cases h : x s with
  | done a s' =>
    rw [h] at hx
    rw [bind_done h]
    exact .of_leads hx (hf a s')
  | failed e s' =>
    rw [h] at hx
    rw [bind_failed h]
    exact LeadsTo.trans hx (he e s')
  | unfinished =>
    rw [h] at hx
    rw [bind_unfinished h]
    exact hx

theorem Realizes.seq {x : Eval σ α} {f : α → Eval σ β} {s : RunState σ}
    (hx : c.Realizes limit finish enclosing (x s))
    (hf : ∀ a s', Realizes limit finish' enclosing ⟨finish a, enclosing, s'⟩ (f a s')) :
    c.Realizes limit finish' enclosing ((x >>= f) s) :=
  Realizes.bind hx hf fun _ _ => .refl _

theorem Realizes.ofExcept {r : Except RuntimeError Value} {k : Waiting} {s : RunState σ}
    (h : c.step = some ⟨.ofExcept r k, enclosing, s⟩) :
    c.Realizes limit (.value · k) enclosing (ofExcept r s) := by
  cases r with
  | ok v => exact .step h (.refl _)
  | error e => exact .step h (.refl _)

theorem realizes_call (limit : Nat) (enclosing : List Enclosing) (call : ConsoleCall) (k : Waiting)
    (s : RunState σ) :
    Realizes limit (.value · k) enclosing ⟨.call call k, enclosing, s⟩
      (onConsole call.perform s) := by
  cases h : call.perform s.console with
  | mk r console =>
    cases r with
    | ok v =>
      rw [onConsole_ok h]
      exact .step (by simp only [step, h]) (.refl _)
    | error reason =>
      rw [onConsole_error h]
      exact .step (by simp only [step, h]) (.refl _)

theorem realizes_print {args : Eval σ (List Value)} {k : Waiting} {s : RunState σ}
    (h : c.Realizes limit (.arguments .print · [] k) enclosing (args s)) :
    c.Realizes limit (.value · k) enclosing (print args s) := by
  refine h.seq fun values s' => .step rfl ?_
  have hcall := realizes_call limit enclosing (.line (renderAll values)) k s'
  unfold ConsoleCall.perform at hcall
  rwa [onConsole_map] at hcall

theorem realizes_read (k : Waiting) (s : RunState σ) :
    Realizes limit (.value · k) enclosing ⟨.call .read k, enclosing, s⟩
      ((do return Value.string ((← onConsole (Console.readLine (σ := σ))).getD "")) s) := by
  have hcall := realizes_call limit enclosing .read k s
  unfold ConsoleCall.perform at hcall
  rwa [onConsole_map] at hcall

theorem realizes_input {args : Eval σ (List Value)} {k : Waiting} {s : RunState σ} {count : Nat}
    (hcount : ¬1 < count) (h : c.Realizes limit (.arguments .input · [] k) enclosing (args s)) :
    c.Realizes limit (.value · k) enclosing (input count args s) := by
  unfold Eval.input
  rw [if_neg hcount]
  refine h.seq fun values s' => .step rfl ?_
  cases values with
  | nil => exact realizes_read k s'
  | cons prompt _ =>
    have hcall := realizes_call limit enclosing (.prompt prompt.render) (.within .prompted k) s'
    unfold ConsoleCall.perform at hcall
    rw [onConsole_map] at hcall
    have hread := hcall.seq fun _ s'' => .step rfl (realizes_read k s'')
    rwa [bind_assoc] at hread

theorem realizes_conversion {args : Eval σ (List Value)} {k : Waiting} {s : RunState σ}
    {name : String} (h : c.Realizes limit (.arguments (.convert name) · [] k) enclosing (args s)) :
    c.Realizes limit (.value · k) enclosing (callConversion name 1 args s) := by
  refine h.seq fun values s' => ?_
  cases values with
  | nil => exact .step rfl (.refl _)
  | cons v _ => exact .ofExcept rfl

theorem realizes_replace {args : Eval σ (List Value)} {k : Waiting} {s : RunState σ}
    {receiver text : String} (ht : s.environment.get? receiver = some (.string text))
    (h : c.Realizes limit (.arguments (.replace receiver text) · [] k) enclosing (args s)) :
    c.Realizes limit (.value · k) enclosing (callReplace receiver args s) := by
  have hvalue : variableValue receiver s = .done (.string text) s := by
    rw [variableValue_apply, ht]
  rw [callReplace, bind_done hvalue]
  exact h.seq fun values s' => .ofExcept rfl

/-- The run has looked for a function: it evaluates the arguments for it, or ends with the error. -/
def Begins (limit : Nat) (enclosing : List Enclosing) (args : Eval σ (List Value)) (k : Waiting)
    (s : RunState σ) (c : Config σ) : Except RuntimeError Builtin → Prop
  | .ok f => c.Realizes limit (.arguments f · [] k) enclosing (args s)
  | .error e => c.LeadsTo ⟨.raised e, enclosing, s⟩

section Begins

variable {args : Eval σ (List Value)} {k : Waiting} {s : RunState σ} {name : String} {count : Nat}

theorem realizes_system
    (h : c.Begins limit enclosing args k s
      (Builtin.find s.environment (.named "System") name count)) :
    c.Realizes limit (.value · k) enclosing (callSystem name count args s) := by
  simp only [Builtin.find, if_true] at h
  unfold callSystem
  by_cases hp : name = "print"
  · rw [if_pos hp] at h ⊢
    exact realizes_print h
  rw [if_neg hp] at h ⊢
  by_cases hi : name = "input"
  · rw [if_pos hi] at h ⊢
    by_cases hc : 1 < count
    · rw [if_pos hc] at h
      rw [Eval.input, if_pos hc]
      exact h
    · rw [if_neg hc] at h
      exact realizes_input hc h
  · rw [if_neg hi] at h ⊢
    exact h

theorem realizes_replacement {receiver : String} (hr : receiver ≠ "System")
    (h : c.Begins limit enclosing args k s
      (Builtin.find s.environment (.named receiver) "replace" count)) :
    c.Realizes limit (.value · k) enclosing (callReplace receiver args s) := by
  simp only [Builtin.find, hr, if_true, if_false] at h
  cases hv : s.environment.get? receiver with
  | none =>
    rw [hv] at h
    rw [callReplace, bind_failed (by rw [variableValue_apply, hv])]
    exact h
  | some v =>
    have hvalue : variableValue receiver s = .done v s := by rw [variableValue_apply, hv]
    rw [hv] at h
    cases v with
    | string text => exact realizes_replace hv h
    | _ =>
      rw [callReplace, bind_done hvalue]
      exact h

theorem realizes_type
    (h : c.Begins limit enclosing args k s
      (Builtin.find s.environment (.namespaced "type") name count)) :
    c.Realizes limit (.value · k) enclosing (callConversion name count args s) := by
  simp only [Builtin.find, if_true] at h
  by_cases hc : count ≠ 1
  · rw [if_pos hc] at h
    rw [callConversion, if_pos hc]
    exact h
  · rw [if_neg hc] at h
    obtain rfl := Decidable.not_not.1 hc
    exact realizes_conversion h

theorem realizes_builtin (receiver : Receiver)
    (h : c.Begins limit enclosing args k s (Builtin.find s.environment receiver name count)) :
    c.Realizes limit (.value · k) enclosing (call receiver name count args s) := by
  unfold Eval.call
  cases receiver with
  | free | self => exact h
  | named n =>
    by_cases hn : n = "System"
    · subst hn
      exact realizes_system h
    by_cases hr : name = "replace"
    · subst hr
      simp only [if_neg hn, if_true]
      exact realizes_replacement hn h
    · simp only [Builtin.find, if_neg hn, if_neg hr] at h ⊢
      exact h
  | namespaced n =>
    by_cases hn : n = "type"
    · subst hn
      exact realizes_type h
    · simp only [Builtin.find, if_neg hn] at h ⊢
      exact h

end Begins

theorem realizes_truth {v : Value} {s : RunState σ} {f : Bool → Eval σ β}
    (hok : ∀ b, v.truth = .ok b → c.Realizes limit finish' enclosing (f b s))
    (he : ∀ e, v.truth = .error e → c.LeadsTo ⟨.raised e, enclosing, s⟩) :
    c.Realizes limit finish' enclosing ((Eval.ofExcept v.truth >>= f) s) := by
  cases h : v.truth with
  | ok b => exact hok b h
  | error e => exact he e h

theorem realizes_logical {k : Waiting} {v : Value} {s : RunState σ} :
    Realizes limit (.value · k) enclosing ⟨.value v (.within .logical k), enclosing, s⟩
      ((Eval.ofExcept v.truth >>= fun r => pure (Value.boolean r)) s) := by
  have hstep (next : Control) (h : Control.onTruth v (.value (.boolean true) k)
      (.value (.boolean false) k) = next) :
      Config.step ⟨.value v (.within .logical k), enclosing, s⟩ = some ⟨next, enclosing, s⟩ := by
    subst h
    rfl
  refine realizes_truth (fun b hb => ?_) fun e he => ?_
  · exact .step (hstep (.value (.boolean b) k) (by cases b <;> simp only [Control.onTruth, hb]))
      (.refl _)
  · exact .step (hstep (.raised e) (by simp only [Control.onTruth, he])) (.refl _)

end Machine.Config

open Machine.Config

variable [Console σ] {limit : Nat} {enclosing : List Enclosing}

mutual

theorem Expr.realized (k : Waiting) (s : RunState σ) : (e : Expr) →
    Realizes limit (.value · k) enclosing ⟨.eval e k, enclosing, s⟩ (e.eval s)
  | .identifier name => by
    refine .step rfl ?_
    simp only [Expr.eval, variableValue_apply, evaluate]
    cases s.environment.get? name <;> exact .refl _
  | .integer _ | .char _ | .boolean _ | .string _ => .step rfl (.refl _)
  | .float _ | .double _ | .self => .step rfl (.refl _)
  | .assignMember _ _ _ | .namespaceMember _ _ | .create _ _ _ | .member _ _ => .step rfl (.refl _)
  | .assign name value =>
    .step rfl ((value.realized (.within (.assigned name) k) s).seq fun _ _ => .step rfl (.refl _))
  | .call receiver name arguments => by
    refine realizes_builtin receiver ?_
    cases hf : Builtin.find s.environment receiver name arguments.length with
    | ok f =>
      refine .step rfl ?_
      simp only [evaluate, hf]
      exact arguments_realized f [] k s arguments
    | error e =>
      refine .step rfl ?_
      simp only [evaluate, hf]
      exact .refl _
  | .binary op left right => by
    refine .step rfl ?_
    simp only [Expr.eval, operation]
    by_cases hop : op = .and ∨ op = .or
    · rw [if_pos hop]
      refine (left.realized (.within (.left op right) k) s).seq fun v s' => ?_
      refine realizes_truth (fun l hl => ?_) fun e he => ?_
      · refine .step rfl ?_
        simp only [Operand.receive, if_pos hop, hl]
        split
        · exact .refl _
        · exact (right.realized (.within .logical k) s').seq fun w t => realizes_logical
      · refine .step rfl ?_
        simp only [Operand.receive, if_pos hop, he]
        exact .refl _
    · rw [if_neg hop]
      refine (left.realized (.within (.left op right) k) s).seq fun v s' => .step rfl ?_
      simp only [Operand.receive, if_neg hop]
      exact (right.realized (.within (.right op v) k) s').seq fun w t => .ofExcept rfl

theorem arguments_realized (f : Builtin) (values : List Value) (k : Waiting) (s : RunState σ) :
    (es : List Expr) →
      Realizes limit (fun vs => .arguments f (values ++ vs) [] k) enclosing
        ⟨.arguments f values es k, enclosing, s⟩ (evalAll es s)
  | [] => by
    change LeadsTo _ ⟨.arguments f (values ++ []) [] k, enclosing, s⟩
    rw [List.append_nil]
    exact .refl _
  | e :: rest => by
    refine .step rfl ((e.realized (.within (.argument f values rest) k) s).seq fun v s' => ?_)
    refine .step rfl ((arguments_realized f (values ++ [v]) k s' rest).seq fun vs t => ?_)
    change LeadsTo _ ⟨.arguments f (values ++ v :: vs) [] k, enclosing, t⟩
    rw [List.append_assoc]
    exact .refl _

end

/-- One computation after another, where the first is enclosed by what only awaits it. -/
theorem Machine.Config.Realizes.within {E : Enclosing} {first second : Eval σ Flow}
    {c : Config σ} {s : RunState σ} (hfirst : c.Realizes limit .flow (E :: enclosing) (first s))
    (hnext : ∀ s', Realizes limit .flow enclosing ⟨.flow .next, E :: enclosing, s'⟩ (second s'))
    (hleave : ∀ v, E.leave v = .flow (.returned v))
    (hunwind : ∀ e environment, E.unwind e environment = (.raised e, environment)) :
    c.Realizes limit .flow enclosing (Eval.andThen first second s) := by
  refine hfirst.bind (fun flow s' => ?_) fun e s' => ?_
  · cases flow with
    | next => exact hnext s'
    | returned v =>
      have hstep : Config.step ⟨.flow (.returned v), E :: enclosing, s'⟩ =
          some ⟨E.leave v, enclosing, s'⟩ := rfl
      rw [hleave] at hstep
      exact .step hstep (.refl _)
  · have hstep : Config.step ⟨.raised e, E :: enclosing, s'⟩ =
        some ⟨(E.unwind e s'.environment).1, enclosing,
          { s' with environment := (E.unwind e s'.environment).2 }⟩ := rfl
    rw [hunwind] at hstep
    exact LeadsTo.step hstep (.refl _)

theorem Expr.test_realized (e : Expr) (u : Use) {finish : β → Control} {g : Bool → Eval σ β}
    {s : RunState σ}
    (hok : ∀ v b s', v.truth = .ok b →
      Realizes limit finish enclosing ⟨.value v (.use u), enclosing, s'⟩ (g b s'))
    (he : ∀ v error (s' : RunState σ), v.truth = .error error →
      LeadsTo ⟨.value v (.use u), enclosing, s'⟩ ⟨.raised error, enclosing, s'⟩) :
    Realizes limit finish enclosing ⟨.eval e (.use u), enclosing, s⟩ ((e.test >>= g) s) := by
  rw [Expr.test, bind_assoc]
  refine (e.realized (.use u) s).seq fun v s' => ?_
  exact realizes_truth (fun b hb => hok v b s' hb) fun error herror => he v error s' herror

/-- A round of a loop: its body, and what it does before it tests again. -/
def Machine.Loop.run (limit : Nat) (l : Loop) : Eval σ Flow :=
  match l.increment with
  | none => execBlock limit l.body
  | some e => Eval.andThen (execBlock limit l.body) do
      let _ ← e.eval
      return .next

/-- A loop, from a test on. Each round takes a step at least, so a loop that has made all its
rounds has gone on for as many steps. -/
theorem Machine.Loop.realized (l : Loop)
    (hbody : ∀ enclosing (s : RunState σ),
      Realizes limit .flow enclosing ⟨.block l.body, enclosing, s⟩ (execBlock limit l.body s))
    (n : Nat) (hn : n ≤ limit) (s : RunState σ) :
    Realizes n .flow enclosing ⟨.eval l.condition (.use (.test l)), enclosing, s⟩
      (Eval.loop l.condition.test (l.run limit) n s) := by
  obtain ⟨condition, increment, body⟩ := l
  induction n generalizing s with
  | zero => exact rfl
  | succ n ih =>
    rw [Eval.loop_succ]
    refine condition.test_realized (.test _) (fun v b s' hb => ?_) fun v e s' he => ?_
    · have hstep : Config.step ⟨.value v (.use (.test ⟨condition, increment, body⟩)), enclosing, s'⟩ =
          some (if b then ⟨.block body, .round ⟨condition, increment, body⟩ :: enclosing, s'⟩
            else ⟨.flow .next, enclosing, s'⟩) := by
        cases b <;> simp only [Config.step, next?, Use.receive, hb] <;> rfl
      cases b with
      | false => exact .step hstep (.refl _)
      | true =>
        -- The body takes a step at least, which makes up for the round.
        refine .step hstep ?_
        have hround := (hbody (.round ⟨condition, increment, body⟩ :: enclosing) s').mono hn
        have hagain (t : RunState σ) := ih (Nat.le_of_succ_le hn) t
        cases increment with
        | none => exact hround.within (fun t => .succ rfl (hagain t)) (fun _ => rfl) fun _ _ => rfl
        | some e =>
          change Realizes _ _ _ _ (Eval.andThen (Eval.andThen _ _) _ s')
          rw [Eval.andThen_bind]
          refine hround.within (fun t => .step rfl ?_) (fun _ => rfl) fun _ _ => rfl
          exact (e.realized _ t).seq fun _ u => .succ rfl (hagain u)
    · refine LeadsTo.step ?_ (.refl _)
      simp only [Config.step, next?, Use.receive, he]
      rfl

theorem iterate_realized (name : String) (body : List Stmt)
    (hbody : ∀ enclosing (s : RunState σ),
      Realizes limit .flow enclosing ⟨.block body, enclosing, s⟩ (execBlock limit body s))
    (items : Items) (s : RunState σ) :
    Realizes limit .flow enclosing ⟨.iterate name (.ofItems items) body, enclosing, s⟩
      (Eval.forItems (fun v => do Eval.assign name v; execBlock limit body) items s) := by
  -- One item, whatever those behind it do.
  have hitem {v : Value} {items rest : Remaining} {behind : Eval σ Flow} (s : RunState σ)
      (hnext : items.next? = some (v, rest))
      (hrest : ∀ s', Realizes limit .flow enclosing ⟨.iterate name rest body, enclosing, s'⟩
        (behind s')) :
      Realizes limit .flow enclosing ⟨.iterate name items body, enclosing, s⟩
        (Eval.andThen (do Eval.assign name v; execBlock limit body) behind s) := by
    have hstep : Config.step ⟨.iterate name items body, enclosing, s⟩ =
        some ⟨.block body, .item name rest body :: enclosing,
          { s with environment := s.environment.insert name v }⟩ := by
      simp only [Config.step, next?, hnext]
      rfl
    refine Realizes.within (E := .item name rest body) (.step hstep (hbody _ _))
      (fun s' => .step rfl (hrest s')) (fun _ => rfl) fun _ _ => rfl
  rw [Eval.forItems_eq]
  cases items with
  | numbers r =>
    change Realizes _ _ _ ⟨.iterate name (.numbers _ r.count r.start.toInt) body, _, _⟩
      (Eval.forEach _ ((Range.numbersFrom _ r.count r.start.toInt).map _) s)
    generalize r.count = count, r.start.toInt = first
    induction count generalizing first s with
    | zero => exact .step rfl (.refl _)
    | succ count ih => exact hitem s rfl fun s' => ih s' _
  | characters cs =>
    change Realizes _ _ _ ⟨.iterate name (.characters cs) body, _, _⟩
      (Eval.forEach _ (cs.map _) s)
    induction cs generalizing s with
    | nil => exact .step rfl (.refl _)
    | cons c cs ih => exact hitem s rfl ih

theorem Expr.items_cases (e : Expr) :
    (∃ bounds, e = .call .free "range" bounds) ∨
      (e.items : Eval σ Items) = e.asItems ∧ ∀ k, collect k e = .eval e k := by
  cases e with
  | call receiver name bounds =>
    cases receiver with
    | free =>
      by_cases h : name = "range"
      · exact .inl ⟨bounds, by rw [h]⟩
      · exact .inr ⟨if_neg h, fun _ => if_neg h⟩
    | _ => exact .inr ⟨rfl, fun _ => rfl⟩
  | _ => exact .inr ⟨rfl, fun _ => rfl⟩

theorem Expr.items_realized (name : String) (body : List Stmt) {f : Items → Eval σ Flow}
    (hf : ∀ items s, Realizes limit .flow enclosing
      ⟨.iterate name (.ofItems items) body, enclosing, s⟩ (f items s)) (s : RunState σ) (e : Expr) :
    Realizes limit .flow enclosing ⟨collect (.use (.collection name body)) e, enclosing, s⟩
      ((e.items >>= f) s) := by
  obtain ⟨bounds, rfl⟩ | ⟨hitems, hcollect⟩ := e.items_cases (σ := σ)
  · change Realizes _ _ _ ⟨.arguments .range [] bounds _, enclosing, s⟩
      (((evalAll bounds >>= fun values => Eval.ofExcept (Range.ofBounds values) >>= fun r =>
        pure (Items.numbers r)) >>= f) s)
    rw [bind_assoc]
    refine (arguments_realized .range [] _ s bounds).seq fun values s' => ?_
    rw [bind_assoc]
    cases hv : Range.ofBounds values with
    | ok r =>
      have hstep : Config.step
          ⟨.arguments .range ([] ++ values) [] (.use (.collection name body)), enclosing, s'⟩ =
            some ⟨.items (.numbers r) (.use (.collection name body)), enclosing, s'⟩ := by
        simp only [Config.step, next?, Builtin.apply, List.nil_append, hv]
        rfl
      exact .step hstep (.step rfl (hf (.numbers r) s'))
    | error error =>
      refine LeadsTo.step ?_ (.refl _)
      simp only [Config.step, next?, Builtin.apply, List.nil_append, hv]
      rfl
  · rw [hitems, hcollect, Expr.asItems, bind_assoc]
    refine (e.realized _ s).seq fun v s' => ?_
    cases hv : Items.ofValue v with
    | ok items =>
      refine .step ?_ (hf items s')
      simp only [Config.step, next?, Use.receive, hv]
      rfl
    | error error =>
      refine LeadsTo.step ?_ (.refl _)
      simp only [Config.step, next?, Use.receive, hv]
      rfl

theorem Expr.branch_realized (condition : Expr) {body : List Stmt} {further : List Conditional}
    {orElse : Option (List Stmt)} {yes no : Eval σ Flow}
    (hyes : ∀ s, Realizes limit .flow enclosing ⟨.block body, enclosing, s⟩ (yes s))
    (hno : ∀ s, Realizes limit .flow enclosing ⟨otherwise orElse further, enclosing, s⟩ (no s))
    (s : RunState σ) :
    Realizes limit .flow enclosing
      ⟨.eval condition (.use (.branch body further orElse)), enclosing, s⟩
      ((do if ← condition.test then yes else no) s) := by
  have hstep (v : Value) (s' : RunState σ) :
      Config.step ⟨.value v (.use (.branch body further orElse)), enclosing, s'⟩ =
        some ⟨.onTruth v (.block body) (otherwise orElse further), enclosing, s'⟩ := rfl
  unfold Control.onTruth at hstep
  refine condition.test_realized _ (fun v b s' hb => .step (hstep v s') ?_) fun v e s' he => ?_
  · simp only [hb]
    cases b with
    | false => exact hno s'
    | true => exact hyes s'
  · refine LeadsTo.step (hstep v s') ?_
    simp only [he]
    exact .refl _

mutual

/-- The steps of a statement do what its execution does. -/
theorem Stmt.realized (enclosing : List Enclosing) (s : RunState σ) : (st : Stmt) →
    Realizes limit .flow enclosing ⟨.exec st, enclosing, s⟩ (st.exec limit s)
  | .comment _ => .step rfl (.refl _)
  | .declare _ _ none => .step rfl (.refl _)
  | .declare _ name (some e) =>
    .step rfl ((e.realized (.use (.declare name)) s).seq fun _ _ => .step rfl (.refl _))
  | .expr e => .step rfl ((e.realized (.use .drop) s).seq fun _ _ => .step rfl (.refl _))
  | .ret none => .step rfl (.refl _)
  | .ret (some e) => .step rfl ((e.realized (.use .ret) s).seq fun _ _ => .step rfl (.refl _))
  | .conditional (.mk condition body elseIfs none) => by
    have hlast (s' : RunState σ) : Realizes limit .flow enclosing
        ⟨otherwise none [], enclosing, s'⟩ ((pure .next : Eval σ Flow) s') := LeadsTo.refl _
    exact .step rfl (condition.branch_realized (fun s' => execBlock_realized enclosing s' body)
      (clauses_realized enclosing none hlast · elseIfs) s)
  | .conditional (.mk condition body elseIfs (some b)) =>
    .step rfl (condition.branch_realized (fun s' => execBlock_realized enclosing s' body)
      (clauses_realized enclosing (some b) (fun s' => execBlock_realized enclosing s' b) · elseIfs)
      s)
  | .forLoop initial condition increment body => by
    let l : Loop := ⟨condition, some increment, body⟩
    have hbody (outer : List Enclosing) (s' : RunState σ) := execBlock_realized outer s' body
    refine .step rfl ((initial.realized (.head l :: enclosing) s).bind (fun flow s' => ?_) ?_)
    · cases flow <;> exact .step rfl (l.realized hbody limit (Nat.le_refl _) s')
    · exact fun _ _ => LeadsTo.step rfl (.refl _)
  | .forIn name _ collection body =>
    .step rfl (collection.items_realized name body
      (iterate_realized name body fun outer s' => execBlock_realized outer s' body) s)
  | .whileLoop condition body =>
    .step rfl (Loop.realized ⟨condition, none, body⟩
      (fun outer s' => execBlock_realized outer s' body) limit (Nat.le_refl _) s)
  | .doWhile body condition => by
    let l : Loop := ⟨condition, none, body⟩
    rw [Stmt.exec, Eval.loopBehind_eq]
    refine .step rfl ((execBlock_realized (.round l :: enclosing) s body).within (fun s' => ?_)
      (fun _ => rfl) fun _ _ => rfl)
    exact .step rfl
      (l.realized (fun outer s' => execBlock_realized outer s' body) limit (Nat.le_refl _) s')
  | .switch subject cases =>
    .step rfl ((subject.realized (.use (.subject cases)) s).seq fun v s' =>
      .step rfl (cases_realized enclosing v s' cases))
  | .attempt body errorType binding handler => by
    let E : Enclosing := .attempt errorType binding handler
    refine .step rfl ?_
    have hbody := execBlock_realized (E :: enclosing) s body
    simp only [Stmt.exec, Eval.rescue]
    cases h : execBlock limit body s with
    | done flow s' =>
      rw [h] at hbody
      cases flow <;> exact LeadsTo.trans hbody (.step rfl (.refl _))
    | failed e s' =>
      rw [h] at hbody
      by_cases hc : e.caughtBy errorType
      · have hcaught : Config.step ⟨.raised e, E :: enclosing, s'⟩ =
            some ⟨.block handler, enclosing,
              { s' with environment := s'.environment.insert binding (.string e.message) }⟩ := by
          simp only [Config.step, next?, E, Enclosing.unwind, if_pos hc]
          rfl
        simp only [if_pos hc]
        exact .of_leads hbody (.step hcaught (execBlock_realized enclosing _ handler))
      · have hpassed : Config.step ⟨.raised e, E :: enclosing, s'⟩ =
            some ⟨.raised e, enclosing, s'⟩ := by
          simp only [Config.step, next?, E, Enclosing.unwind, if_neg hc]
          rfl
        simp only [if_neg hc]
        exact LeadsTo.trans hbody (.step hpassed (.refl _))
    | unfinished =>
      rw [h] at hbody
      exact hbody

theorem execBlock_realized (enclosing : List Enclosing) (s : RunState σ) : (ss : List Stmt) →
    Realizes limit .flow enclosing ⟨.block ss, enclosing, s⟩ (execBlock limit ss s)
  | [] => .step rfl (.refl _)
  | st :: rest =>
    .step rfl ((st.realized (.rest rest :: enclosing) s).within
      (fun s' => .step rfl (execBlock_realized enclosing s' rest)) (fun _ => rfl) fun _ _ => rfl)

theorem clauses_realized (enclosing : List Enclosing) {last : Eval σ Flow}
    (orElse : Option (List Stmt))
    (hlast : ∀ s, Realizes limit .flow enclosing ⟨otherwise orElse [], enclosing, s⟩ (last s))
    (s : RunState σ) : (clauses : List Conditional) →
      Realizes limit .flow enclosing ⟨otherwise orElse clauses, enclosing, s⟩
        (execClauses limit last clauses s)
  | [] => hlast s
  | .mk condition body _ _ :: rest =>
    condition.branch_realized (fun s' => execBlock_realized enclosing s' body)
      (clauses_realized enclosing orElse hlast · rest) s

theorem cases_realized (enclosing : List Enclosing) (v : Value) (s : RunState σ) :
    (cases : List Case) →
      Realizes limit .flow enclosing ⟨select v cases, enclosing, s⟩ (execCases limit v cases s)
  | [] => .refl _
  | .mk value body :: rest => by
    refine (value.realized (.use (.case v body rest)) s).seq fun w s' => .step rfl ?_
    simp only [Use.receive]
    split
    · exact execBlock_realized enclosing s' body
    · exact cases_realized enclosing v s' rest

end

namespace Machine.Config

theorem Realizes.ends {c : Config σ} {o : Outcome σ Flow} (h : c.Realizes limit .flow [] o)
    (ho : o ≠ .unfinished) : c.Ends o := by
  cases o with
  | done f s => exact ⟨_, h, rfl⟩
  | failed e s => exact ⟨_, h, rfl⟩
  | unfinished => exact absurd rfl ho

theorem Ends.exists_limit {c : Config σ} {o : Outcome σ Flow} (h : c.Ends o) :
    ∃ n, ∀ limit, n ≤ limit → ∀ o', c.Realizes limit .flow [] o' → o' = o := by
  obtain ⟨d, ⟨n, hn⟩, hresult⟩ := id h
  refine ⟨n + 1, fun limit hlimit o' ho' => ?_⟩
  have hfinished : o' ≠ .unfinished := by
    rintro rfl
    have hsome := isSome_after_of_le hlimit ho'
    rw [after_add, hn, Option.bind_some, after, step_of_result hresult] at hsome
    cases hsome
  exact (ho'.ends hfinished).unique h

end Machine.Config

/-- The run ends so, however many more rounds its loops are given. -/
def Program.EndsWith (p : Program) (console : σ) (o : Outcome σ Flow) : Prop :=
  o ≠ .unfinished ∧ ∃ n, ∀ limit, n ≤ limit → p.run limit console = o

theorem Program.realized (p : Program) (limit : Nat) (console : σ) :
    Realizes limit .flow [] (p.start console) (p.run limit console) := by
  unfold Program.start Program.run
  cases p.function? "main" with
  | some main => exact execBlock_realized [] _ main.body
  | none => exact LeadsTo.refl _

/-- The steps of a program end as its execution does. -/
theorem Program.ends_iff (p : Program) (console : σ) (o : Outcome σ Flow) :
    (p.start console).Ends o ↔ p.EndsWith console o := by
  constructor
  · intro h
    obtain ⟨n, hn⟩ := h.exists_limit
    exact ⟨h.finished, n, fun limit hlimit => hn limit hlimit _ (p.realized limit console)⟩
  · rintro ⟨ho, n, hn⟩
    have hrun := p.realized n console
    rw [hn n (Nat.le_refl n)] at hrun
    exact hrun.ends ho

theorem Program.endsWith_of_run {p : Program} {console : σ} {o : Outcome σ Flow}
    (h : p.run limit console = o) (ho : o ≠ .unfinished) : p.EndsWith console o := by
  subst h
  exact (p.ends_iff console _).1 ((p.realized limit console).ends ho)

end VnScript
