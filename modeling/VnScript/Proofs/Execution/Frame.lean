import Mathlib.Logic.Relation
import VnScript.Console.Buffered
import VnScript.Console.Stream
import VnScript.Proofs.Execution.Iteration
import VnScript.Proofs.Tree.Assigned

namespace VnScript

mutual

/-- The names that a statement can write: those that it declares, those that its expressions
assign, the variables of its loops over collections and the bindings of its handlers. -/
def Stmt.written : Stmt → List String
  | .comment _ => []
  | .declare _ name value => name :: assignedAll value.toList
  | .expr e => e.assigned
  | .ret value => assignedAll value.toList
  | .conditional clause => clause.written
  | .forLoop initial condition increment body =>
    initial.written ++ (condition.assigned ++ (increment.assigned ++ blockWritten body))
  | .forIn name _ collection body => name :: (collection.assigned ++ blockWritten body)
  | .whileLoop condition body => condition.assigned ++ blockWritten body
  | .doWhile body condition => condition.assigned ++ blockWritten body
  | .switch subject cases => subject.assigned ++ casesWritten cases
  | .attempt body _ binding handler => binding :: (blockWritten body ++ blockWritten handler)

def blockWritten : List Stmt → List String
  | [] => []
  | s :: rest => s.written ++ blockWritten rest

def Conditional.written : Conditional → List String
  | .mk condition body elseIfs orElse =>
    condition.assigned ++ (blockWritten body ++ (clausesWritten elseIfs ++
      match orElse with
      | some b => blockWritten b
      | none => []))

def clausesWritten : List Conditional → List String
  | [] => []
  | .mk condition body _ _ :: rest =>
    condition.assigned ++ (blockWritten body ++ clausesWritten rest)

def casesWritten : List Case → List String
  | [] => []
  | .mk value body :: rest => value.assigned ++ (blockWritten body ++ casesWritten rest)

end

section Consoles

/-- What one call makes of a console, whether it fails or not. -/
inductive Console.Called {σ : Type} [Console σ] (c : σ) : σ → Prop
  | writeLine (text : String) : Called c (Console.writeLine text c).2
  | writePrompt (text : String) : Called c (Console.writePrompt text c).2
  | readLine : Called c (Console.readLine c).2

/-- The output of `c'` is that of `c` with something at its end, its input that of `c` without
something at its front. -/
structure Console.Advanced {σ α : Type} (output : σ → String) (input : σ → List α) (c c' : σ) :
    Prop where
  output : ∃ more, output c' = output c ++ more
  input : ∃ taken, input c = taken ++ input c'

open Relation Console

variable {σ α : Type} {output : σ → String} {input : σ → List α}

theorem Console.Advanced.refl (c : σ) : Advanced output input c c :=
  ⟨⟨"", by simp⟩, ⟨[], rfl⟩⟩

theorem Console.Advanced.trans {c c' c'' : σ} (h : Advanced output input c c')
    (h' : Advanced output input c' c'') : Advanced output input c c'' := by
  obtain ⟨more, hm⟩ := h.output
  obtain ⟨taken, ht⟩ := h.input
  obtain ⟨more', hm'⟩ := h'.output
  obtain ⟨taken', ht'⟩ := h'.input
  exact ⟨⟨more ++ more', by rw [hm', hm, String.append_assoc]⟩,
    ⟨taken ++ taken', by rw [ht, ht', List.append_assoc]⟩⟩

theorem Console.Advanced.of_calls [Console σ]
    (h : ∀ c c' : σ, Called c c' → Advanced output input c c') {c c' : σ}
    (hc : ReflTransGen Called c c') : Advanced output input c c' := by
  induction hc with
  | refl => exact .refl c
  | tail _ hcall ih => exact ih.trans (h _ _ hcall)

theorem BufferedConsole.advanced_of_called {c c' : BufferedConsole} (h : Called c c') :
    Advanced BufferedConsole.output BufferedConsole.input c c' := by
  cases h with
  | writeLine text => exact ⟨⟨text ++ "\n", String.append_assoc⟩, ⟨[], rfl⟩⟩
  | writePrompt text => exact ⟨⟨text, rfl⟩, ⟨[], rfl⟩⟩
  | readLine =>
    obtain ⟨lines, written⟩ := c
    cases lines with
    | nil => exact .refl _
    | cons line rest => exact ⟨⟨"", String.append_empty.symm⟩, ⟨[line], rfl⟩⟩

theorem StreamConsole.advanced_of_called {c c' : StreamConsole} (h : Called c c') :
    Advanced StreamConsole.output StreamConsole.input c c' := by
  cases h with
  | writeLine text => exact ⟨⟨text ++ "\n", String.append_assoc⟩, ⟨[], rfl⟩⟩
  | writePrompt text => exact ⟨⟨text, rfl⟩, ⟨[], rfl⟩⟩
  | readLine =>
    change Advanced _ _ c c.read.2
    unfold StreamConsole.read
    dsimp only
    split
    · exact .refl c
    · exact ⟨⟨"", String.append_empty.symm⟩, ⟨_, (List.take_append_drop _ _).symm⟩⟩

end Consoles

open Relation Console

/-- What computations that write only these names can have done: no binding is gone, the other
names have their values or their absence as before, and the console was changed by calls only. -/
structure Frame {σ : Type} [Console σ] (written : List String) (s s' : RunState σ) : Prop where
  bound : ∀ name, (s.environment.get? name).isSome → (s'.environment.get? name).isSome
  unwritten : ∀ name, name ∉ written → s'.environment.get? name = s.environment.get? name
  console : ReflTransGen Called s.console s'.console

namespace Frame

variable {σ : Type} [Console σ] {written : List String} {s s' s'' : RunState σ}

theorem refl (s : RunState σ) : Frame written s s := ⟨fun _ h => h, fun _ _ => rfl, .refl⟩

theorem trans (h : Frame written s s') (h' : Frame written s' s'') : Frame written s s'' where
  bound name hb := h'.bound name (h.bound name hb)
  unwritten name hn := (h'.unwritten name hn).trans (h.unwritten name hn)
  console := h.console.trans h'.console

theorem assign {name : String} (hn : name ∈ written) (v : Value) (s : RunState σ) :
    Frame written s { s with environment := s.environment.insert name v } where
  bound other hb := by
    rw [Environment.get?_insert]
    split
    · rfl
    · exact hb
  unwritten other ho := by
    have hne : name ≠ other := fun h => ho (h ▸ hn)
    rw [Environment.get?_insert, if_neg hne]
  console := .refl

theorem call {c : σ} (s : RunState σ) (h : Called s.console c) :
    Frame written s { s with console := c } :=
  ⟨fun _ hb => hb, fun _ _ => rfl, .single h⟩

end Frame

namespace Eval

variable {σ α β : Type} [Console σ]

/-- However a computation ends, it has written these names only. -/
def Keeps (written : List String) (x : Eval σ α) : Prop :=
  ∀ s s', (x s).state? = some s' → Frame written s s'

variable {written : List String}

theorem Keeps.assign {name : String} (hn : name ∈ written) (v : Value) :
    Keeps written (assign name v : Eval σ Unit) := by
  rintro s _ ⟨⟩
  exact .assign hn v s

theorem Keeps.onConsole {call : σ → Except String α × σ} (h : ∀ c, Called c (call c).2) :
    Keeps written (onConsole call) := by
  intro s s' hs
  have hc := h s.console
  unfold Eval.onConsole at hs
  split at hs <;> next he =>
    rw [he] at hc
    cases hs
    exact .call s hc

theorem keeps_compositional : Compositional (σ := σ) (Keeps written) where
  pure a := by
    rintro s _ ⟨⟩
    exact .refl s
  fail e := by
    rintro s _ ⟨⟩
    exact .refl s
  bind {α β x f} hx hf s s'' hs := by
    cases h : x s with
    | done a s' =>
      rw [bind_done h] at hs
      exact (hx s s' (h ▸ rfl)).trans (hf a s' s'' hs)
    | failed e s' =>
      rw [bind_failed h] at hs
      exact hx s s'' (h ▸ hs)
    | unfinished =>
      rw [bind_unfinished h] at hs
      cases hs
  environment := by
    rintro s _ ⟨⟩
    exact .refl s
  writeLine text := .onConsole fun _ => .writeLine text
  writePrompt text := .onConsole fun _ => .writePrompt text
  readLine := .onConsole fun _ => .readLine

theorem Keeps.andThen {first second : Eval σ Flow} (hf : Keeps written first)
    (hs : Keeps written second) : Keeps written (andThen first second) := by
  refine keeps_compositional.bind hf fun flow => ?_
  cases flow with
  | next => exact hs
  | returned v => exact keeps_compositional.pure _

/-- A test of a loop and its body keep the rest as it was, so any number of rounds does. -/
theorem Keeps.loop {test : Eval σ Bool} {body : Eval σ Flow} (ht : Keeps written test)
    (hb : Keeps written body) (limit : Nat) : Keeps written (loop test body limit) := by
  induction limit with
  | zero => nofun
  | succ limit ih =>
    intro s s' hs
    rw [Eval.loop] at hs
    cases h : test s with
    | done holds t =>
      have hst := ht s t (h ▸ rfl)
      rw [h] at hs
      cases holds with
      | false =>
        cases hs
        exact hst
      | true =>
        simp only at hs
        split at hs
        · next u hbody => exact (hst.trans (hb t u (hbody ▸ rfl))).trans (ih u s' hs)
        · exact hst.trans (hb t s' hs)
    | failed e t =>
      rw [h] at hs
      exact ht s s' (h ▸ hs)
    | unfinished =>
      rw [h] at hs
      cases hs

theorem Keeps.forEach {body : Value → Eval σ Flow} (hb : ∀ v, Keeps written (body v))
    (values : List Value) : Keeps written (forEach body values) := by
  induction values with
  | nil => exact keeps_compositional.pure _
  | cons v rest ih => exact .andThen (hb v) ih

theorem Keeps.forItems {body : Value → Eval σ Flow} (hb : ∀ v, Keeps written (body v))
    (items : Items) : Keeps written (forItems body items) := by
  rw [forItems_eq]
  exact .forEach hb items.values

/-- A handler goes on in the state at the error, whatever the failed part has written. -/
theorem Keeps.rescue {x : Eval σ α} {handler? : RuntimeError → Option (Eval σ α)}
    (hx : Keeps written x) (hh : ∀ e, ∀ handler ∈ handler? e, Keeps written handler) :
    Keeps written (rescue x handler?) := by
  intro s s' hs
  unfold Eval.rescue at hs
  split at hs
  · next e t hfail =>
    have hst := hx s t (hfail ▸ rfl)
    split at hs
    · next handler hhandler => exact hst.trans (hh e handler hhandler t s' hs)
    · cases hs
      exact hst
  · exact hx s s' hs

end Eval

open Eval

variable {σ : Type} [Console σ] {written : List String}

theorem Expr.eval_keeps (e : Expr) (h : e.assigned ⊆ written) :
    Keeps written (e.eval : Eval σ Value) :=
  e.eval_compositional keeps_compositional fun _ hn v => .assign (h hn) v

theorem evalAll_keeps (es : List Expr) (h : assignedAll es ⊆ written) :
    Keeps written (evalAll es : Eval σ (List Value)) :=
  evalAll_compositional keeps_compositional es fun _ hn v => .assign (h hn) v

theorem Expr.test_keeps (e : Expr) (h : e.assigned ⊆ written) :
    Keeps written (e.test : Eval σ Bool) :=
  keeps_compositional.bind (e.eval_keeps h) fun _ => keeps_compositional.ofExcept _

theorem Expr.items_keeps (e : Expr) (h : e.assigned ⊆ written) :
    Keeps written (e.items : Eval σ Items) := by
  have hasItems : Keeps written (e.asItems : Eval σ Items) :=
    keeps_compositional.bind (e.eval_keeps h) fun _ => keeps_compositional.ofExcept _
  unfold Expr.items
  split
  · next name bounds =>
    split
    · exact keeps_compositional.bind (evalAll_keeps bounds h) fun _ =>
        keeps_compositional.bind (keeps_compositional.ofExcept _) fun _ =>
          keeps_compositional.pure _
    · exact hasItems
  · exact hasItems

variable (limit : Nat)

mutual

theorem Stmt.exec_keeps : (s : Stmt) → s.written ⊆ written →
    Keeps written (s.exec limit : Eval σ Flow)
  | .comment _, _ => keeps_compositional.pure _
  | .declare _ name none, h => by
    obtain ⟨hn, -⟩ := List.cons_subset.1 h
    exact keeps_compositional.bind (keeps_compositional.pure _) fun v =>
      keeps_compositional.bind (.assign hn v) fun _ => keeps_compositional.pure _
  | .declare _ name (some e), h => by
    obtain ⟨hn, he⟩ := List.cons_subset.1 h
    exact keeps_compositional.bind (e.eval_keeps (List.append_subset.1 he).1) fun v =>
      keeps_compositional.bind (.assign hn v) fun _ => keeps_compositional.pure _
  | .expr e, h => keeps_compositional.bind (e.eval_keeps h) fun _ => keeps_compositional.pure _
  | .ret none, _ => keeps_compositional.pure _
  | .ret (some e), h =>
    keeps_compositional.bind (e.eval_keeps (List.append_subset.1 h).1) fun _ =>
      keeps_compositional.pure _
  | .conditional clause, h => clause.exec_keeps h
  | .forLoop initial condition increment body, h => by
    obtain ⟨hi, h⟩ := List.append_subset.1 h
    obtain ⟨hc, h⟩ := List.append_subset.1 h
    obtain ⟨hn, hb⟩ := List.append_subset.1 h
    refine keeps_compositional.bind (initial.exec_keeps hi) fun _ => ?_
    refine .loop (condition.test_keeps hc) (.andThen (execBlock_keeps body hb) ?_) limit
    exact keeps_compositional.bind (increment.eval_keeps hn) fun _ => keeps_compositional.pure _
  | .forIn name _ collection body, h => by
    obtain ⟨hn, h⟩ := List.cons_subset.1 h
    obtain ⟨hc, hb⟩ := List.append_subset.1 h
    refine keeps_compositional.bind (collection.items_keeps hc) fun items => .forItems ?_ items
    exact fun v => keeps_compositional.bind (.assign hn v) fun _ => execBlock_keeps body hb
  | .whileLoop condition body, h => by
    obtain ⟨hc, hb⟩ := List.append_subset.1 h
    exact .loop (condition.test_keeps hc) (execBlock_keeps body hb) limit
  | .doWhile body condition, h => by
    obtain ⟨hc, hb⟩ := List.append_subset.1 h
    have hbody := execBlock_keeps body hb
    rw [Stmt.exec, loopBehind_eq]
    exact .andThen hbody (.loop (condition.test_keeps hc) hbody limit)
  | .switch subject cases, h => by
    obtain ⟨hs, hc⟩ := List.append_subset.1 h
    exact keeps_compositional.bind (subject.eval_keeps hs) fun v => execCases_keeps v cases hc
  | .attempt body errorType binding handler, h => by
    obtain ⟨hn, h⟩ := List.cons_subset.1 h
    obtain ⟨hb, hh⟩ := List.append_subset.1 h
    refine .rescue (execBlock_keeps body hb) fun e x hx => ?_
    split at hx
    · cases hx
      exact keeps_compositional.bind (.assign hn _) fun _ => execBlock_keeps handler hh
    · cases hx

theorem execBlock_keeps : (ss : List Stmt) → blockWritten ss ⊆ written →
    Keeps written (execBlock limit ss : Eval σ Flow)
  | [], _ => keeps_compositional.pure _
  | s :: rest, h => by
    obtain ⟨hs, hr⟩ := List.append_subset.1 h
    exact .andThen (s.exec_keeps hs) (execBlock_keeps rest hr)

theorem Conditional.exec_keeps : (c : Conditional) → c.written ⊆ written →
    Keeps written (c.exec limit : Eval σ Flow)
  | .mk condition body elseIfs none, h => by
    obtain ⟨hc, h⟩ := List.append_subset.1 h
    obtain ⟨hb, h⟩ := List.append_subset.1 h
    have helse := execClauses_keeps (keeps_compositional.pure .next) elseIfs
      (List.append_subset.1 h).1
    exact keeps_compositional.bind (condition.test_keeps hc) fun holds =>
      Compositional.ite (P := Keeps written) (execBlock_keeps body hb) helse
  | .mk condition body elseIfs (some b), h => by
    obtain ⟨hc, h⟩ := List.append_subset.1 h
    obtain ⟨hb, h⟩ := List.append_subset.1 h
    obtain ⟨he, ho⟩ := List.append_subset.1 h
    have helse := execClauses_keeps (execBlock_keeps b ho) elseIfs he
    exact keeps_compositional.bind (condition.test_keeps hc) fun holds =>
      Compositional.ite (P := Keeps written) (execBlock_keeps body hb) helse

theorem execClauses_keeps {last : Eval σ Flow} (hl : Keeps written last) :
    (cs : List Conditional) → clausesWritten cs ⊆ written →
      Keeps written (execClauses limit last cs : Eval σ Flow)
  | [], _ => hl
  | .mk condition body _ _ :: rest, h => by
    obtain ⟨hc, h⟩ := List.append_subset.1 h
    obtain ⟨hb, hr⟩ := List.append_subset.1 h
    exact keeps_compositional.bind (condition.test_keeps hc) fun holds =>
      Compositional.ite (P := Keeps written) (execBlock_keeps body hb) (execClauses_keeps hl rest hr)

theorem execCases_keeps (v : Value) : (cs : List Case) → casesWritten cs ⊆ written →
    Keeps written (execCases limit v cs : Eval σ Flow)
  | [], _ => keeps_compositional.fail _
  | .mk value body :: rest, h => by
    obtain ⟨hv, h⟩ := List.append_subset.1 h
    obtain ⟨hb, hr⟩ := List.append_subset.1 h
    exact keeps_compositional.bind (value.eval_keeps hv) fun w =>
      Compositional.ite (P := Keeps written) (execBlock_keeps body hb) (execCases_keeps v rest hr)

end

/-- Whether a statement or an expression ends normally, by a return or by an error: no binding is
gone, every name that it does not write has its value or its absence as before, and the console
was changed by calls alone. So the output of a console grows at its end only, and its input is
taken from its front only. A body that fails, so that a handler may go on, has left every name that
the statement around both does not write as it was. -/
theorem exec_frame (limit : Nat) (stmt : Stmt) (e : Expr) :
    (∀ s s' : RunState σ, (stmt.exec limit s).state? = some s' → Frame stmt.written s s') ∧
      (∀ s s' : RunState σ, (e.eval s).state? = some s' → Frame e.assigned s s') ∧
      (∀ s s' : RunState BufferedConsole,
        (stmt.exec limit s).state? = some s' ∨ (e.eval s).state? = some s' →
          Advanced BufferedConsole.output BufferedConsole.input s.console s'.console) ∧
      (∀ s s' : RunState StreamConsole,
        (stmt.exec limit s).state? = some s' ∨ (e.eval s).state? = some s' →
          Advanced StreamConsole.output StreamConsole.input s.console s'.console) ∧
      ∀ body errorType binding handler error, ∀ s s' : RunState σ,
        execBlock limit body s = .failed error s' →
          ∀ name, name ∉ (Stmt.attempt body errorType binding handler).written →
            s'.environment.get? name = s.environment.get? name := by
  refine ⟨stmt.exec_keeps limit (List.Subset.refl _), e.eval_keeps (List.Subset.refl _), ?_, ?_, ?_⟩
  · rintro s s' (h | h)
    · exact .of_calls (fun _ _ => BufferedConsole.advanced_of_called)
        (stmt.exec_keeps limit (List.Subset.refl _) s s' h).console
    · exact .of_calls (fun _ _ => BufferedConsole.advanced_of_called)
        (e.eval_keeps (List.Subset.refl _) s s' h).console
  · rintro s s' (h | h)
    · exact .of_calls (fun _ _ => StreamConsole.advanced_of_called)
        (stmt.exec_keeps limit (List.Subset.refl _) s s' h).console
    · exact .of_calls (fun _ _ => StreamConsole.advanced_of_called)
        (e.eval_keeps (List.Subset.refl _) s s' h).console
  · intro body errorType binding handler error s s' h name hname
    refine (execBlock_keeps limit body ?_ s s' (congrArg Outcome.state? h)).unwritten name hname
    exact fun other ho => List.mem_cons_of_mem _ (List.mem_append_left _ ho)

/-- `try { x = 1; y = z; } happen (Error) as e { w = e; }` fails where `z` has no value, and leaves
`u` alone. -/
theorem exec_frame_caught :
    let body : List Stmt :=
      [.expr (.assign "x" (.integer 1)), .expr (.assign "y" (.identifier "z"))]
    let handler : List Stmt := [.expr (.assign "w" (.identifier "e"))]
    let stmt : Stmt := .attempt body "Error" "e" handler
    let s : RunState BufferedConsole := ⟨⟨[("u", .boolean true)]⟩, .ofInput ""⟩
    ∃ s', (stmt.exec 0 s).state? = some s' ∧ Frame ["e", "x", "y", "w"] s s' ∧
      s'.environment.get? "u" = some (.boolean true) := by
  intro body handler stmt s
  obtain ⟨s', h⟩ : ∃ s', (stmt.exec 0 s).state? = some s' := ⟨_, rfl⟩
  have hframe := (exec_frame 0 stmt (.integer 0)).1 s s' h
  exact ⟨s', h, hframe, hframe.unwritten "u" (by decide)⟩

end VnScript
