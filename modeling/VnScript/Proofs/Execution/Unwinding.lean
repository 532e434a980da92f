import VnScript.Proofs.Execution.Adequacy
import VnScript.Proofs.Grammar.WellFormed

namespace VnScript

namespace Machine

variable (E : Expr → Prop)

section WellFormed

def Waiting.statement : Waiting → Use
  | .use u => u
  | .within _ outer => outer.statement

def Use.WellFormed : Use → Prop
  | .declare _ | .drop | .ret => True
  | .branch body further orElse =>
    blockWellFormed E body ∧ clausesWellFormed E further ∧ orElseWellFormed E orElse
  | .test loop | .again loop => blockWellFormed E loop.body
  | .collection _ body => blockWellFormed E body
  | .subject cases => casesWellFormed E cases
  | .case _ body rest => blockWellFormed E body ∧ casesWellFormed E rest

def Enclosing.WellFormed : Enclosing → Prop
  | .rest ss => blockWellFormed E ss
  | .head loop | .round loop => blockWellFormed E loop.body
  | .item _ _ body => blockWellFormed E body
  | .attempt _ _ handler => blockWellFormed E handler

def Control.WellFormed : Control → Prop
  | .block ss => blockWellFormed E ss
  | .exec s => s.WellFormed E
  | .iterate _ _ body => blockWellFormed E body
  | .flow _ | .raised _ => True
  | .eval _ k | .arguments _ _ _ k | .value _ k | .items _ k | .call _ k => k.statement.WellFormed E

end WellFormed

section Serves

/-- An expression of the statement `u` is evaluated, or has failed. -/
def Control.Serves (u : Use) : Control → Prop
  | .raised _ => True
  | .eval _ k | .arguments _ _ _ k | .value _ k | .items _ k | .call _ k => k.statement = u
  | .block _ | .exec _ | .iterate _ _ _ | .flow _ => False

variable {E}

theorem Control.Serves.wellFormed {u : Use} {c : Control} (h : c.Serves u) (hu : u.WellFormed E) :
    c.WellFormed E := by
  cases c with
  | raised _ => trivial
  | block _ | exec _ | iterate _ _ _ | flow _ => exact h.elim
  | eval _ _ | arguments _ _ _ _ | value _ _ | items _ _ | call _ _ =>
    obtain rfl : _ = u := h
    exact hu

theorem ofExcept_serves (r : Except RuntimeError Value) (k : Waiting) :
    (Control.ofExcept r k).Serves k.statement := by
  cases r with
  | ok v => exact rfl
  | error e => trivial

theorem apply_serves (k : Waiting) (f : Builtin) (values : List Value) :
    (f.apply k values).Serves k.statement := by
  cases f with
  | print => exact rfl
  | input => cases values <;> exact rfl
  | convert target =>
    cases values with
    | nil => trivial
    | cons v _ => exact ofExcept_serves _ k
  | replace receiver text => exact ofExcept_serves _ k
  | range => cases h : Range.ofBounds values <;> simp only [Builtin.apply, h, Control.Serves]

theorem evaluate_serves (environment : Environment) (k : Waiting) (e : Expr) :
    (evaluate environment k e).Serves k.statement := by
  cases e with
  | identifier name => cases h : environment.get? name <;> simp only [evaluate, h, Control.Serves]
  | call receiver name arguments =>
    cases h : Builtin.find environment receiver name arguments.length <;>
      simp only [evaluate, h, Control.Serves]
  | integer _ | char _ | boolean _ | string _ => exact rfl
  | binary _ _ _ | assign _ _ => exact rfl
  | float _ | double _ | self | assignMember _ _ _ | namespaceMember _ _ => trivial
  | create _ _ _ | member _ _ => trivial

theorem collect_serves (k : Waiting) (e : Expr) : (collect k e).Serves k.statement := by
  unfold collect
  split
  · split <;> exact rfl
  · exact rfl

theorem receive_serves (v : Value) (k : Waiting) (environment : Environment) (operand : Operand) :
    (operand.receive v k environment).1.Serves k.statement := by
  cases operand with
  | left op e =>
    simp only [Operand.receive]
    split
    · cases v.truth with
      | ok l =>
        simp only
        split <;> exact rfl
      | error e => trivial
    · exact rfl
  | right op l => exact ofExcept_serves _ k
  | logical =>
    simp only [Operand.receive, Control.onTruth]
    cases v.truth with
    | ok b => cases b <;> exact rfl
    | error e => trivial
  | assigned _ | argument _ _ _ | prompted => exact rfl

end Serves

section Heads

def Headless (enclosing : List Enclosing) : Prop := ∀ within ∈ enclosing, ∀ loop, within ≠ .head loop

def Use.IsInitial : Use → Prop
  | .declare _ | .drop => True
  | _ => False

def Control.IsInitial : Control → Prop
  | .exec s => s.IsInitial
  | .flow f => f = .next
  | .raised _ => True
  | .eval _ k | .arguments _ _ _ k | .value _ k | .items _ k | .call _ k => k.statement.IsInitial
  | .block _ | .iterate _ _ _ => False

theorem Control.Serves.isInitial {u : Use} {c : Control} (h : c.Serves u) (hu : u.IsInitial) :
    c.IsInitial := by
  cases c with
  | raised _ => trivial
  | block _ | exec _ | iterate _ _ _ | flow _ => exact h.elim
  | eval _ _ | arguments _ _ _ _ | value _ _ | items _ _ | call _ _ =>
    obtain rfl : _ = u := h
    exact hu

/-- A body is tried whose handler takes the error. -/
def Enclosing.Takes (e : RuntimeError) : Enclosing → Prop
  | .attempt errorType _ _ => errorType = "Error" ∨ errorType = e.kind
  | _ => False

theorem takes_iff (e : RuntimeError) (errorType : String) :
    e.caughtBy errorType ↔ errorType = "Error" ∨ errorType = e.kind := by
  simp [RuntimeError.caughtBy]

theorem taken_or_not (e : RuntimeError) (enclosing : List Enclosing) :
    (∀ within ∈ enclosing, ¬within.Takes e) ∨
      ∃ inner errorType binding handler outer,
        enclosing = inner ++ .attempt errorType binding handler :: outer ∧
          (∀ within ∈ inner, ¬within.Takes e) ∧ (errorType = "Error" ∨ errorType = e.kind) := by
  induction enclosing with
  | nil => exact .inl nofun
  | cons within enclosing ih =>
    by_cases hw : within.Takes e
    · cases within with
      | attempt errorType binding handler =>
        exact .inr ⟨[], errorType, binding, handler, enclosing, rfl, nofun, hw⟩
      | rest _ | head _ | round _ | item _ _ _ => exact hw.elim
    · obtain hnone | ⟨inner, errorType, binding, handler, outer, rfl, hinner, ht⟩ := ih
      · exact .inl (List.forall_mem_cons.2 ⟨hw, hnone⟩)
      · exact .inr ⟨within :: inner, errorType, binding, handler, outer, rfl,
          List.forall_mem_cons.2 ⟨hw, hinner⟩, ht⟩

end Heads

/-- The code that is left of a program that can be written. Where a loop is about to begin, it is
the innermost of what encloses the control, and its head does not return. -/
structure Sound (control : Control) (enclosing : List Enclosing) : Prop where
  code : control.WellFormed E
  enclosed : ∀ within ∈ enclosing, within.WellFormed E
  heads : Headless enclosing ∨
    control.IsInitial ∧ ∃ loop outer, enclosing = .head loop :: outer ∧ Headless outer

namespace Sound

variable {E} {control control' : Control} {enclosing : List Enclosing}

theorem headless (h : Sound E control enclosing) (hc : ¬control.IsInitial) : Headless enclosing :=
  h.heads.resolve_right fun ⟨hi, _⟩ => hc hi

theorem outer_headless {within : Enclosing} (h : Sound E control (within :: enclosing)) :
    Headless enclosing := by
  obtain hh | ⟨-, loop, outer, heq, ho⟩ := h.heads
  · exact fun inner hi => hh inner (List.mem_cons_of_mem _ hi)
  · obtain ⟨-, rfl⟩ := List.cons.inj heq
    exact ho

theorem same (h : Sound E control enclosing) (hc : control'.WellFormed E)
    (hi : control.IsInitial → control'.IsInitial) : Sound E control' enclosing where
  code := hc
  enclosed := h.enclosed
  heads := h.heads.imp_right fun ⟨hinitial, hh⟩ => ⟨hi hinitial, hh⟩

theorem serves {u : Use} (h : Sound E control enclosing)
    (hw : control.WellFormed E → u.WellFormed E) (hi : control.IsInitial → u.IsInitial)
    (hs : control'.Serves u) : Sound E control' enclosing :=
  h.same (hs.wellFormed (hw h.code)) fun hc => hs.isInitial (hi hc)

theorem enclose {within : Enclosing} (h : Sound E control enclosing) (hn : ¬control.IsInitial)
    (hc : control'.WellFormed E) (hw : within.WellFormed E) (hl : ∀ loop, within ≠ .head loop) :
    Sound E control' (within :: enclosing) where
  code := hc
  enclosed := List.forall_mem_cons.2 ⟨hw, h.enclosed⟩
  heads := .inl (List.forall_mem_cons.2 ⟨hl, h.headless hn⟩)

theorem leave {within : Enclosing} (h : Sound E control (within :: enclosing))
    (hc : control'.WellFormed E) : Sound E control' enclosing where
  code := hc
  enclosed := fun inner hi => h.enclosed inner (List.mem_cons_of_mem _ hi)
  heads := .inl h.outer_headless

end Sound

variable {E}

theorem otherwise_wellFormed {orElse : Option (List Stmt)} {further : List Conditional}
    (ho : orElseWellFormed E orElse) (hf : clausesWellFormed E further) :
    (otherwise orElse further).WellFormed E := by
  cases further with
  | nil =>
    cases orElse with
    | none => trivial
    | some b => exact ho
  | cons c rest =>
    obtain ⟨condition, body, elseIfs, last⟩ := c
    exact ⟨hf.1.2.1, hf.2, ho⟩

theorem select_wellFormed {cases : List Case} (subject : Value) (h : casesWellFormed E cases) :
    (select subject cases).WellFormed E := by
  cases cases with
  | nil => trivial
  | cons c rest =>
    obtain ⟨value, body⟩ := c
    exact ⟨h.1.2, h.2⟩

theorem onTruth_wellFormed {yes no : Control} (v : Value) (hy : yes.WellFormed E)
    (hn : no.WellFormed E) : (Control.onTruth v yes no).WellFormed E := by
  unfold Control.onTruth
  split
  · exact hy
  · exact hn
  · trivial

theorem execute_sound {enclosing : List Enclosing} {s : Stmt} (environment : Environment)
    (h : Sound E (.exec s) enclosing) :
    Sound E (execute enclosing environment s).1 (execute enclosing environment s).2.1 := by
  have hs : s.WellFormed E := h.code
  cases s with
  | comment _ => exact h.same trivial nofun
  | declare _ _ value =>
    cases value with
    | none => exact h.same trivial fun _ => rfl
    | some e => exact h.same trivial fun _ => trivial
  | expr e => exact h.same trivial fun _ => trivial
  | ret value => cases value <;> exact h.same trivial nofun
  | conditional clause =>
    obtain ⟨condition, body, elseIfs, orElse⟩ := clause
    exact h.same hs.2 nofun
  | forLoop initial condition increment body =>
    -- Here the head of a loop is about to be run, and nowhere else.
    exact {
      code := hs.2.1
      enclosed := List.forall_mem_cons.2 ⟨hs.2.2.2.2, h.enclosed⟩
      heads := .inr ⟨hs.1, _, _, rfl, h.headless nofun⟩ }
  | forIn name _ collection body =>
    have hserves := collect_serves (.use (.collection name body)) collection
    exact h.same (hserves.wellFormed hs.2.2) nofun
  | whileLoop condition body => exact h.same hs.2 nofun
  | doWhile body condition => exact h.enclose nofun hs.1 hs.1 nofun
  | switch subject cases => exact h.same hs.2 nofun
  | attempt body errorType binding handler => exact h.enclose nofun hs.1 hs.2.2.2 nofun

theorem receive_sound {enclosing : List Enclosing} {u : Use} (v : Value)
    (environment : Environment) (h : Sound E (.value v (.use u)) enclosing) :
    Sound E (u.receive v enclosing environment).1 (u.receive v enclosing environment).2.1 := by
  have hu : u.WellFormed E := h.code
  cases u with
  | declare _ | drop => exact h.same trivial fun _ => rfl
  | ret => exact h.same trivial nofun
  | branch body further orElse =>
    exact h.same (onTruth_wellFormed v hu.1 (otherwise_wellFormed hu.2.2 hu.2.1)) nofun
  | test loop =>
    simp only [Use.receive]
    cases v.truth with
    | ok b =>
      cases b with
      | true => exact h.enclose nofun hu hu nofun
      | false => exact h.same trivial nofun
    | error e => exact h.same trivial nofun
  | again loop => exact h.same hu nofun
  | collection name body =>
    simp only [Use.receive]
    cases Items.ofValue v with
    | ok items => exact h.same hu nofun
    | error e => exact h.same trivial nofun
  | subject cases => exact h.same (select_wellFormed v hu) nofun
  | case expected body rest =>
    refine h.same ?_ nofun
    simp only [Use.receive]
    split
    · exact hu.1
    · exact select_wellFormed expected hu.2

theorem resume_wellFormed {within : Enclosing} (h : within.WellFormed E) :
    within.resume.WellFormed E := by
  cases within with
  | rest _ | head _ | item _ _ _ => exact h
  | round loop =>
    obtain ⟨condition, increment, body⟩ := loop
    cases increment <;> exact h
  | attempt _ _ _ => trivial

theorem leave_wellFormed {within : Enclosing} (v : Value) (h : within.WellFormed E) :
    (within.leave v).WellFormed E := by
  cases within with
  | head _ => exact h
  | rest _ | round _ | item _ _ _ | attempt _ _ _ => trivial

theorem unwind_wellFormed {within : Enclosing} (e : RuntimeError) (environment : Environment)
    (h : within.WellFormed E) : (within.unwind e environment).1.WellFormed E := by
  cases within with
  | rest _ | head _ | round _ | item _ _ _ => trivial
  | attempt errorType binding handler =>
    simp only [Enclosing.unwind]
    split
    · exact h
    · trivial

section Next

variable {enclosing : List Enclosing} {environment : Environment} {point : Point}

theorem block_sound {ss : List Stmt} (h : Sound E (.block ss) enclosing)
    (hnext : next? enclosing environment (.block ss) = some point) :
    Sound E point.1 point.2.1 := by
  cases ss with
  | nil =>
    cases hnext
    exact h.same trivial nofun
  | cons s rest =>
    cases hnext
    exact h.enclose nofun h.code.1 h.code.2 nofun

theorem iterate_sound {name : String} {items : Remaining} {body : List Stmt}
    (h : Sound E (.iterate name items body) enclosing)
    (hnext : next? enclosing environment (.iterate name items body) = some point) :
    Sound E point.1 point.2.1 := by
  simp only [next?] at hnext
  cases hi : items.next? with
  | none =>
    rw [hi] at hnext
    cases hnext
    exact h.same trivial nofun
  | some item =>
    rw [hi] at hnext
    cases hnext
    exact h.enclose nofun h.code h.code nofun

theorem flow_sound {f : Flow} (h : Sound E (.flow f) enclosing)
    (hnext : next? enclosing environment (.flow f) = some point) : Sound E point.1 point.2.1 := by
  cases enclosing with
  | nil => cases f <;> cases hnext
  | cons within outer =>
    have hw := h.enclosed within List.mem_cons_self
    cases f with
    | next =>
      cases hnext
      exact h.leave (resume_wellFormed hw)
    | returned v =>
      cases hnext
      exact h.leave (leave_wellFormed v hw)

theorem raised_sound {e : RuntimeError} (h : Sound E (.raised e) enclosing)
    (hnext : next? enclosing environment (.raised e) = some point) :
    Sound E point.1 point.2.1 := by
  cases enclosing with
  | nil => cases hnext
  | cons within outer =>
    cases hnext
    exact h.leave (unwind_wellFormed e environment (h.enclosed within List.mem_cons_self))

theorem arguments_sound {f : Builtin} {values : List Value} {rest : List Expr} {k : Waiting}
    (h : Sound E (.arguments f values rest k) enclosing)
    (hnext : next? enclosing environment (.arguments f values rest k) = some point) :
    Sound E point.1 point.2.1 := by
  cases rest with
  | nil =>
    cases hnext
    exact h.serves id id (apply_serves k f values)
  | cons e rest =>
    cases hnext
    exact h.same h.code id

theorem value_sound {v : Value} {k : Waiting} (h : Sound E (.value v k) enclosing)
    (hnext : next? enclosing environment (.value v k) = some point) : Sound E point.1 point.2.1 := by
  cases k with
  | use u =>
    cases hnext
    exact receive_sound v environment h
  | within operand k =>
    cases hnext
    exact h.serves id id (receive_serves v k environment operand)

theorem items_sound {items : Items} {k : Waiting} (h : Sound E (.items items k) enclosing)
    (hnext : next? enclosing environment (.items items k) = some point) :
    Sound E point.1 point.2.1 := by
  cases k with
  | within _ _ => cases hnext
  | use u =>
    cases u with
    | collection name body =>
      cases hnext
      exact h.same h.code nofun
    | _ => cases hnext

theorem next_sound {control : Control} (h : Sound E control enclosing)
    (hnext : next? enclosing environment control = some point) : Sound E point.1 point.2.1 := by
  cases control with
  | block ss => exact block_sound h hnext
  | exec s =>
    cases hnext
    exact execute_sound environment h
  | iterate name items body => exact iterate_sound h hnext
  | flow f => exact flow_sound h hnext
  | raised e => exact raised_sound h hnext
  | eval e k =>
    cases hnext
    exact h.serves id id (evaluate_serves environment k e)
  | arguments f values rest k => exact arguments_sound h hnext
  | value v k => exact value_sound h hnext
  | items items k => exact items_sound h hnext
  | call _ _ => cases hnext

end Next

end Machine

namespace Machine.Config

variable {E} {σ : Type} [Console σ]

/-- One step keeps the code of a program that can be written. -/
theorem step_sound {c c' : Config σ} (h : Sound E c.control c.enclosing)
    (hstep : c.step = some c') : Sound E c'.control c'.enclosing := by
  obtain ⟨control, enclosing, s⟩ := c
  unfold step at hstep
  split at hstep
  · rename_i call k hc
    cases hc
    split at hstep <;> cases hstep
    · exact h.same h.code id
    · exact h.same trivial fun _ => trivial
  · obtain ⟨point, hnext, rfl⟩ := Option.map_eq_some_iff.1 hstep
    exact next_sound h hnext

theorem leads_sound {c c' : Config σ} (h : Sound E c.control c.enclosing) (hc : c.LeadsTo c') :
    Sound E c'.control c'.enclosing := by
  obtain ⟨n, hn⟩ := hc
  induction n generalizing c with
  | zero =>
    cases hn
    exact h
  | succ n ih =>
    obtain ⟨d, hd, hn⟩ := Option.bind_eq_some_iff.1 hn
    exact ih (step_sound h hd) hn

omit [Console σ] in
theorem start_sound {p : Program} (h : p.WellFormed E) (console : σ) :
    Sound E (p.start console).control (p.start console).enclosing := by
  unfold Program.start
  cases hmain : p.function? "main" with
  | none => exact ⟨trivial, nofun, .inl nofun⟩
  | some main => exact ⟨(h.function hmain).body, nofun, .inl nofun⟩

theorem after_returned (v : Value) (s : RunState σ) {enclosing : List Enclosing}
    (h : Headless enclosing) (m : Nat) (hm : m ≤ enclosing.length) :
    after m ⟨.flow (.returned v), enclosing, s⟩ =
      some ⟨.flow (.returned v), enclosing.drop m, s⟩ := by
  induction m generalizing enclosing with
  | zero => rfl
  | succ m ih =>
    cases enclosing with
    | nil => cases hm
    | cons within outer =>
      obtain ⟨hw, ho⟩ := List.forall_mem_cons.1 h
      have hleave : within.leave v = .flow (.returned v) := by
        cases within with
        | head loop => exact absurd rfl (hw loop)
        | rest _ | round _ | item _ _ _ | attempt _ _ _ => rfl
      have hstep : Config.step ⟨.flow (.returned v), within :: outer, s⟩ =
          some ⟨within.leave v, outer, s⟩ := rfl
      rw [after, hstep, hleave]
      exact ih ho (Nat.le_of_succ_le_succ hm)

/-- An error leaves what does not take it, one after another, and does nothing else. -/
theorem after_raised (e : RuntimeError) (s : RunState σ) {inner : List Enclosing}
    (outer : List Enclosing) (h : ∀ within ∈ inner, ¬within.Takes e) (m : Nat)
    (hm : m ≤ inner.length) :
    after m ⟨.raised e, inner ++ outer, s⟩ = some ⟨.raised e, inner.drop m ++ outer, s⟩ := by
  induction m generalizing inner with
  | zero => rfl
  | succ m ih =>
    cases inner with
    | nil => cases hm
    | cons within inner =>
      obtain ⟨hw, hi⟩ := List.forall_mem_cons.1 h
      have hunwind : within.unwind e s.environment = (.raised e, s.environment) := by
        cases within with
        | attempt errorType binding handler => exact if_neg (mt (takes_iff e errorType).1 hw)
        | rest _ | round _ | item _ _ _ | head _ => rfl
      have hstep : Config.step ⟨.raised e, within :: (inner ++ outer), s⟩ =
          some ⟨(within.unwind e s.environment).1, inner ++ outer,
            { s with environment := (within.unwind e s.environment).2 }⟩ := rfl
      rw [List.cons_append, after, hstep, hunwind]
      exact ih hi (Nat.le_of_succ_le_succ hm)

theorem after_caught (e : RuntimeError) (s : RunState σ) {inner : List Enclosing}
    (outer : List Enclosing) (h : ∀ within ∈ inner, ¬within.Takes e)
    {errorType : String} (binding : String) (handler : List Stmt)
    (ht : errorType = "Error" ∨ errorType = e.kind) :
    after (inner.length + 1) ⟨.raised e, inner ++ .attempt errorType binding handler :: outer, s⟩ =
      some ⟨.block handler, outer,
        { s with environment := s.environment.insert binding (.string e.message) }⟩ := by
  have hstep : Config.step ⟨.raised e, .attempt errorType binding handler :: outer, s⟩ =
      some ⟨.block handler, outer,
        { s with environment := s.environment.insert binding (.string e.message) }⟩ := by
    simp only [Config.step, next?, Enclosing.unwind, if_pos ((takes_iff e errorType).2 ht)]
    rfl
  rw [after_add, after_raised e s _ h inner.length (Nat.le_refl _), List.drop_length,
    List.nil_append, Option.bind_some, after, hstep]
  rfl

/-- An error ends the run, or the innermost handler that takes it begins. -/
theorem raised_ends_or_caught (e : RuntimeError) (enclosing : List Enclosing) (s : RunState σ) :
    Ends ⟨.raised e, enclosing, s⟩ (.failed e s) ∨
      ∃ inner errorType binding handler outer,
        enclosing = inner ++ .attempt errorType binding handler :: outer ∧
          (errorType = "Error" ∨ errorType = e.kind) ∧
          LeadsTo ⟨.raised e, enclosing, s⟩ ⟨.block handler, outer,
            { s with environment := s.environment.insert binding (.string e.message) }⟩ := by
  obtain hnone | ⟨inner, errorType, binding, handler, outer, rfl, hinner, ht⟩ :=
    taken_or_not e enclosing
  · have hafter := after_raised e s [] hnone enclosing.length (Nat.le_refl _)
    rw [List.append_nil, List.append_nil, List.drop_length] at hafter
    exact .inl ⟨_, ⟨_, hafter⟩, rfl⟩
  · exact .inr ⟨inner, errorType, binding, handler, outer, rfl, ht, _,
      after_caught e s outer hinner binding handler ht⟩

end Machine.Config

open Machine

variable {σ : Type} [Console σ]

/-- Whatever encloses a return that has its value, or an error, is left with nothing evaluated, no
call of the console made and no binding changed. A return ends the run. The innermost handler that
takes an error begins in the state at the error, with its message bound, and the program ends as it
does from there; where there is none, the program ends with the error. -/
theorem unwinding (source : String) (p : Program) (h : parse source = .ok p) (console : σ)
    (c : Config σ) (hc : (p.start console).LeadsTo c) :
    (∀ v, c.control = .value v (.use .ret) ∨ c.control = .exec (.ret none) ∧ v = .absent →
      (∀ m ≤ c.enclosing.length,
        c.after (m + 1) = some ⟨.flow (.returned v), c.enclosing.drop m, c.state⟩) ∧
      p.EndsWith console (.done (.returned v) c.state)) ∧
    ∀ e, c.control = .raised e →
      (∀ inner errorType binding handler outer,
        c.enclosing = inner ++ .attempt errorType binding handler :: outer →
        (∀ within ∈ inner, ¬within.Takes e) → errorType = "Error" ∨ errorType = e.kind →
          let start : Config σ := ⟨.block handler, outer, { c.state with
            environment := c.state.environment.insert binding (.string e.message) }⟩
          (∀ m ≤ inner.length, c.after m = some ⟨.raised e, c.enclosing.drop m, c.state⟩) ∧
          c.after (inner.length + 1) = some start ∧
          ∀ o, start.Ends o ↔ p.EndsWith console o) ∧
      ((∀ within ∈ c.enclosing, ¬within.Takes e) →
        (∀ m ≤ c.enclosing.length, c.after m = some ⟨.raised e, c.enclosing.drop m, c.state⟩) ∧
        p.EndsWith console (.failed e c.state)) := by
  rw [parse_eq] at h
  have hp : p.WellFormed Expr.WellFormed :=
    (Scan.phrase_of_parse (Scan.lexed_ofString source) h).2.wellFormed
  have hsound := Config.leads_sound (Config.start_sound hp console) hc
  -- What comes from `c` to an end is the end of the program.
  have hends {d : Config σ} {n : Nat} {o : Outcome σ Flow} (hd : c.after n = some d) :
      d.Ends o ↔ p.EndsWith console o := by
    have hlead := hc.trans ⟨n, hd⟩
    exact ⟨fun ho => (p.ends_iff console o).1 (ho.of_leads hlead),
      fun ho => ((p.ends_iff console o).2 ho).along hlead⟩
  obtain ⟨control, enclosing, s⟩ := c
  refine ⟨fun v hv => ?_, fun e he => ⟨?_, fun hnone => ?_⟩⟩
  · have hnot : ¬control.IsInitial := by
      obtain hv | ⟨hv, -⟩ := hv <;> cases hv <;> exact id
    have hstep : Config.step ⟨control, enclosing, s⟩ =
        some ⟨.flow (.returned v), enclosing, s⟩ := by
      obtain hv | ⟨hv, rfl⟩ := hv <;> cases hv <;> rfl
    have hafter (m : Nat) (hm : m ≤ enclosing.length) :
        Config.after (m + 1) ⟨control, enclosing, s⟩ =
          some ⟨.flow (.returned v), enclosing.drop m, s⟩ := by
      rw [Config.after, hstep]
      exact Config.after_returned v s (hsound.headless hnot) m hm
    have hlast := hafter enclosing.length (Nat.le_refl _)
    rw [List.drop_length] at hlast
    exact ⟨hafter, (hends hlast).1 ⟨_, .refl _, rfl⟩⟩
  · intro inner errorType binding handler outer henclosing hinner ht
    obtain rfl : control = .raised e := he
    obtain rfl : enclosing = inner ++ .attempt errorType binding handler :: outer := henclosing
    have hcaught := Config.after_caught e s outer hinner binding handler ht
    refine ⟨fun m hm => ?_, hcaught, fun o => hends hcaught⟩
    simp only [List.drop_append_of_le_length hm]
    exact Config.after_raised e s _ hinner m hm
  · obtain rfl : control = .raised e := he
    have hafter (m : Nat) (hm : m ≤ enclosing.length) :
        Config.after m ⟨.raised e, enclosing, s⟩ = some ⟨.raised e, enclosing.drop m, s⟩ := by
      simpa using Config.after_raised e s [] hnone m hm
    have hlast := hafter enclosing.length (Nat.le_refl _)
    rw [List.drop_length] at hlast
    exact ⟨hafter, (hends hlast).1 ⟨_, .refl _, rfl⟩⟩

/-- In a loop, a body fails within two that are tried. The handler of the inner one is for other
errors, and that of the outer one returns the message. -/
def nestedSource : String :=
  "func main() \x7b while (true) \x7b try \x7b try \x7b x = 1 / 0; \x7d happen (ValueError) as v \x7b \x7d" ++
    " \x7d happen (Error) as e \x7b return e; \x7d \x7d \x7d"

def nestedProgram : Program :=
  ⟨[.function ⟨none, "main", [], [.whileLoop (.boolean true)
    [.attempt [.attempt
      [.expr (.assign "x" (.binary .div (.integer 1) (.integer 0)))] "ValueError" "v" []]
      "Error" "e" [.ret (some (.identifier "e"))]]]⟩]⟩

/-- The error is there after 16 steps, the handler four steps later, and its return after three
more. -/
theorem unwinding_nested :
    let start := nestedProgram.start (BufferedConsole.ofInput "")
    let bound : RunState BufferedConsole :=
      ⟨⟨[("e", .string "Division by zero")]⟩, .ofInput ""⟩
    parse nestedSource = .ok nestedProgram ∧
      (∃ c handler, start.after 16 = some c ∧ c.control = .raised .divisionByZero ∧
        c.after 4 = some handler ∧ handler.control = .block [.ret (some (.identifier "e"))] ∧
        handler.state = bound) ∧
      nestedProgram.EndsWith (.ofInput "") (.done (.returned (.string "Division by zero")) bound) := by
  intro start bound
  have hparse : parse nestedSource = .ok nestedProgram := by decide +kernel
  refine ⟨hparse, ?_, ?_⟩
  · obtain ⟨c, hc, hcontrol, henclosing, hstate⟩ : ∃ c, start.after 16 = some c ∧
        c.control = .raised .divisionByZero ∧
        c.enclosing = [.rest [], .attempt "ValueError" "v" [], .rest []] ++
          .attempt "Error" "e" [.ret (some (.identifier "e"))] :: c.enclosing.drop 4 ∧
        c.state = ⟨.empty, .ofInput ""⟩ := ⟨_, rfl, rfl, rfl, rfl⟩
    have hinner : ∀ within ∈
        ([.rest [], .attempt "ValueError" "v" [], .rest []] : List Enclosing),
        ¬within.Takes .divisionByZero := by
      simp [Enclosing.Takes, RuntimeError.kind]
    obtain ⟨-, hcaught, -⟩ := ((unwinding nestedSource nestedProgram hparse _ c ⟨16, hc⟩).2
      _ hcontrol).1 _ "Error" "e" _ _ henclosing hinner (.inl rfl)
    refine ⟨c, _, hc, hcontrol, hcaught, rfl, ?_⟩
    rw [hstate]
    rfl
  · obtain ⟨c, hc, hcontrol, hstate⟩ : ∃ c, start.after 23 = some c ∧
        c.control = .value (.string "Division by zero") (.use .ret) ∧ c.state = bound :=
      ⟨_, rfl, rfl, rfl⟩
    have hreturn := ((unwinding nestedSource nestedProgram hparse _ c ⟨23, hc⟩).1
      _ (.inl hcontrol)).2
    rwa [hstate] at hreturn

end VnScript
