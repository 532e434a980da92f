import VnScript.Proofs.Execution.Adequacy

namespace VnScript

variable {σ τ α : Type}

def RunState.mapConsole (f : σ → τ) (s : RunState σ) : RunState τ := ⟨s.environment, f s.console⟩

/-- The same ending on the console that `f` gives. -/
def Outcome.mapConsole (f : σ → τ) : Outcome σ α → Outcome τ α
  | .done a s => .done a (s.mapConsole f)
  | .failed e s => .failed e (s.mapConsole f)
  | .unfinished => .unfinished

def Machine.Config.mapConsole (f : σ → τ) (c : Config σ) : Config τ :=
  ⟨c.control, c.enclosing, c.state.mapConsole f⟩

theorem Program.mapConsole_start (p : Program) (f : σ → τ) (console : σ) :
    (p.start console).mapConsole f = p.start (f console) := by
  unfold Program.start
  cases p.function? "main" <;> rfl

variable [Console σ] [Console τ]

/-- A console and the one that `f` gives for it answer alike and stay so. -/
structure Console.Along (f : σ → τ) : Prop where
  writeLine (text : String) (c : σ) :
    Console.writeLine text (f c) = (Console.writeLine text c).map id f
  writePrompt (text : String) (c : σ) :
    Console.writePrompt text (f c) = (Console.writePrompt text c).map id f
  readLine (c : σ) : Console.readLine (f c) = (Console.readLine c).map id f

variable {f : σ → τ}

theorem Console.Along.perform (h : Console.Along f) (call : ConsoleCall) (c : σ) :
    call.perform (f c) = (call.perform c).map id f := by
  cases call with
  | line text =>
    simp only [ConsoleCall.perform, h.writeLine]
    rfl
  | prompt text =>
    simp only [ConsoleCall.perform, h.writePrompt]
    rfl
  | read =>
    simp only [ConsoleCall.perform, h.readLine]
    rfl

def Console.after (calls : List ConsoleCall) (c : σ) : σ :=
  calls.foldl (fun c call => (call.perform c).2) c

theorem Console.Along.after (h : Console.Along f) (calls : List ConsoleCall) (c : σ) :
    Console.after calls (f c) = f (Console.after calls c) := by
  induction calls generalizing c with
  | nil => rfl
  | cons call calls ih =>
    change Console.after calls (call.perform (f c)).2 = f (Console.after calls (call.perform c).2)
    rw [h.perform]
    exact ih (call.perform c).2

namespace Machine.Config

theorem step_mapConsole (f : σ → τ) {c : Config σ}
    (h : ∀ call k, c.control = .call call k →
      call.perform (f c.state.console) = (call.perform c.state.console).map id f) :
    (c.mapConsole f).step = c.step.map (mapConsole f) := by
  -- Every other step leaves the console as it is.
  by_cases hcall : ∃ call k, c.control = .call call k
  · obtain ⟨call, k, hc⟩ := hcall
    have hperform := h call k hc
    obtain ⟨control, enclosing, s⟩ := c
    obtain rfl : control = .call call k := hc
    rw [step_call]
    change step ⟨.call call k, enclosing, s.mapConsole f⟩ = _
    rw [step_call, RunState.mapConsole, hperform]
    rfl
  · have hsilent (call : ConsoleCall) (k : Waiting) : c.control ≠ .call call k :=
      fun hc => hcall ⟨call, k, hc⟩
    rw [step_silent hsilent, step_silent (c := c.mapConsole f) hsilent, Option.map_map]
    rfl

variable {c : Config σ}

theorem after_mapConsole (h : Console.Along f) (n : Nat) (c : Config σ) :
    (c.mapConsole f).after n = (c.after n).map (mapConsole f) := by
  induction n generalizing c with
  | zero => rfl
  | succ n ih =>
    rw [after, after, step_mapConsole f fun call _ _ => h.perform call _]
    cases c.step with
    | none => rfl
    | some c' => exact ih c'

omit [Console σ] [Console τ] in
theorem result_mapConsole (f : σ → τ) (c : Config σ) :
    (c.mapConsole f).result? = c.result?.map (Outcome.mapConsole f) := by
  obtain ⟨control, enclosing, s⟩ := c
  cases control <;> cases enclosing <;> rfl

/-- Runs on consoles that answer alike end alike. -/
theorem ends_mapConsole (h : Console.Along f) {o : Outcome τ Flow} :
    (c.mapConsole f).Ends o ↔ ∃ o', c.Ends o' ∧ o'.mapConsole f = o := by
  constructor
  · rintro ⟨d, ⟨n, hn⟩, hresult⟩
    rw [after_mapConsole h] at hn
    obtain ⟨d', hd', rfl⟩ := Option.map_eq_some_iff.1 hn
    rw [result_mapConsole] at hresult
    obtain ⟨o', ho', ho⟩ := Option.map_eq_some_iff.1 hresult
    exact ⟨o', ⟨d', ⟨n, hd'⟩, ho'⟩, ho⟩
  · rintro ⟨o', ⟨d, ⟨n, hn⟩, hresult⟩, rfl⟩
    refine ⟨d.mapConsole f, ⟨n, ?_⟩, ?_⟩
    · rw [after_mapConsole h, hn, Option.map_some]
    · rw [result_mapConsole, hresult, Option.map_some]

end Machine.Config

theorem Program.endsWith_mapConsole (h : Console.Along f) (p : Program) (console : σ)
    (o : Outcome τ Flow) :
    p.EndsWith (f console) o ↔ ∃ o', p.EndsWith console o' ∧ o'.mapConsole f = o := by
  rw [← p.ends_iff, ← p.mapConsole_start, Machine.Config.ends_mapConsole h]
  simp only [p.ends_iff]

end VnScript
