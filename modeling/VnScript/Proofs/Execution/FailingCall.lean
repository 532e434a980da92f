import VnScript.Proofs.Execution.Consoles
import VnScript.Proofs.Execution.Unwinding

namespace VnScript

namespace RecordedConsole

/-- The same console, but its call with the number `n` fails. -/
def failing (n : Nat) (c : RecordedConsole) : RecordedConsole := { c with failAt := some n }

theorem failsNow_failing (n : Nat) (c : RecordedConsole) :
    (c.failing n).failsNow ↔ n = c.events.size := by
  simp [failsNow, failing]

end RecordedConsole

def ConsoleCall.Records : ConsoleCall → ConsoleEvent → Prop
  | .line text, event => event = .line text
  | .prompt text, event => event = .prompt text
  | .read, event => ∃ line, event = .read line

section Perform

variable {c : RecordedConsole} (call : ConsoleCall)

theorem perform_recorded (h : c.failAt = none) :
    ∃ v event script, call.Records event ∧
      call.perform c = (.ok v, { c with script := script, events := c.events.push event }) := by
  obtain ⟨script, failAt, reason, events⟩ := c
  subst h
  cases call with
  | line text => exact ⟨_, _, _, rfl, rfl⟩
  | prompt text => exact ⟨_, _, _, rfl, rfl⟩
  | read => cases script <;> exact ⟨_, _, _, ⟨_, rfl⟩, rfl⟩

theorem perform_failing {n : Nat} (h : c.failAt = none) (hn : n ≠ c.events.size) :
    call.perform (c.failing n) = ((call.perform c).1, (call.perform c).2.failing n) := by
  have hnow : ¬(c.failing n).failsNow := mt (RecordedConsole.failsNow_failing n c).1 hn
  have hnever : ¬c.failsNow := by simp [RecordedConsole.failsNow, h]
  cases call with
  | line text | prompt text =>
    simp only [ConsoleCall.perform, Console.writeLine, Console.writePrompt, RecordedConsole.write,
      if_neg hnow, if_neg hnever]
    rfl
  | read =>
    simp only [ConsoleCall.perform, Console.readLine, RecordedConsole.read, if_neg hnow,
      if_neg hnever]
    obtain ⟨script, failAt, reason, events⟩ := c
    cases script <;> rfl

theorem perform_fails (c : RecordedConsole) :
    call.perform (c.failing c.events.size) =
      (.error c.reason, (c.failing c.events.size).record .failure) := by
  have hnow : (c.failing c.events.size).failsNow :=
    (RecordedConsole.failsNow_failing _ c).2 rfl
  cases call with
  | line text | prompt text =>
    simp only [ConsoleCall.perform, Console.writeLine, Console.writePrompt, RecordedConsole.write,
      if_pos hnow]
    rfl
  | read =>
    simp only [ConsoleCall.perform, Console.readLine, RecordedConsole.read, if_pos hnow]
    rfl

theorem perform_grows (c : RecordedConsole) :
    ∃ event, (call.perform c).2.events = c.events.push event := by
  cases call with
  | line text | prompt text =>
    simp only [ConsoleCall.perform, Console.writeLine, Console.writePrompt, RecordedConsole.write]
    split <;> exact ⟨_, rfl⟩
  | read =>
    simp only [ConsoleCall.perform, Console.readLine, RecordedConsole.read]
    split
    · exact ⟨_, rfl⟩
    · split <;> exact ⟨_, rfl⟩

end Perform

/-- The same state, with a console whose call with the number `n` fails. -/
def RunState.failing (n : Nat) (s : RunState RecordedConsole) : RunState RecordedConsole :=
  { s with console := s.console.failing n }

def Outcome.mapState {σ α : Type} (f : RunState σ → RunState σ) : Outcome σ α → Outcome σ α
  | .done a s => .done a (f s)
  | .failed e s => .failed e (f s)
  | .unfinished => .unfinished

namespace Machine.Config

def failing (n : Nat) (c : Config RecordedConsole) : Config RecordedConsole :=
  { c with state := c.state.failing n }

def events (c : Config RecordedConsole) : List ConsoleEvent := c.state.console.events.toList

variable {c c' d : Config RecordedConsole} {n : Nat}

theorem step_failing (h : c.state.console.failAt = none)
    (hn : ∀ call k, c.control = .call call k → c.events.length ≠ n) :
    (c.failing n).step = c.step.map (failing n) := by
  refine step_mapConsole (RecordedConsole.failing n) fun call k hc => ?_
  exact perform_failing call h (Ne.symm (hn call k hc))

theorem step_recorded (h : c.state.console.failAt = none) (hstep : c.step = some c') :
    c'.state.console.failAt = none ∧ c'.state.console.reason = c.state.console.reason ∧
      ((∃ call k event, c.control = .call call k ∧ call.Records event ∧
          c'.events = c.events ++ [event]) ∨
        (∀ call k, c.control ≠ .call call k) ∧ c'.events = c.events) := by
  by_cases hcall : ∃ call k, c.control = .call call k
  · obtain ⟨call, k, hc⟩ := hcall
    obtain ⟨v, event, script, hrecords, hperform⟩ := perform_recorded call h
    obtain ⟨control, enclosing, s⟩ := c
    obtain rfl : control = .call call k := hc
    rw [step_call, hperform] at hstep
    cases hstep
    exact ⟨h, rfl, .inl ⟨call, k, event, rfl, hrecords, Array.toList_push⟩⟩
  · have hsilent (call : ConsoleCall) (k : Waiting) : c.control ≠ .call call k :=
      fun hc => hcall ⟨call, k, hc⟩
    rw [step_silent hsilent] at hstep
    obtain ⟨point, -, rfl⟩ := Option.map_eq_some_iff.1 hstep
    exact ⟨h, rfl, .inr ⟨hsilent, rfl⟩⟩

theorem step_grows (hstep : c.step = some c') : c.events <+: c'.events := by
  by_cases hcall : ∃ call k, c.control = .call call k
  · obtain ⟨call, k, hc⟩ := hcall
    obtain ⟨event, hevents⟩ := perform_grows call c.state.console
    obtain ⟨control, enclosing, s⟩ := c
    obtain rfl : control = .call call k := hc
    rw [step_call] at hstep
    cases hstep
    refine ⟨[event], ?_⟩
    simp only [events, hevents, Array.toList_push]
  · rw [step_silent fun call k hc => hcall ⟨call, k, hc⟩] at hstep
    obtain ⟨point, -, rfl⟩ := Option.map_eq_some_iff.1 hstep
    exact List.prefix_rfl

theorem LeadsTo.grows (h : c.LeadsTo d) : c.events <+: d.events := by
  obtain ⟨N, hN⟩ := h
  induction N generalizing c with
  | zero =>
    cases hN
    exact List.prefix_rfl
  | succ N ih =>
    obtain ⟨c', hstep, hN⟩ := Option.bind_eq_some_iff.1 hN
    exact (step_grows hstep).trans (ih hN)

/-- Both runs are the same throughout, or up to the call that fails. -/
theorem lockstep {N : Nat} (h : c.state.console.failAt = none) (hn : c.events.length ≤ n)
    (hN : c.after N = some d) :
    (d.events.length ≤ n ∧ (c.failing n).LeadsTo (d.failing n)) ∨
      ∃ (c' c'' : Config RecordedConsole) (call : ConsoleCall) (k : Waiting) (event : ConsoleEvent),
        (c.failing n).LeadsTo (c'.failing n) ∧ c'.control = .call call k ∧
          c'.state.console.reason = c.state.console.reason ∧ c'.events.length = n ∧
          call.Records event ∧ c''.events = c'.events ++ [event] ∧ c''.LeadsTo d := by
  -- By induction on the steps: the consoles differ only in the call that is to fail.
  induction N generalizing c with
  | zero =>
    cases hN
    exact .inl ⟨hn, .refl _⟩
  | succ N ih =>
    obtain ⟨c', hstep, hN⟩ := Option.bind_eq_some_iff.1 hN
    obtain ⟨hfree, hreason, hevents⟩ := step_recorded h hstep
    by_cases hnext : ∃ call k, c.control = .call call k ∧ c.events.length = n
    · obtain ⟨call, k, hc, hlength⟩ := hnext
      obtain ⟨call', k', event, hc', hrecords, hevents⟩ | ⟨hsilent, -⟩ := hevents
      · exact .inr ⟨c, c', call', k', event, .refl _, hc', rfl, hlength, hrecords, hevents, N, hN⟩
      · exact absurd hc (hsilent call k)
    · have hsame : (c.failing n).step = some (c'.failing n) := by
        rw [step_failing h fun call k hc hlength => hnext ⟨call, k, hc, hlength⟩, hstep]
        rfl
      have hle : c'.events.length ≤ n := by
        obtain ⟨call, k, event, hc, -, hevents⟩ | ⟨-, hevents⟩ := hevents
        · have hne : c.events.length ≠ n := fun hlength => hnext ⟨call, k, hc, hlength⟩
          rw [hevents, List.length_append, List.length_singleton]
          omega
        · rwa [hevents]
      obtain ⟨hd, hlead⟩ | ⟨c₁, c₂, call, k, event, hlead, hc, hr, hrest⟩ := ih hfree hle hN
      · exact .inl ⟨hd, .step hsame hlead⟩
      · exact .inr ⟨c₁, c₂, call, k, event, .step hsame hlead, hc, hr.trans hreason, hrest⟩

theorem step_fails {call : ConsoleCall} {k : Waiting} (hc : c.control = .call call k)
    (hn : c.events.length = n) :
    (c.failing n).step = some ⟨.raised (.console c.state.console.reason), c.enclosing,
      { c.state with console := (c.state.console.failing n).record .failure }⟩ := by
  have hperform := perform_fails call c.state.console
  obtain ⟨control, enclosing, s⟩ := c
  obtain rfl : control = .call call k := hc
  obtain rfl : s.console.events.size = n := hn
  change step ⟨.call call k, enclosing, s.failing _⟩ = _
  rw [step_call, RunState.failing, hperform]
  rfl

theorem LeadsTo.recorded {event : ConsoleEvent} (h : c'.events = c.events ++ [event])
    (hlength : c.events.length = n) (hd : c'.LeadsTo d) :
    c.events = d.events.take n ∧ d.events[n]? = some event := by
  obtain ⟨rest, hrest⟩ := hd.grows
  rw [h, List.append_assoc] at hrest
  rw [← hrest]
  exact ⟨(List.take_left' hlength).symm, by simp [← hlength]⟩

theorem state_of_result {o : Outcome RecordedConsole Flow} (h : d.result? = some o) :
    o.state? = some d.state := by
  obtain ⟨-, ⟨f, -, rfl⟩ | ⟨e, -, rfl⟩⟩ := result_inv h <;> rfl

theorem start_state (p : Program) (console : RecordedConsole) :
    (p.start console).state = ⟨.empty, console⟩ := by
  unfold Program.start
  cases p.function? "main" <;> rfl

theorem start_failing (p : Program) (console : RecordedConsole) (n : Nat) :
    (p.start console).failing n = p.start (console.failing n) := by
  unfold Program.start
  cases p.function? "main" <;> rfl

/-- A run that ends in this way ends in that way, but for the console, where it is the same. -/
theorem Ends.failing {o : Outcome RecordedConsole Flow} (h : d.result? = some o)
    (hd : (c.failing n).LeadsTo (d.failing n)) :
    (c.failing n).Ends (o.mapState (RunState.failing n)) := by
  refine ⟨d.failing n, hd, ?_⟩
  obtain ⟨control, enclosing, s⟩ := d
  obtain ⟨he, ⟨f, hc, rfl⟩ | ⟨e, hc, rfl⟩⟩ := result_inv h
  · obtain rfl : control = .flow f := hc
    obtain rfl : enclosing = [] := he
    rfl
  · obtain rfl : control = .raised e := hc
    obtain rfl : enclosing = [] := he
    rfl

end Machine.Config

open Machine

/-- The same run, but the call with the number `n` fails. If fewer calls are made, the run ends the
same. Otherwise it makes the calls before that one, then one that would be recorded like it; that
call fails, and the run ends with the error of the console, or goes on in a handler for it. -/
theorem failing_call (p : Program) (script : List (Option String)) (reason : String)
    (o : Outcome RecordedConsole Flow) (s : RunState RecordedConsole)
    (ho : p.EndsWith ⟨script, none, reason, #[]⟩ o) (hs : o.state? = some s) (n : Nat) :
    let calls := s.console.events.toList
    let console : RecordedConsole := ⟨script, some n, reason, #[]⟩
    (calls.length ≤ n → p.EndsWith console (o.mapState (RunState.failing n))) ∧
    ∀ hn : n < calls.length,
      ∃ (c c' : Config RecordedConsole) (call : ConsoleCall) (k : Machine.Waiting),
        (p.start console).LeadsTo c ∧ c.control = .call call k ∧ call.Records calls[n] ∧
        c.events = calls.take n ∧
        c.step = some c' ∧ c'.control = .raised (.console reason) ∧
        c'.state.environment = c.state.environment ∧ c'.events = calls.take n ++ [.failure] ∧
        (∀ d, c'.LeadsTo d → calls.take n ++ [.failure] <+: d.events) ∧
        (p.EndsWith console (.failed (.console reason) c'.state) ∨
          ∃ errorType binding handler outer,
            (∃ inner, c'.enclosing = inner ++ .attempt errorType binding handler :: outer) ∧
            (errorType = "CError" ∨ errorType = "Error") ∧
            c'.LeadsTo ⟨.block handler, outer, { c'.state with
              environment := c'.state.environment.insert binding
                (.string (RuntimeError.console reason).message) }⟩) := by
  intro calls console
  let free : RecordedConsole := ⟨script, none, reason, #[]⟩
  obtain ⟨d, ⟨N, hN⟩, hresult⟩ := (p.ends_iff _ o).2 ho
  have hevents : d.events = calls := by
    obtain rfl : d.state = s := Option.some.inj ((Config.state_of_result hresult).symm.trans hs)
    rfl
  have hstate : (p.start free).state = ⟨.empty, free⟩ := Config.start_state p free
  have hstart : (p.start free).failing n = p.start console := Config.start_failing p free n
  have hlock := Config.lockstep (n := n) (by rw [hstate]) (by simp [Config.events, hstate, free]) hN
  rw [hstart, hevents] at hlock
  obtain ⟨hle, hlead⟩ | ⟨c, c', call, k, event, hlead, hc, hr, hlength, hrecords, hnext, hd⟩ := hlock
  · -- Fewer calls are made than the one that is to fail.
    refine ⟨fun _ => (p.ends_iff _ _).1 ?_, fun hn => absurd hle (Nat.not_le.2 hn)⟩
    rw [← hstart] at hlead ⊢
    exact Config.Ends.failing hresult hlead
  · -- The call with the number `n` is made, and fails.
    obtain ⟨htake, hget⟩ := Config.LeadsTo.recorded hnext hlength hd
    rw [hevents] at htake hget
    obtain ⟨hlt, hget⟩ := List.getElem?_eq_some_iff.1 hget
    refine ⟨fun hle => absurd hlt (Nat.not_lt.2 hle), fun hn => ?_⟩
    have hreason : c.state.console.reason = reason := by rw [hr, hstate]
    have hstep := Config.step_fails hc hlength
    rw [hreason] at hstep
    have hfailure : ((c.state.console.failing n).record .failure).events.toList =
        calls.take n ++ [.failure] := by
      rw [← htake]
      exact Array.toList_push
    refine ⟨_, _, call, k, hlead, hc, hget ▸ hrecords, htake, hstep, rfl, rfl, hfailure, ?_, ?_⟩
    · intro d hd
      rw [← hfailure]
      exact hd.grows
    · refine (Config.raised_ends_or_caught (.console reason) c.enclosing { c.state with
        console := (c.state.console.failing n).record .failure }).imp ?_ ?_
      · intro hends
        exact (p.ends_iff console _).1 (hends.of_leads (hlead.trans (.step hstep (.refl _))))
      · rintro ⟨inner, errorType, binding, handler, outer, heq, ht, hcaught⟩
        exact ⟨errorType, binding, handler, outer, ⟨inner, heq⟩, ht.symm, hcaught⟩

/-- A body that asks for a line and prints it, with a handler that prints why it could not. -/
def echoProgram : Program :=
  ⟨[.function ⟨none, "main", [], [.attempt
    [.expr (.assign "x" (.call (.named "System") "input" [.string "? "])),
      .expr (.call (.named "System") "print" [.identifier "x"])]
    "CError" "e" [.expr (.call (.named "System") "print" [.identifier "e"])]]⟩]⟩

/-- Of the three calls, the read fails where it is the call that is to fail. Where that is a call
behind the third one, nothing changes. -/
theorem failing_call_read :
    let s : RunState RecordedConsole := ⟨⟨[("x", .string "a")]⟩,
      [], none, "closed", #[.prompt "? ", .read (some "a"), .line "a"]⟩
    echoProgram.EndsWith ⟨[some "a"], none, "closed", #[]⟩ (.done .next s) ∧
      echoProgram.EndsWith ⟨[some "a"], some 3, "closed", #[]⟩ (.done .next (s.failing 3)) ∧
      ∃ (c c' : Config RecordedConsole) (k : Machine.Waiting),
        (echoProgram.start ⟨[some "a"], some 1, "closed", #[]⟩).LeadsTo c ∧
          c.control = .call .read k ∧ c.step = some c' ∧
          c'.control = .raised (.console "closed") ∧ c'.events = [.prompt "? ", .failure] := by
  intro s
  have hends : echoProgram.EndsWith ⟨[some "a"], none, "closed", #[]⟩ (.done .next s) :=
    Program.endsWith_of_run (show echoProgram.run 0 _ = _ from rfl) nofun
  refine ⟨hends, (failing_call _ _ _ _ s hends rfl 3).1 (by decide), ?_⟩
  obtain ⟨c, c', call, k, hlead, hc, hrecords, -, hstep, hraised, -, hevents, -⟩ :=
    (failing_call _ _ _ _ s hends rfl 1).2 (by decide)
  cases call with
  | read => exact ⟨c, c', k, hlead, hc, hstep, hraised, hevents⟩
  | line _ | prompt _ => cases hrecords

end VnScript
