import VnScript.Proofs.Execution.Machine

namespace VnScript

namespace Machine.Config

variable {σ : Type} [Console σ]

theorem step_call (call : ConsoleCall) (k : Waiting) (enclosing : List Enclosing) (s : RunState σ) :
    step ⟨.call call k, enclosing, s⟩ =
      some ⟨.ofExcept ((call.perform s.console).1.mapError .console) k, enclosing,
        { s with console := (call.perform s.console).2 }⟩ := by
  simp only [step]
  cases h : call.perform s.console with
  | mk r console => cases r <;> rfl

/-- Without a call, a step neither asks the console nor changes it. -/
theorem step_silent {c : Config σ} (h : ∀ call k, c.control ≠ .call call k) :
    c.step = (next? c.enclosing c.state.environment c.control).map fun point =>
      ⟨point.1, point.2.1, { c.state with environment := point.2.2 }⟩ := by
  obtain ⟨control, enclosing, s⟩ := c
  cases control with
  | call call k => exact absurd rfl (h call k)
  | _ => rfl

theorem after_add (m n : Nat) (c : Config σ) : c.after (m + n) = (c.after m).bind (after n) := by
  induction m generalizing c with
  | zero => simp [after]
  | succ m ih =>
    rw [Nat.add_right_comm, after, after]
    cases h : c.step with
    | none => rfl
    | some c' => exact ih c'

def LeadsTo (c c' : Config σ) : Prop := ∃ n, c.after n = some c'

theorem LeadsTo.refl (c : Config σ) : c.LeadsTo c := ⟨0, rfl⟩

theorem LeadsTo.trans {c c' c'' : Config σ} (h : c.LeadsTo c') (h' : c'.LeadsTo c'') :
    c.LeadsTo c'' := by
  obtain ⟨m, hm⟩ := h
  obtain ⟨n, hn⟩ := h'
  exact ⟨m + n, by rw [after_add, hm, Option.bind_some, hn]⟩

theorem LeadsTo.step {c c' c'' : Config σ} (h : c.step = some c') (h' : c'.LeadsTo c'') :
    c.LeadsTo c'' := by
  obtain ⟨n, hn⟩ := h'
  exact ⟨n + 1, by rw [after, h, Option.bind_some, hn]⟩

theorem isSome_after_of_le {m n : Nat} {c : Config σ} (hmn : m ≤ n) (h : (c.after n).isSome) :
    (c.after m).isSome := by
  obtain ⟨k, rfl⟩ := Nat.exists_eq_add_of_le hmn
  rw [after_add] at h
  cases hm : c.after m with
  | none =>
    rw [hm] at h
    cases h
  | some c' => rfl

omit [Console σ] in
theorem result_inv {c : Config σ} {o : Outcome σ Flow} (h : c.result? = some o) :
    c.enclosing = [] ∧ ((∃ f, c.control = .flow f ∧ o = .done f c.state) ∨
      ∃ e, c.control = .raised e ∧ o = .failed e c.state) := by
  obtain ⟨control, enclosing, s⟩ := c
  unfold result? at h
  split at h
  · rename_i f hc he
    exact ⟨he, .inl ⟨f, hc, (Option.some.inj h).symm⟩⟩
  · rename_i e hc he
    exact ⟨he, .inr ⟨e, hc, (Option.some.inj h).symm⟩⟩
  · cases h

theorem step_of_result {c : Config σ} {o : Outcome σ Flow} (h : c.result? = some o) :
    c.step = none := by
  obtain ⟨control, enclosing, s⟩ := c
  obtain ⟨he, ⟨f, hc, -⟩ | ⟨e, hc, -⟩⟩ := result_inv h
  · cases he
    cases hc
    cases f <;> rfl
  · cases he
    cases hc
    rfl

/-- The run ends, and with this outcome. -/
def Ends (c : Config σ) (o : Outcome σ Flow) : Prop := ∃ c', c.LeadsTo c' ∧ c'.result? = some o

theorem Ends.of_leads {c c' : Config σ} {o : Outcome σ Flow} (h : c.LeadsTo c') (ho : c'.Ends o) :
    c.Ends o := by
  obtain ⟨d, hd, hresult⟩ := ho
  exact ⟨d, h.trans hd, hresult⟩

theorem Ends.along {c c' : Config σ} {o : Outcome σ Flow} (ho : c.Ends o) (h : c.LeadsTo c') :
    c'.Ends o := by
  obtain ⟨d, ⟨m, hm⟩, hresult⟩ := ho
  obtain ⟨n, hn⟩ := h
  obtain hle | hge := Nat.le_total n m
  · obtain ⟨k, rfl⟩ := Nat.exists_eq_add_of_le hle
    rw [after_add, hn] at hm
    exact ⟨d, ⟨k, hm⟩, hresult⟩
  · obtain ⟨k, rfl⟩ := Nat.exists_eq_add_of_le hge
    rw [after_add, hm] at hn
    cases k with
    | zero =>
      cases hn
      exact ⟨_, .refl _, hresult⟩
    | succ k =>
      rw [Option.bind_some, after, step_of_result hresult] at hn
      cases hn

theorem Ends.unique {c : Config σ} {o o' : Outcome σ Flow} (h : c.Ends o) (h' : c.Ends o') :
    o = o' := by
  obtain ⟨d, hd, hresult⟩ := h'
  obtain ⟨d', ⟨n, hn⟩, hresult'⟩ := h.along hd
  cases n with
  | zero =>
    cases hn
    exact Option.some.inj (hresult'.symm.trans hresult)
  | succ n =>
    rw [after, step_of_result hresult] at hn
    cases hn

theorem Ends.finished {c : Config σ} {o : Outcome σ Flow} (h : c.Ends o) : o ≠ .unfinished := by
  obtain ⟨d, -, hresult⟩ := h
  obtain ⟨-, ⟨f, -, rfl⟩ | ⟨e, -, rfl⟩⟩ := result_inv hresult <;> nofun

end Machine.Config

end VnScript
