import VnScript.Proofs.Module.Calls

namespace VnScript

open HoldsResolver Relation

namespace Resolver

variable {files : Files} {roots : List String} {name : String} {h h' : History}
  {x : Except ResolveError Module}

theorem exists_afterCalls_ofRoots (calls : List (Files × Call)) (roots : List String) :
    ∃ h, afterCalls calls (History.start (ofRoots roots)) = some h ∧
      afterCalls calls (ofRoots roots) = some h.now ∧ h.Sound ∧ h.now.pending = [] ∧
      ∀ files, (∀ c ∈ calls, c.1 = files) → source files h.now = readModule files roots := by
  have hs := History.sound_start (consistent_ofRoots roots)
  obtain ⟨h, hr, hp, he, hs', -, hsrc⟩ := exists_afterCalls calls hs
  exact ⟨h, hr, hp, hs', he.pending, hsrc⟩

theorem Resolves.loads_iff (c : Resolves files name h x h') (hp : h.now.pending = []) :
    (∃ m, x = .ok m) ↔ Loads (source files h.now) [] name := by
  have ho := c.outcome
  cases x with
  | ok m =>
    rw [Outcome, hp] at ho
    exact ⟨fun _ => ho.2, fun _ => ⟨m, rfl⟩⟩
  | error e =>
    rw [Outcome, Met, hp] at ho
    obtain ⟨trail, hprob, -⟩ := ho
    exact ⟨fun ⟨m, hm⟩ => (nomatch hm), fun hl => absurd hl hprob.not_loads⟩

theorem Resolves.problem {e : ResolveError} (c : Resolves files name h (.error e) h')
    (hp : h.now.pending = []) : ∃ trail, FirstProblem (source files h.now) [] name trail e ∧
      ∃ r ∈ h'.states, r.pending = trail := by
  have ho := c.outcome
  rwa [Outcome, Met, hp] at ho

/-- Whatever has been resolved and linked before, a name is resolved as it would be first of
all: exactly if all that it leads to can be read and nothing among it imports itself,
directly or not. Otherwise the first problem on the way through the imports is given. A
circle is given as the path of imports that closes it. -/
theorem resolve_after_calls (files : Files) (roots : List String) (calls : List Call)
    (name : String) :
    ∃ read : String → Except ResolveError Program,
      (∀ n x, Reads files roots n x ↔ read n = x) ∧
      ∃ r x r' x₀ r₀,
        afterCalls (calls.map fun call => (files, call)) (ofRoots roots) = some r ∧
        resolve files name r = some (x, r') ∧
        resolve files name (ofRoots roots) = some (x₀, r₀) ∧
        x.map Module.program = x₀.map Module.program ∧
        ((∃ m, x = .ok m) ↔ ∀ n, ReflTransGen (Leads (importsBy read)) name n →
          Readable files roots n ∧ ¬ TransGen (Leads (importsBy read)) n n) ∧
        (∀ m, x = .ok m → Reads files roots name (.ok m.program)) ∧
        (∀ e, x = .error e → ∃ trail, FirstProblem read [] name trail e) ∧
        ∀ k chain, x = .error (.circular k chain) →
          ∃ l, chain = name :: l ++ [k] ∧ k ∈ name :: l ∧
            chain.IsChain (Leads (importsBy read)) := by
  refine ⟨readModule files roots, fun _ _ => reads_iff, ?_⟩
  obtain ⟨h, -, hplain, hs, hp, hsrc⟩ :=
    exists_afterCalls_ofRoots (calls.map fun call => (files, call)) roots
  replace hsrc : source files h.now = readModule files roots := hsrc files (by simp)
  have hs₀ : (History.start (ofRoots roots)).Sound :=
    History.sound_start (consistent_ofRoots roots)
  -- The name is resolved behind the calls and first of all; both read the same files.
  obtain ⟨x, h', c⟩ := exists_resolves files name hs
  obtain ⟨x₀, h₀, c₀⟩ := exists_resolves files name hs₀
  have hloads := c.loads_iff hp
  have hproblem : ∀ e, x = .error e →
      ∃ trail, FirstProblem (readModule files roots) [] name trail e := by
    rintro e rfl
    obtain ⟨trail, hprob, -⟩ := c.problem hp
    exact ⟨trail, hsrc ▸ hprob⟩
  rw [hsrc] at hloads
  refine ⟨h.now, x, h'.now, x₀, h₀.now, hplain, c.plain, c₀.plain, ?_, ?_, ?_, hproblem, ?_⟩
  · exact c₀.program_eq c hsrc hp
  · have hends : Loads (readModule files roots) [] name ∨
        ∃ trail e, FirstProblem (readModule files roots) [] name trail e := by
      cases x with
      | ok m => exact Or.inl (hloads.1 ⟨m, rfl⟩)
      | error e =>
        obtain ⟨trail, hprob⟩ := hproblem e rfl
        exact Or.inr ⟨trail, e, hprob⟩
    rw [hloads, VnScript.loads_iff hends]
    simp only [readable_iff]
  · rintro m rfl
    rw [reads_iff, ← hsrc]
    exact c.source_eq
  · rintro k chain rfl
    obtain ⟨trail, hprob⟩ := hproblem _ rfl
    exact hprob.circular_path fun n => readModule_ne_circular

end Resolver

end VnScript
