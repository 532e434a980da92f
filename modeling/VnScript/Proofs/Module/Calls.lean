import VnScript.Proofs.Module.Search

namespace VnScript

open HoldsResolver Relation

inductive Call where
  | resolve (name : String)
  | link (p : Program)

def Call.after {ρ : Type} [HoldsResolver ρ] (files : Files) (s : ρ) : Call → Option ρ
  | resolve name => (Resolver.resolve files name s).map Prod.snd
  | link p => ((Resolver.link files p).run.run s).map Prod.snd

/-- The state after calls, each of which finds the files as they are then. -/
def afterCalls {ρ : Type} [HoldsResolver ρ] (calls : List (Files × Call)) (s : ρ) : Option ρ :=
  calls.foldlM (fun s (files, call) => call.after files s) s

namespace Resolver

variable {files : Files} {name : String} {h h' h₁ h₁' : History}
  {x x₁ : Except ResolveError Module}

theorem Resolves.source_eq {m : Module} (c : Resolves files name h (.ok m) h') :
    source files h.now name = .ok m.program := by
  rw [← c.course.preserved.source]
  exact source_kept c.outcome.1

/-- Calls that find the same in the files and in what is kept have the same outcome. -/
theorem Resolves.program_eq (c : Resolves files name h x h') (c₁ : Resolves files name h₁ x₁ h₁')
    (hs : source files h₁.now = source files h.now) (hp : h₁.now.pending = h.now.pending) :
    x₁.map Module.program = x.map Module.program := by
  have ho := c₁.outcome
  cases x with
  | ok m =>
    cases x₁ with
    | ok m₁ =>
      have heq := c₁.source_eq
      rw [hs, c.source_eq] at heq
      exact heq.symm
    | error e₁ =>
      obtain ⟨trail, hprob, -⟩ := ho
      rw [hs, hp] at hprob
      exact absurd c.outcome.2 hprob.not_loads
  | error e =>
    obtain ⟨trail, hprob, -⟩ := c.outcome
    cases x₁ with
    | ok m₁ =>
      obtain ⟨-, hl⟩ := ho
      rw [hs, hp] at hl
      exact absurd hl hprob.not_loads
    | error e₁ =>
      obtain ⟨trail₁, hprob₁, -⟩ := ho
      rw [hs, hp] at hprob₁
      obtain ⟨-, rfl⟩ := hprob.functional hprob₁
      rfl

def answer (files : Files) (r : Resolver) (name : String) : Except ResolveError Program :=
  match resolve files name r with
  | some (x, _) => x.map Module.program
  | none => .error (.notFound name [])

theorem Resolves.answer_eq (hs : h.Sound) (hc : Course files h h₁)
    (c : Resolves files name h₁ x h₁') : answer files h.now name = x.map Module.program := by
  obtain ⟨x₀, h₀, c₀⟩ := exists_resolves files name hs
  rw [answer, c₀.plain]
  exact (c₀.program_eq c hc.preserved.source hc.preserved.pending).symm

theorem imports_of_answer (hs : h.Sound) {q : Program} (hq : answer files h.now name = .ok q) :
    q.imports ⊆ h.now.kept.flatMap (fun p => p.2.program.imports) ++ importable files := by
  obtain ⟨x, h', c⟩ := exists_resolves files name hs
  rw [c.answer_eq hs (.refl hs)] at hq
  cases x with
  | error e => cases hq
  | ok m =>
    obtain rfl : m.program = q := Except.ok.inj hq
    have hsrc := c.source_eq
    cases hk : h.now.kept.lookup name with
    | none =>
      rw [source_unkept hk] at hsrc
      exact List.subset_append_of_subset_right _ (imports_subset_importable hsrc)
    | some k =>
      rw [source_kept hk, Except.ok.injEq] at hsrc
      rw [← hsrc]
      obtain ⟨before, after, he, -⟩ := List.lookup_eq_some_iff.1 hk
      apply List.subset_append_of_subset_left
      intro i hi
      exact List.mem_flatMap.2 ⟨(name, k), by simp [he], hi⟩

def afterAll (files : Files) (names : List String) (h : History) : Option History :=
  names.foldlM (fun h name => (resolve files name h).map Prod.snd) h

theorem afterAll_append {names : List String} (ha : afterAll files names h = some h₁)
    (c : Resolves files name h₁ x h₁') : afterAll files (names ++ [name]) h = some h₁' := by
  rw [afterAll, List.foldlM_append]
  change (afterAll files names h).bind _ = _
  rw [ha]
  simp [c.remembered]

section View

variable {ρ : Type} [HoldsResolver ρ] {s s' : ρ}

theorem resolveProgram_of_resolve (hr : resolve files name s = some (x, s')) :
    (resolveProgram files name).run.run s = some (x.map Module.program, s') := by
  cases x with
  | ok m => exact Resolving.bind_ok (x := resolve files name) hr
  | error e => exact Resolving.bind_error (x := resolve files name) hr

/-- Within a link, modules are answered as they would be at its beginning. The link may see
all of the history or only its present. -/
theorem answersAs_view (files : Files) (view : History → ρ) (hs : h.Sound)
    (hview : ∀ name h x h', Resolves files name h x h' →
      resolve files name (view h) = some (x, view h')) :
    AnswersAs (resolveProgram files)
      (fun asked s => ∃ h₁, view h₁ = s ∧ Course files h h₁ ∧ afterAll files asked h = some h₁)
      (answer files h.now) := by
  rintro asked _ name ⟨h₁, rfl, hc, ha⟩
  obtain ⟨x, h', c⟩ := exists_resolves files name hc.sound
  rw [c.answer_eq hs hc]
  exact ⟨view h', resolveProgram_of_resolve (hview _ _ _ _ c), h', rfl, hc.trans c.course,
    afterAll_append ha c⟩

end View

/-- Every link comes to an end, in the same way whether or not the resolver remembers its
states: it resolves the same modules in the same order. It fails only if one of them does. -/
theorem exists_links (files : Files) (p : Program) (hs : h.Sound) :
    ∃ x h', (link files p).run.run h = some (x, h') ∧
      (link files p).run.run h.now = some (x, h'.now) ∧ Course files h h' ∧
      ∀ e, x = .error e → ∃ n, answer files h.now n = .error e := by
  have hbound : ∀ n q, answer files h.now n = .ok q → q.imports ⊆ _ :=
    fun n q hq => imports_of_answer hs hq
  obtain ⟨pre, post, hd⟩ := exists_depthFirst _ hbound p.imports
  have all := answersAs_view files id hs fun _ _ _ _ c => c.remembered
  have present := answersAs_view files History.now hs fun _ _ _ _ c => c.plain
  obtain hok | ⟨before, n, after, e, hpre, hb, he⟩ := first_unanswered (answer files h.now) pre
  · obtain ⟨_, hrun, h', rfl, hc, ha⟩ := link_ok all hd hok ⟨h, rfl, .refl hs, rfl⟩
    obtain ⟨_, hrun', h₁, rfl, -, ha'⟩ := link_ok present hd hok ⟨h, rfl, .refl hs, rfl⟩
    obtain rfl : h' = h₁ := Option.some.inj (ha.symm.trans ha')
    exact ⟨_, h', hrun, hrun', hc, by simp⟩
  · obtain ⟨_, hrun, h', rfl, hc, ha⟩ := link_error all hd hpre hb he ⟨h, rfl, .refl hs, rfl⟩
    obtain ⟨_, hrun', h₁, rfl, -, ha'⟩ := link_error present hd hpre hb he ⟨h, rfl, .refl hs, rfl⟩
    obtain rfl : h' = h₁ := Option.some.inj (ha.symm.trans ha')
    refine ⟨_, h', hrun, hrun', hc, ?_⟩
    rintro e' ⟨⟩
    exact ⟨n, he⟩

theorem exists_after (files : Files) (call : Call) (hs : h.Sound) :
    ∃ h', call.after files h = some h' ∧ call.after files h.now = some h'.now ∧
      Course files h h' := by
  cases call with
  | resolve name =>
    obtain ⟨x, h', c⟩ := exists_resolves files name hs
    exact ⟨h', by simp [Call.after, c.remembered], by simp [Call.after, c.plain], c.course⟩
  | link p =>
    obtain ⟨x, h', hr, hp, hc, -⟩ := exists_links files p hs
    exact ⟨h', by simp [Call.after, hr], by simp [Call.after, hp], hc⟩

theorem exists_afterCalls (calls : List (Files × Call)) (hs : h.Sound) :
    ∃ h', afterCalls calls h = some h' ∧ afterCalls calls h.now = some h'.now ∧
      Extends h.now h'.now ∧ h'.Sound ∧ h.states ⊆ h'.states ∧
      ∀ files, (∀ c ∈ calls, c.1 = files) → source files h'.now = source files h.now := by
  induction calls generalizing h with
  | nil => exact ⟨h, rfl, rfl, .refl h.now, hs, List.Subset.refl _, fun _ _ => rfl⟩
  | cons c calls ih =>
    obtain ⟨files, call⟩ := c
    obtain ⟨h₁, hr, hp, hc⟩ := exists_after files call hs
    obtain ⟨h₂, hr', hp', he, hs', hm, hsrc⟩ := ih hc.sound
    refine ⟨h₂, ?_, ?_, hc.preserved.toExtends.trans he, hs', List.Subset.trans hc.remembers hm, ?_⟩
    · change (call.after files h).bind (afterCalls calls) = _
      rw [hr]
      exact hr'
    · change (call.after files h.now).bind (afterCalls calls) = _
      rw [hp]
      exact hp'
    · intro files' hall
      obtain ⟨rfl, hall⟩ := List.forall_mem_cons.1 hall
      exact (hsrc _ hall).trans hc.preserved.source

end Resolver

end VnScript
