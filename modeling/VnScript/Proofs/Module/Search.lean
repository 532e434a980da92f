import VnScript.Proofs.Module.Consistency
import VnScript.Proofs.Module.Reading

namespace VnScript

open HoldsResolver

/-- A resolver together with the states that it has been in before. -/
structure History where
  now : Resolver
  past : List Resolver

namespace History

instance : HoldsResolver History where
  resolver h := h.now
  update f h := ⟨f h.now, h.now :: h.past⟩

def start (r : Resolver) : History := ⟨r, []⟩

def states (h : History) : List Resolver := h.now :: h.past

/-- The resolver has been consistent all the time. -/
def Sound (h : History) : Prop := ∀ r ∈ h.states, r.Consistent

theorem sound_start {r : Resolver} (h : r.Consistent) : (start r).Sound := by
  simpa [Sound, start, states] using h

theorem Sound.now {h : History} (hs : h.Sound) : h.now.Consistent := hs h.now (by simp [states])

theorem Sound.update {h : History} (hs : h.Sound) {f : Resolver → Resolver}
    (hf : (f h.now).Consistent) : (HoldsResolver.update f h).Sound :=
  List.forall_mem_cons.2 ⟨hf, hs⟩

theorem states_subset_update (f : Resolver → Resolver) (h : History) :
    h.states ⊆ (HoldsResolver.update f h).states := List.subset_cons_self _ _

end History

namespace Resolver

section Equations

variable {ρ : Type} [HoldsResolver ρ] {files : Files} {name : String} {s s' : ρ}

/-- Resolve names in order, for the sake of the state. -/
def resolveAll (files : Files) (names : List String) : Resolving ρ PUnit :=
  names.forM (m := Resolving ρ) fun imported => do
    let _ ← resolve files imported

theorem resolveAll_cons_ok {m : Module} {names : List String}
    (h : resolve files name s = some (.ok m, s')) :
    (resolveAll files (name :: names)).run.run s = (resolveAll files names).run.run s' := by
  have hn : (do let _ ← resolve files name : Resolving ρ PUnit).run.run s =
      some (.ok PUnit.unit, s') := Resolving.bind_ok (x := resolve files name) h
  exact Resolving.bind_ok hn

theorem resolveAll_cons_error {e : ResolveError} {names : List String}
    (h : resolve files name s = some (.error e, s')) :
    (resolveAll files (name :: names)).run.run s = some (.error e, s') := by
  have hn : (do let _ ← resolve files name : Resolving ρ PUnit).run.run s =
      some (.error e, s') := Resolving.bind_error (x := resolve files name) h
  exact Resolving.bind_error hn

theorem load_unread {e : ResolveError} (h : readModule files (resolver s).roots name = .error e) :
    load files name s = some (.error e, s) := by
  have hget : (get : Resolving ρ ρ).run.run s = some (.ok s, s) := rfl
  rw [load, Resolving.bind_ok hget, h]
  rfl

theorem load_read {q : Program} (h : readModule files (resolver s).roots name = .ok q) :
    load files name s = (do
      resolveAll files q.imports
      let number := (resolver (← get)).nextNumber
      modify (update countModule)
      return ⟨q, number⟩ : Resolving ρ Module).run.run s := by
  have hget : (get : Resolving ρ ρ).run.run s = some (.ok s, s) := rfl
  rw [load, Resolving.bind_ok hget, h]
  rfl

theorem load_failed {q : Program} {e : ResolveError}
    (h : readModule files (resolver s).roots name = .ok q)
    (hi : (resolveAll files q.imports).run.run s = some (.error e, s')) :
    load files name s = some (.error e, s') := by
  rw [load_read h]
  exact Resolving.bind_error hi

theorem load_done {q : Program} (h : readModule files (resolver s).roots name = .ok q)
    (hi : (resolveAll files q.imports).run.run s = some (.ok PUnit.unit, s')) :
    load files name s =
      some (.ok ⟨q, (resolver s').nextNumber⟩, update countModule s') := by
  rw [load_read h]
  exact Resolving.bind_ok hi

theorem resolve_kept {m : Module} (h : (resolver s).kept.lookup name = some m) :
    resolve files name s = some (.ok m, s) := by
  rw [resolve, h]

theorem resolve_circle (h : (resolver s).kept.lookup name = none)
    (hp : name ∈ (resolver s).pending) :
    resolve files name s =
      some (.error (.circular name ((resolver s).pending ++ [name])), s) := by
  rw [resolve, h]
  exact if_pos (by simpa using hp)

theorem resolve_failed {e : ResolveError} (h : (resolver s).kept.lookup name = none)
    (hp : name ∉ (resolver s).pending)
    (hl : load files name (update (enter name) s) = some (.error e, s')) :
    resolve files name s = some (.error e, update leave s') := by
  rw [resolve, h]
  simp only [List.contains_eq_mem, hp, decide_false, Bool.false_eq_true, ↓reduceIte, hl]
  rfl

theorem resolve_loaded {m : Module} (h : (resolver s).kept.lookup name = none)
    (hp : name ∉ (resolver s).pending)
    (hl : load files name (update (enter name) s) = some (.ok m, s')) :
    resolve files name s = some (.ok m, update (keep name m) (update leave s')) := by
  rw [resolve, h]
  simp only [List.contains_eq_mem, hp, decide_false, Bool.false_eq_true, ↓reduceIte, hl]
  rfl

end Equations

variable {files : Files} {name : String} {h h' h₁ : History}

/-- The course of a call, as far as it does not hang on its outcome. -/
structure Course (files : Files) (h h' : History) : Prop where
  preserved : Preserved files h.now h'.now
  sound : h'.Sound
  remembers : h.states ⊆ h'.states

theorem Course.refl (hs : h.Sound) : Course files h h := ⟨.refl h.now, hs, List.Subset.refl _⟩

theorem Course.trans (c : Course files h h₁) (c' : Course files h₁ h') : Course files h h' :=
  ⟨c.preserved.trans c'.preserved, c'.sound, List.Subset.trans c.remembers c'.remembers⟩

theorem Course.thenUpdate {f : Resolver → Resolver} (c : Course files h h')
    (hp : Preserved files h.now (f h'.now)) (hc : (f h'.now).Consistent) :
    Course files h (update f h') :=
  ⟨hp, c.sound.update hc, List.Subset.trans c.remembers (History.states_subset_update f h')⟩

theorem Course.thenLeave (c : Course files (update (enter name) h) h') :
    Course files h (update leave h') :=
  ⟨c.preserved.leave, c.sound.update c.sound.now.leave,
    List.Subset.trans (History.states_subset_update _ h)
      (List.Subset.trans c.remembers (History.states_subset_update _ h'))⟩

/-- A problem was met, at a time when the modules of the trail were pending. -/
def Met (files : Files) (h : History) (name : String) (e : ResolveError) (h' : History) : Prop :=
  ∃ trail, FirstProblem (source files h.now) h.now.pending name trail e ∧
    ∃ r ∈ h'.states, r.pending = trail

/-- What the outcome of a call says: either the module is kept and loads, or there is a
problem and this is the first. -/
def Outcome (files : Files) (h : History) (name : String) (h' : History) :
    Except ResolveError Module → Prop
  | .ok m => h'.now.kept.lookup name = some m ∧ Loads (source files h.now) h.now.pending name
  | .error e => Met files h name e h'

/-- A call that comes to an end, in the same way whether or not the resolver remembers
its states. -/
structure Resolves (files : Files) (name : String) (h : History) (x : Except ResolveError Module)
    (h' : History) : Prop where
  remembered : resolve files name h = some (x, h')
  plain : resolve files name h.now = some (x, h'.now)
  course : Course files h h'
  outcome : Outcome files h name h' x

structure ResolvesAll (files : Files) (names : List String) (h : History)
    (x : Except ResolveError PUnit) (h' : History) : Prop where
  remembered : (resolveAll files names).run.run h = some (x, h')
  plain : (resolveAll files names).run.run h.now = some (x, h'.now)
  course : Course files h h'
  ok : x = .ok PUnit.unit → ∀ i ∈ names,
    Loads (source files h.now) h.now.pending i ∧ (h'.now.kept.lookup i).isSome
  error : ∀ e, x = .error e → ∃ before i after, names = before ++ i :: after ∧
    (∀ k ∈ before, Loads (source files h.now) h.now.pending k) ∧ Met files h i e h'

theorem Met.from (c : Course files h h₁) {e : ResolveError} (hm : Met files h₁ name e h') :
    Met files h name e h' := by
  obtain ⟨trail, hp, hrest⟩ := hm
  rw [c.preserved.source, c.preserved.pending] at hp
  exact ⟨trail, hp, hrest⟩

theorem exists_resolvesAll {names : List String} (hs : h.Sound)
    (ih : ∀ i ∈ names, ∀ h₁ : History, h₁.Sound → h₁.now.pending = h.now.pending →
      ∃ x h', Resolves files i h₁ x h') :
    ∃ x h', ResolvesAll files names h x h' := by
  induction names generalizing h with
  | nil => exact ⟨_, h, rfl, rfl, .refl hs, by simp, by simp⟩
  | cons i names ihn =>
    obtain ⟨x, h₁, hr, hp, c, ho⟩ := ih i (by simp) h hs rfl
    cases x with
    | error e =>
      refine ⟨.error e, h₁, resolveAll_cons_error hr, resolveAll_cons_error hp, c, by simp, ?_⟩
      rintro e' ⟨⟩
      exact ⟨[], i, names, rfl, by simp, ho⟩
    | ok m =>
      obtain ⟨hk, hl⟩ := ho
      obtain ⟨y, h₂, hr', hp', c', hok, herr⟩ := ihn c.sound fun k hk h₃ hs₃ hp₃ =>
        ih k (by simp [hk]) h₃ hs₃ (hp₃.trans c.preserved.pending)
      rw [c.preserved.source, c.preserved.pending] at hok herr
      refine ⟨y, h₂, (resolveAll_cons_ok hr).trans hr', (resolveAll_cons_ok hp).trans hp',
        c.trans c', ?_, ?_⟩
      · intro hy
        have hi : (h₁.now.kept.lookup i).isSome := by simp [hk]
        exact List.forall_mem_cons.2 ⟨⟨hl, c'.preserved.isSome hi⟩, hok hy⟩
      · intro e hy
        obtain ⟨before, k, after, rfl, hb, hm⟩ := herr e hy
        exact ⟨i :: before, k, after, rfl, List.forall_mem_cons.2 ⟨hl, hb⟩, hm.from c⟩

theorem resolves_kept {m : Module} (hs : h.Sound) (hk : h.now.kept.lookup name = some m) :
    Resolves files name h (.ok m) h :=
  ⟨resolve_kept hk, resolve_kept hk, .refl hs, hk, hs.now.loads_kept (by simp [hk])⟩

section Entered

variable {q : Program} {e : ResolveError}

theorem resolves_circle (hs : h.Sound) (hk : h.now.kept.lookup name = none)
    (hp : name ∈ h.now.pending) :
    Resolves files name h (.error (.circular name (h.now.pending ++ [name]))) h :=
  ⟨resolve_circle hk hp, resolve_circle hk hp, .refl hs, h.now.pending, .circle hp, h.now,
    by simp [History.states], rfl⟩

theorem resolves_unread (hs : h.Sound) (hk : h.now.kept.lookup name = none)
    (hp : name ∉ h.now.pending) (hq : readModule files h.now.roots name = .error e) :
    Resolves files name h (.error e) (update leave (update (enter name) h)) := by
  have hs₁ : (update (enter name) h).Sound := hs.update (hs.now.enter hk hp)
  have hsrc : source files h.now name = .error e := (source_unkept hk).trans hq
  have hl : load files name (update (enter name) h) = some (.error e, update (enter name) h) :=
    load_unread hq
  have hl' : load files name (h.now.enter name) = some (.error e, h.now.enter name) :=
    load_unread hq
  exact ⟨resolve_failed hk hp hl, resolve_failed hk hp hl', (Course.refl hs₁).thenLeave,
    h.now.pending ++ [name], .unread hp hsrc, h.now.enter name,
    by simp [History.states, update], rfl⟩

theorem resolves_failed (hk : h.now.kept.lookup name = none) (hp : name ∉ h.now.pending)
    (hq : readModule files h.now.roots name = .ok q)
    (hi : ResolvesAll files q.imports (update (enter name) h) (.error e) h') :
    Resolves files name h (.error e) (update leave h') := by
  have hsrc : source files h.now name = .ok q := (source_unkept hk).trans hq
  have hl := load_failed (s := update (enter name) h) hq hi.remembered
  have hl' := load_failed (s := h.now.enter name) hq hi.plain
  obtain ⟨before, i, after, himports, hb, trail, hprob, r, hm, hr⟩ := hi.error e rfl
  exact ⟨resolve_failed hk hp hl, resolve_failed hk hp hl', hi.course.thenLeave, trail,
    .imported hp hsrc (q.imports_eq ▸ himports) hb hprob, r, History.states_subset_update leave h' hm, hr⟩

theorem resolves_loaded (hk : h.now.kept.lookup name = none) (hp : name ∉ h.now.pending)
    (hq : readModule files h.now.roots name = .ok q)
    (hi : ResolvesAll files q.imports (update (enter name) h) (.ok PUnit.unit) h') :
    Resolves files name h (.ok ⟨q, h'.now.nextNumber⟩)
      (update (keep name ⟨q, h'.now.nextNumber⟩) (update leave (update countModule h'))) := by
  have c := hi.course
  have hl := load_done (s := update (enter name) h) hq hi.remembered
  have hl' := load_done (s := h.now.enter name) hq hi.plain
  have hsrc : source files h.now name = .ok q := (source_unkept hk).trans hq
  have hpend : h'.now.pending = h.now.pending ++ [name] := c.preserved.pending
  have hfresh : h'.now.kept.lookup name = none := c.sound.now.apart name (by simp [hpend])
  have hleft : h'.now.countModule.leave.pending = h.now.pending := by
    simp [leave, countModule, hpend]
  have hcons : (h'.now.countModule.leave.keep name ⟨q, h'.now.nextNumber⟩).Consistent :=
    c.sound.now.countModule.leave.keep hfresh (by rwa [hleft]) fun i hi' => (hi.ok rfl i hi').2
  have hpres : Preserved files h.now (h'.now.countModule.leave.keep name ⟨q, h'.now.nextNumber⟩) :=
    c.preserved.countModule.leave.keep hfresh hq
  have hcount : Course files (update (enter name) h) (update countModule h') :=
    c.thenUpdate c.preserved.countModule c.sound.now.countModule
  exact ⟨resolve_loaded hk hp hl, resolve_loaded hk hp hl', hcount.thenLeave.thenUpdate hpres hcons,
    lookup_cons_self, .intro hp hsrc fun i hi' => (hi.ok rfl i (q.imports_eq ▸ hi')).1⟩

end Entered

/-- A module comes to an end once all its imports do. It is entered before them, and left
after them, whatever becomes of them. -/
theorem exists_resolves_of_imports (hs : h.Sound)
    (ih : name ∉ h.now.pending → ∀ q, readModule files h.now.roots name = .ok q →
      ∀ i ∈ q.imports, ∀ h₁ : History, h₁.Sound → h₁.now.pending = h.now.pending ++ [name] →
        ∃ x h', Resolves files i h₁ x h') :
    ∃ x h', Resolves files name h x h' := by
  cases hk : h.now.kept.lookup name with
  | some m => exact ⟨_, _, resolves_kept hs hk⟩
  | none =>
    by_cases hp : name ∈ h.now.pending
    · exact ⟨_, _, resolves_circle hs hk hp⟩
    cases hq : readModule files h.now.roots name with
    | error e => exact ⟨_, _, resolves_unread hs hk hp hq⟩
    | ok q =>
      have hs₁ : (update (enter name) h).Sound := hs.update (hs.now.enter hk hp)
      obtain ⟨x, h₂, hi⟩ := exists_resolvesAll hs₁ (ih hp q hq)
      cases x with
      | error e => exact ⟨_, _, resolves_failed hk hp hq hi⟩
      | ok u => exact ⟨_, _, resolves_loaded hk hp hq hi⟩

theorem exists_resolves_importable (files : Files) (k : Nat) :
    ∀ name ∈ importable files, ∀ h : History, h.Sound →
      countOutside (importable files) h.now.pending ≤ k → ∃ x h', Resolves files name h x h' := by
  -- A module is pending once at most, and there are only so many that anything imports.
  induction k using Nat.strong_induction_on with
  | _ k ih =>
    intro name hn h hs hk
    refine exists_resolves_of_imports hs fun hp q hq i hi h₁ hs₁ hp₁ => ?_
    have hlt : countOutside (importable files) h₁.now.pending < k := by
      rw [hp₁]
      exact (countOutside_lt (List.subset_append_left _ _) hn hp (by simp)).trans_le hk
    exact ih _ hlt i (imports_subset_importable hq hi) h₁ hs₁ le_rfl

theorem exists_resolves (files : Files) (name : String) (hs : h.Sound) :
    ∃ x h', Resolves files name h x h' :=
  exists_resolves_of_imports hs fun _ _ hq i hi h₁ hs₁ _ =>
    exists_resolves_importable files _ i (imports_subset_importable hq hi) h₁ hs₁ le_rfl

end Resolver

end VnScript
