import VnScript.Proofs.Module.ImportTree

namespace VnScript

section Lookup

variable {α : Type} {l : List (String × α)} {name other : String} {a : α}

theorem lookup_cons_self : ((name, a) :: l).lookup name = some a := by simp

theorem lookup_cons_of_ne (h : other ≠ name) : ((name, a) :: l).lookup other = l.lookup other := by
  rw [List.lookup_cons, beq_eq_false_iff_ne.2 h]

end Lookup

namespace Resolver

variable {files : Files} {r r' : Resolver} {name : String}

/-- Modules that are kept are kept once, and after all that they import. The list begins
with the one that was kept last. -/
inductive Settled : List (String × Module) → Prop
  | nil : Settled []
  | cons {name : String} {m : Module} {kept : List (String × Module)}
      (fresh : kept.lookup name = none)
      (imports : ∀ i ∈ m.program.imports, (kept.lookup i).isSome) (rest : Settled kept) :
      Settled ((name, m) :: kept)

structure Consistent (r : Resolver) : Prop where
  settled : Settled r.kept
  nodup : r.pending.Nodup
  apart : ∀ n ∈ r.pending, r.kept.lookup n = none

/-- What a name would be read as: a module that is kept, or what the files hold. -/
def source (files : Files) (r : Resolver) (name : String) : Except ResolveError Program :=
  match r.kept.lookup name with
  | some m => .ok m.program
  | none => readModule files r.roots name

theorem source_kept {m : Module} (h : r.kept.lookup name = some m) :
    source files r name = .ok m.program := by
  rw [source, h]

theorem source_unkept (h : r.kept.lookup name = none) :
    source files r name = readModule files r.roots name := by
  rw [source, h]

/-- A module that is kept loads, since its imports were kept before it. -/
theorem Settled.loads {kept : List (String × Module)} (h : Settled kept)
    {read : String → Except ResolveError Program}
    (hread : ∀ n m, kept.lookup n = some m → read n = .ok m.program) {chain : List String}
    (hchain : ∀ n ∈ chain, kept.lookup n = none) (hname : (kept.lookup name).isSome) :
    Loads read chain name := by
  -- By induction on the order in which the modules were kept: imports come before.
  induction h generalizing chain name with
  | nil => simp at hname
  | @cons other m kept fresh imports rest ih =>
    have hne {n : String} {k : Module} (hn : kept.lookup n = some k) : n ≠ other := by
      rintro rfl
      rw [fresh] at hn
      cases hn
    have hread' : ∀ n k, kept.lookup n = some k → read n = .ok k.program := fun n k hn =>
      hread n k (by rwa [lookup_cons_of_ne (hne hn)])
    have hchain' : ∀ n ∈ chain, n ≠ other ∧ kept.lookup n = none := by
      intro n hn
      have hnone := hchain n hn
      have h : n ≠ other := by
        rintro rfl
        simp at hnone
      exact ⟨h, by rwa [lookup_cons_of_ne h] at hnone⟩
    by_cases h : name = other
    · subst h
      refine .intro (fun hn => (hchain' name hn).1 rfl) (hread name m lookup_cons_self) ?_
      intro i hi
      apply ih hread' _ (imports i (m.program.imports_eq ▸ hi))
      intro n hn
      obtain hn | hn := List.mem_append.1 hn
      · exact (hchain' n hn).2
      · obtain rfl : n = name := by simpa using hn
        exact fresh
    · rw [lookup_cons_of_ne h] at hname
      exact ih hread' (fun n hn => (hchain' n hn).2) hname

theorem consistent_ofRoots (roots : List String) : (ofRoots roots).Consistent :=
  ⟨.nil, List.nodup_nil, by simp [ofRoots]⟩

theorem Consistent.loads_kept (h : r.Consistent) (hn : (r.kept.lookup name).isSome) :
    Loads (source files r) r.pending name :=
  h.settled.loads (fun _ _ => source_kept) h.apart hn

theorem Consistent.enter (h : r.Consistent) (hk : r.kept.lookup name = none)
    (hp : name ∉ r.pending) : (r.enter name).Consistent := by
  refine ⟨h.settled, ?_, ?_⟩
  · exact h.nodup.append (List.nodup_singleton name) (List.disjoint_singleton.2 hp)
  · exact List.forall_mem_append.2 ⟨h.apart, by simpa [Resolver.enter] using hk⟩

theorem Consistent.leave (h : r.Consistent) : r.leave.Consistent :=
  ⟨h.settled, h.nodup.sublist (List.dropLast_sublist _),
    fun n hn => h.apart n (List.dropLast_subset _ hn)⟩

theorem Consistent.countModule (h : r.Consistent) : r.countModule.Consistent :=
  ⟨h.settled, h.nodup, h.apart⟩

theorem Consistent.keep {m : Module} (h : r.Consistent) (hk : r.kept.lookup name = none)
    (hp : name ∉ r.pending) (hi : ∀ i ∈ m.program.imports, (r.kept.lookup i).isSome) :
    (r.keep name m).Consistent := by
  refine ⟨.cons hk hi h.settled, h.nodup, ?_⟩
  intro n hn
  have hne : n ≠ name := fun he => hp (he ▸ hn)
  exact (lookup_cons_of_ne hne).trans (h.apart n hn)

/-- What calls leave as it was. They only add to what is kept. -/
structure Extends (r r' : Resolver) : Prop where
  roots : r'.roots = r.roots
  pending : r'.pending = r.pending
  grows : ∀ n m, r.kept.lookup n = some m → r'.kept.lookup n = some m

/-- While the files stay the same, what is kept is what they hold. -/
structure Preserved (files : Files) (r r' : Resolver) : Prop extends Extends r r' where
  source : Resolver.source files r' = Resolver.source files r

theorem Extends.refl (r : Resolver) : Extends r r := ⟨rfl, rfl, fun _ _ h => h⟩

theorem Extends.trans {r'' : Resolver} (h : Extends r r') (h' : Extends r' r'') : Extends r r'' :=
  ⟨h'.roots.trans h.roots, h'.pending.trans h.pending, fun n m hm => h'.grows n m (h.grows n m hm)⟩

theorem Preserved.refl (r : Resolver) : Preserved files r r := ⟨.refl r, rfl⟩

theorem Preserved.trans {r'' : Resolver} (h : Preserved files r r')
    (h' : Preserved files r' r'') : Preserved files r r'' :=
  ⟨h.toExtends.trans h'.toExtends, h'.source.trans h.source⟩

theorem Preserved.isSome (h : Preserved files r r') (hn : (r.kept.lookup name).isSome) :
    (r'.kept.lookup name).isSome := by
  obtain ⟨m, hm⟩ := Option.isSome_iff_exists.1 hn
  rw [h.grows name m hm]
  rfl

theorem Preserved.leave (h : Preserved files (r.enter name) r') : Preserved files r r'.leave :=
  ⟨⟨h.roots, by simp [Resolver.leave, h.pending, Resolver.enter], h.grows⟩, h.source⟩

theorem Preserved.countModule (h : Preserved files r r') : Preserved files r r'.countModule :=
  ⟨⟨h.roots, h.pending, h.grows⟩, h.source⟩

theorem Preserved.keep {m : Module} (h : Preserved files r r') (hk : r'.kept.lookup name = none)
    (hm : readModule files r.roots name = .ok m.program) :
    Preserved files r (r'.keep name m) := by
  refine ⟨⟨h.roots, h.pending, ?_⟩, ?_⟩
  · intro n k hn
    have hn' := h.grows n k hn
    have hne : n ≠ name := by
      rintro rfl
      rw [hk] at hn'
      cases hn'
    exact (lookup_cons_of_ne hne).trans hn'
  · rw [← h.source]
    funext n
    by_cases hne : n = name
    · subst hne
      rw [source_kept (lookup_cons_self : (r'.keep n m).kept.lookup n = some m), source_unkept hk,
        h.roots, hm]
    · have hl : (r'.keep name m).kept.lookup n = r'.kept.lookup n := lookup_cons_of_ne hne
      simp only [Resolver.source, hl]
      rfl

end Resolver

end VnScript
