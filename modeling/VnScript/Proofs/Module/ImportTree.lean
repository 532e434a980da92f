import Mathlib.Data.List.Chain
import VnScript.Proofs.Module.LinkOrder

namespace VnScript

open Relation

variable {read : String → Except ResolveError Program}

/-- A module can be read with all that it imports, directly or not, and on no way down
from the modules of the chain does one occur twice. -/
inductive Loads (read : String → Except ResolveError Program) : List String → String → Prop
  | intro {chain : List String} {name : String} {q : Program} (hn : name ∉ chain)
      (hr : read name = .ok q)
      (imports : ∀ i ∈ importedNames q.declarations, Loads read (chain ++ [name]) i) :
      Loads read chain name

/-- The first problem that a search without a memory meets. It goes through the imports of
each module in order, and the trail is the chain of modules that it is in then. -/
inductive FirstProblem (read : String → Except ResolveError Program) :
    List String → String → List String → ResolveError → Prop
  | circle {chain : List String} {name : String} (hn : name ∈ chain) :
      FirstProblem read chain name chain (.circular name (chain ++ [name]))
  | unread {chain : List String} {name : String} {e : ResolveError} (hn : name ∉ chain)
      (hr : read name = .error e) : FirstProblem read chain name (chain ++ [name]) e
  | imported {chain before after trail : List String} {name i : String} {q : Program}
      {e : ResolveError} (hn : name ∉ chain) (hr : read name = .ok q)
      (hq : importedNames q.declarations = before ++ i :: after)
      (hb : ∀ k ∈ before, Loads read (chain ++ [name]) k)
      (problem : FirstProblem read (chain ++ [name]) i trail e) :
      FirstProblem read chain name trail e

variable {chain trail trail' : List String} {name : String} {e e' : ResolveError}

theorem leads_iff {q : Program} {i : String} (hr : read name = .ok q) :
    Leads (importsBy read) name i ↔ i ∈ importedNames q.declarations := by
  simp [Leads, importsBy, hr]

theorem Loads.of_leads (h : Loads read chain name) {i : String}
    (hi : Leads (importsBy read) name i) : Loads read (chain ++ [name]) i := by
  obtain ⟨hn, hr, imports⟩ := h
  exact imports i ((leads_iff hr).1 hi)

theorem Loads.readable (h : Loads read chain name) : ∃ q, read name = .ok q := by
  obtain ⟨hn, hr, imports⟩ := h
  exact ⟨_, hr⟩

theorem Loads.of_transGen (h : Loads read chain name) {m : String}
    (hm : TransGen (Leads (importsBy read)) name m) :
    ∃ chain', name ∈ chain' ∧ Loads read chain' m := by
  induction hm with
  | single hi => exact ⟨_, by simp, h.of_leads hi⟩
  | tail _ hi ih =>
    obtain ⟨chain', hmem, hl⟩ := ih
    exact ⟨_, List.mem_append_left _ hmem, hl.of_leads hi⟩

theorem Loads.of_reflTransGen (h : Loads read chain name) {m : String}
    (hm : ReflTransGen (Leads (importsBy read)) name m) : ∃ chain', Loads read chain' m := by
  obtain rfl | hm := reflTransGen_iff_eq_or_transGen.1 hm
  · exact ⟨chain, h⟩
  · obtain ⟨chain', -, hl⟩ := h.of_transGen hm
    exact ⟨chain', hl⟩

theorem Loads.not_circular (h : Loads read chain name) :
    ¬ TransGen (Leads (importsBy read)) name name := by
  intro hc
  obtain ⟨chain', hmem, hn, -, -⟩ := h.of_transGen hc
  exact hn hmem

namespace FirstProblem

theorem not_loads (h : FirstProblem read chain name trail e) : ¬ Loads read chain name := by
  induction h with
  | circle hn => exact fun ⟨hn', _, _⟩ => hn' hn
  | unread hn hr =>
    rintro ⟨-, hr', -⟩
    rw [hr] at hr'
    cases hr'
  | imported hn hr hq hb problem ih =>
    intro hl
    exact ih (hl.of_leads ((leads_iff hr).2 (by simp [hq])))

theorem functional (h : FirstProblem read chain name trail e)
    (h' : FirstProblem read chain name trail' e') : trail = trail' ∧ e = e' := by
  induction h generalizing trail' e' with
  | circle hn =>
    cases h' with
    | circle => exact ⟨rfl, rfl⟩
    | unread hn' | imported hn' => exact absurd hn hn'
  | unread hn hr =>
    cases h' with
    | circle hn' => exact absurd hn' hn
    | unread _ hr' => exact ⟨rfl, by simpa [hr] using hr'⟩
    | imported _ hr' => simp [hr] at hr'
  | imported hn hr hq hb problem ih =>
    cases h' with
    | circle hn' => exact absurd hn' hn
    | unread _ hr' => simp [hr] at hr'
    | imported _ hr' hq' hb' problem' =>
      obtain rfl : _ = _ := Except.ok.inj (hr.symm.trans hr')
      -- An import before the one with the problem has none.
      obtain ⟨c, rfl⟩ | ⟨rfl, rfl⟩ | ⟨c, rfl, -⟩ := append_cons_eq_append_cons (hq.symm.trans hq')
      · exact absurd (hb _ (by simp)) problem'.not_loads
      · exact ih problem'
      · exact absurd (hb' _ (by simp)) problem.not_loads

theorem chain_prefix (h : FirstProblem read chain name trail e) : chain <+: trail := by
  induction h with
  | circle => exact List.prefix_refl _
  | unread => exact List.prefix_append _ _
  | imported hn hr hq hb problem ih => exact (List.prefix_append _ _).trans ih

theorem enters (h : FirstProblem read chain name trail e) (hn : name ∉ chain) :
    chain ++ [name] <+: trail := by
  cases h with
  | circle hn' => exact absurd hn' hn
  | unread => exact List.prefix_refl _
  | imported _ _ _ _ problem => exact problem.chain_prefix

/-- The problem is a module of the trail that is imported once more, or the last module of
the trail. The trail is a path of imports. -/
theorem path (h : FirstProblem read chain name trail e)
    (hp : (chain ++ [name]).IsChain (Leads (importsBy read))) :
    (∃ k ∈ trail, e = .circular k (trail ++ [k]) ∧
      (trail ++ [k]).IsChain (Leads (importsBy read))) ∨
    ∃ t k, trail = t ++ [k] ∧ read k = .error e ∧ trail.IsChain (Leads (importsBy read)) := by
  induction h with
  | @circle chain name hn => exact Or.inl ⟨name, hn, rfl, hp⟩
  | @unread chain name e hn hr => exact Or.inr ⟨chain, name, rfl, hr, hp⟩
  | @imported chain before after trail name i q e hn hr hq hb problem ih =>
    apply ih
    rw [List.append_assoc, List.singleton_append, List.isChain_append_cons_cons]
    exact ⟨hp, (leads_iff hr).2 (by simp [hq]), List.isChain_singleton i⟩

end FirstProblem

theorem transGen_of_isChain {α : Type} {next : α → List α} {a b : α} {l : List α}
    (h : (l ++ [b]).IsChain (Leads next)) (ha : a ∈ l) : TransGen (Leads next) a b := by
  obtain ⟨l₁, l₂, rfl⟩ := List.append_of_mem ha
  rw [List.append_assoc] at h
  have hpath : (a :: (l₂ ++ [b])).IsChain (Leads next) := h.right_of_append
  exact (hpath.imp fun _ _ => TransGen.single).rel_cons (by simp)

namespace FirstProblem

theorem mem_trail (h : FirstProblem read [] name trail e) : name ∈ trail := by
  obtain ⟨t, rfl⟩ := h.enters (by simp)
  simp

/-- The modules of the trail lead to one that cannot be read or imports itself. -/
theorem reachable (h : FirstProblem read [] name trail e) {m : String} (hm : m ∈ trail) :
    ∃ k, ReflTransGen (Leads (importsBy read)) m k ∧
      (read k = .error e ∨ TransGen (Leads (importsBy read)) k k) := by
  obtain ⟨k, hk, -, hp⟩ | ⟨t, k, rfl, hr, hp⟩ := h.path (List.isChain_singleton name)
  · have hcirc : TransGen (Leads (importsBy read)) k k := transGen_of_isChain hp hk
    exact ⟨k, (transGen_of_isChain hp hm).to_reflTransGen, Or.inr hcirc⟩
  · obtain hm | hm := List.mem_append.1 hm
    · exact ⟨k, (transGen_of_isChain hp hm).to_reflTransGen, Or.inl hr⟩
    · obtain rfl : m = k := by simpa using hm
      exact ⟨m, ReflTransGen.refl, Or.inl hr⟩

/-- A circle is reported as a path of imports from the module that was asked for to the
module that occurs twice. -/
theorem circular_path {k : String} (h : FirstProblem read [] name trail (.circular k chain))
    (hread : ∀ n, read n ≠ .error (.circular k chain)) :
    ∃ l, chain = name :: l ++ [k] ∧ k ∈ name :: l ∧ chain.IsChain (Leads (importsBy read)) := by
  obtain ⟨l, rfl⟩ := h.enters (by simp)
  obtain ⟨k', hk, he, hp⟩ | ⟨t, k', -, hr, -⟩ := h.path (List.isChain_singleton name)
  · obtain ⟨rfl, rfl⟩ := ResolveError.circular.inj he
    exact ⟨l, rfl, hk, hp⟩
  · exact absurd hr (hread k')

end FirstProblem

/-- Where a search comes to an end, a module loads exactly if all that it leads to can be
read and no module among it imports itself, directly or not. -/
theorem loads_iff (h : Loads read [] name ∨ ∃ trail e, FirstProblem read [] name trail e) :
    Loads read [] name ↔ ∀ m, ReflTransGen (Leads (importsBy read)) name m →
      (∃ q, read m = .ok q) ∧ ¬ TransGen (Leads (importsBy read)) m m := by
  constructor
  · intro hl m hm
    obtain ⟨chain', hl'⟩ := hl.of_reflTransGen hm
    exact ⟨hl'.readable, hl'.not_circular⟩
  · intro hall
    obtain hl | ⟨trail, e, hp⟩ := h
    · exact hl
    · obtain ⟨m, hm, hbad⟩ := hp.reachable hp.mem_trail
      obtain ⟨⟨q, hq⟩, hc⟩ := hall m hm
      obtain hr | hcirc := hbad
      · rw [hq] at hr
        cases hr
      · exact absurd hcirc hc

end VnScript
