import VnScript.Module.Resolver
import VnScript.Proofs.DepthFirst

namespace VnScript

open Relation

namespace Resolving

variable {ρ α β : Type} {x : Resolving ρ α} {f : α → Resolving ρ β} {s s' : ρ}

theorem bind_ok {a : α} (h : x.run.run s = some (.ok a, s')) :
    (x >>= f).run.run s = (f a).run.run s' := by
  change (x.run.run s).bind _ = _
  rw [h]
  rfl

theorem bind_error {e : ResolveError} (h : x.run.run s = some (.error e, s')) :
    (x >>= f).run.run s = some (.error e, s') := by
  change (x.run.run s).bind _ = _
  rw [h]
  rfl

theorem bind_eq_some {y : Except ResolveError β} {t : ρ} (h : (x >>= f).run.run s = some (y, t)) :
    (∃ a s', x.run.run s = some (.ok a, s') ∧ (f a).run.run s' = some (y, t)) ∨
      ∃ e, x.run.run s = some (.error e, t) ∧ y = .error e := by
  cases hx : x.run.run s with
  | none =>
    change (x.run.run s).bind _ = _ at h
    rw [hx] at h
    cases h
  | some r =>
    obtain ⟨r, s'⟩ := r
    cases r with
    | ok a => exact Or.inl ⟨a, s', rfl, by rwa [bind_ok hx] at h⟩
    | error e =>
      rw [bind_error hx, Option.some.injEq, Prod.mk.injEq] at h
      obtain ⟨rfl, rfl⟩ := h
      exact Or.inr ⟨e, rfl, rfl⟩

end Resolving

section Append

variable {ρ : Type} (resolve : String → Resolving ρ Program)

def appendModules (l : Linking) (names : List String) : Resolving ρ Linking :=
  names.foldlM (m := Resolving ρ) (Linking.appendModule resolve) l

variable {resolve} {l l' : Linking} {name : String} {names : List String} {s s' : ρ}

theorem appendModules_cons_ok (h : Linking.appendModule resolve l name s = some (.ok l', s')) :
    (appendModules resolve l (name :: names)).run.run s =
      (appendModules resolve l' names).run.run s' :=
  Resolving.bind_ok (x := Linking.appendModule resolve l name) h

theorem appendModules_cons_error {e : ResolveError}
    (h : Linking.appendModule resolve l name s = some (.error e, s')) :
    (appendModules resolve l (name :: names)).run.run s = some (.error e, s') :=
  Resolving.bind_error (x := Linking.appendModule resolve l name) h

theorem appendModule_seen (h : name ∈ l.visited) :
    Linking.appendModule resolve l name s = some (.ok l, s) := by
  rw [Linking.appendModule, if_pos (by simpa using h)]
  rfl

theorem appendModule_unseen (h : name ∉ l.visited) :
    Linking.appendModule resolve l name s = (do
      let module ← resolve name
      let l ← appendModules resolve { l with visited := name :: l.visited } module.imports
      return { l with declarations := l.declarations ++ module.ownDeclarations } :
        Resolving ρ Linking).run.run s := by
  rw [Linking.appendModule, if_neg (by simpa using h)]
  rfl

theorem appendModule_ok {q : Program} {s₁ : ρ} (h : name ∉ l.visited)
    (hr : (resolve name).run.run s = some (.ok q, s₁))
    (hi : (appendModules resolve { l with visited := name :: l.visited } q.imports).run.run s₁ =
      some (.ok l', s')) :
    Linking.appendModule resolve l name s =
      some (.ok { l' with declarations := l'.declarations ++ q.ownDeclarations }, s') := by
  rw [appendModule_unseen h, Resolving.bind_ok hr, Resolving.bind_ok hi]
  rfl

end Append

section Imports

/-- The modules that are imported among these declarations, in order. -/
def importedNames : List Declaration → List String
  | [] => []
  | .importDecl name :: rest => name :: importedNames rest
  | _ :: rest => importedNames rest

/-- The declarations that import nothing, in order. -/
def withoutImports : List Declaration → List Declaration
  | [] => []
  | .importDecl _ :: rest => withoutImports rest
  | d :: rest => d :: withoutImports rest

theorem Program.imports_eq (p : Program) : p.imports = importedNames p.declarations := by
  obtain ⟨ds⟩ := p
  induction ds with
  | nil => rfl
  | cons d ds ih => cases d <;> simp_all [Program.imports, importedNames]

theorem Program.ownDeclarations_eq (p : Program) :
    p.ownDeclarations = withoutImports p.declarations := by
  obtain ⟨ds⟩ := p
  induction ds with
  | nil => rfl
  | cons d ds ih => cases d <;> simp_all [Program.ownDeclarations, withoutImports]

variable {answer : String → Except ResolveError Program} {name : String} {q : Program}

/-- The names that the module imports which a name is answered with. -/
def importsBy (answer : String → Except ResolveError Program) (name : String) : List String :=
  match answer name with
  | .ok module => importedNames module.declarations
  | .error _ => []

def declarationsBy (answer : String → Except ResolveError Program) (name : String) :
    List Declaration :=
  match answer name with
  | .ok module => withoutImports module.declarations
  | .error _ => []

theorem importsBy_ok (h : answer name = .ok q) : importsBy answer name = q.imports := by
  rw [importsBy, h, q.imports_eq]

theorem declarationsBy_ok (h : answer name = .ok q) :
    declarationsBy answer name = q.ownDeclarations := by
  rw [declarationsBy, h, q.ownDeclarations_eq]

end Imports

section Answers

variable {ρ : Type}

/-- A resolver answers each name alike, whatever was asked before. After each answer
more is known of its state. -/
def AnswersAs (resolve : String → Resolving ρ Program) (Known : List String → ρ → Prop)
    (answer : String → Except ResolveError Program) : Prop :=
  ∀ asked s name, Known asked s →
    ∃ s', (resolve name).run.run s = some (answer name, s') ∧ Known (asked ++ [name]) s'

variable {resolve : String → Resolving ρ Program} {Known : List String → ρ → Prop}
  {answer : String → Except ResolveError Program} {seen names pre post asked : List String} {s : ρ}

/-- If all modules are answered, appending follows the search: modules are asked for as
they are entered and appended as they are left. -/
theorem appendModules_ok (ha : AnswersAs resolve Known answer)
    (h : DepthFirst (importsBy answer) seen names pre post)
    (hok : ∀ n ∈ pre, ∃ q, answer n = .ok q) (ds : List Declaration) (hs : Known asked s) :
    ∃ s', (appendModules resolve ⟨seen, ds⟩ names).run.run s =
        some (.ok ⟨pre.reverse ++ seen, ds ++ post.flatMap (declarationsBy answer)⟩, s') ∧
      Known (asked ++ pre) s' := by
  induction h generalizing ds asked s with
  | nil => exact ⟨s, by simp [appendModules], by simpa using hs⟩
  | skip hn rest ih =>
    obtain ⟨s', hr, hk⟩ := ih hok ds hs
    exact ⟨s', by rw [appendModules_cons_ok (appendModule_seen hn), hr], hk⟩
  | @visit seen names pre post pre' post' n hn inner rest ihi ihr =>
    obtain ⟨q, hq⟩ := hok n (by simp)
    obtain ⟨s₁, hr₁, hk₁⟩ := ha asked s n hs
    have hi : importsBy answer n = q.imports := importsBy_ok hq
    have hd : declarationsBy answer n = q.ownDeclarations := declarationsBy_ok hq
    obtain ⟨s₂, hr₂, hk₂⟩ := ihi (fun k hk => hok k (by simp [hk])) ds hk₁
    obtain ⟨s₃, hr₃, hk₃⟩ := ihr (fun k hk => hok k (by simp [hk])) _ hk₂
    refine ⟨s₃, ?_, by simpa using hk₃⟩
    rw [appendModules_cons_ok (appendModule_ok hn (hq ▸ hr₁) (hi ▸ hr₂)), hr₃]
    simp [hd]

theorem appendModules_error (ha : AnswersAs resolve Known answer)
    (h : DepthFirst (importsBy answer) seen names pre post) {before after : List String}
    {n : String} {e : ResolveError} (hp : pre = before ++ n :: after)
    (hb : ∀ k ∈ before, ∃ q, answer k = .ok q) (he : answer n = .error e)
    (ds : List Declaration) (hs : Known asked s) :
    ∃ s', (appendModules resolve ⟨seen, ds⟩ names).run.run s = some (.error e, s') ∧
      Known (asked ++ before ++ [n]) s' := by
  induction h generalizing before after ds asked s with
  | nil => simp at hp
  | skip hn rest ih =>
    obtain ⟨s', hr, hk⟩ := ih hp hb ds hs
    exact ⟨s', by rw [appendModules_cons_ok (appendModule_seen hn), hr], hk⟩
  | @visit seen names pre post pre' post' k hn inner rest ihi ihr =>
    obtain ⟨s₁, hr₁, hk₁⟩ := ha asked s k hs
    cases before with
    | nil =>
      obtain ⟨rfl, -⟩ := List.cons.inj hp
      refine ⟨s₁, ?_, by simpa using hk₁⟩
      apply appendModules_cons_error
      rw [appendModule_unseen hn, Resolving.bind_error (he ▸ hr₁)]
    | cons k' before =>
      rw [List.cons_append, List.cons.injEq] at hp
      obtain ⟨rfl, hp⟩ := hp
      obtain ⟨⟨q, hq⟩, hb⟩ := List.forall_mem_cons.1 hb
      have hi : importsBy answer k = q.imports := importsBy_ok hq
      rw [hq] at hr₁
      -- The module without an answer lies below this one, or it is entered afterwards.
      obtain ⟨c, rfl⟩ | ⟨c, rfl, hc⟩ := append_eq_append_cons hp
      · obtain ⟨s₂, hr₂, hk₂⟩ := ihi rfl hb ds hk₁
        refine ⟨s₂, ?_, by simpa using hk₂⟩
        apply appendModules_cons_error
        rw [appendModule_unseen hn, Resolving.bind_ok hr₁, Resolving.bind_error (hi ▸ hr₂)]
      · obtain ⟨hpre, hb⟩ := List.forall_mem_append.1 hb
        obtain ⟨s₂, hr₂, hk₂⟩ := appendModules_ok ha inner hpre ds hk₁
        obtain ⟨s₃, hr₃, hk₃⟩ := ihr hc hb _ hk₂
        refine ⟨s₃, ?_, by simpa using hk₃⟩
        rw [appendModules_cons_ok (appendModule_ok hn hr₁ (hi ▸ hr₂))]
        exact hr₃

theorem first_unanswered (answer : String → Except ResolveError Program) (names : List String) :
    (∀ n ∈ names, ∃ q, answer n = .ok q) ∨
    ∃ before n after e, names = before ++ n :: after ∧ (∀ k ∈ before, ∃ q, answer k = .ok q) ∧
      answer n = .error e := by
  induction names with
  | nil => exact Or.inl (by simp)
  | cons n names ih =>
    cases hn : answer n with
    | error e => exact Or.inr ⟨[], n, names, e, rfl, by simp, hn⟩
    | ok q =>
      obtain hok | ⟨before, k, after, e, rfl, hb, he⟩ := ih
      · exact Or.inl (List.forall_mem_cons.2 ⟨⟨q, hn⟩, hok⟩)
      · exact Or.inr ⟨n :: before, k, after, e, rfl, List.forall_mem_cons.2 ⟨⟨q, hn⟩, hb⟩, he⟩

theorem link_ok (ha : AnswersAs resolve Known answer) {p : Program}
    (h : DepthFirst (importsBy answer) [] p.imports pre post)
    (hok : ∀ n ∈ pre, ∃ q, answer n = .ok q) (hs : Known [] s) :
    ∃ s', (p.link resolve).run.run s =
        some (.ok ⟨post.flatMap (declarationsBy answer) ++ p.ownDeclarations⟩, s') ∧
      Known pre s' := by
  obtain ⟨s', hr, hk⟩ := appendModules_ok ha h hok [] hs
  exact ⟨s', Resolving.bind_ok hr, by simpa using hk⟩

theorem link_error (ha : AnswersAs resolve Known answer) {p : Program}
    (h : DepthFirst (importsBy answer) [] p.imports pre post) {before after : List String}
    {n : String} {e : ResolveError} (hp : pre = before ++ n :: after)
    (hb : ∀ k ∈ before, ∃ q, answer k = .ok q) (he : answer n = .error e) (hs : Known [] s) :
    ∃ s', (p.link resolve).run.run s = some (.error e, s') ∧ Known (before ++ [n]) s' := by
  obtain ⟨s', hr, hk⟩ := appendModules_error ha h hp hb he [] hs
  exact ⟨s', Resolving.bind_error hr, by simpa using hk⟩

theorem exists_depthFirst (bound : List String)
    (hb : ∀ n q, answer n = .ok q → q.imports ⊆ bound) (names : List String) :
    ∃ pre post, DepthFirst (importsBy answer) [] names pre post := by
  have closed : ∀ n ∈ names ++ bound, importsBy answer n ⊆ names ++ bound := by
    intro n _
    cases h : answer n with
    | error e => simp [importsBy, h]
    | ok q =>
      rw [importsBy_ok h]
      exact List.subset_append_of_subset_right _ (hb n q h)
  exact DepthFirst.exists_of_finite closed _ _ _ le_rfl (by simp)

end Answers

namespace ModuleMap

variable (m : ModuleMap)

theorem resolve_answersAs : AnswersAs m.resolve (fun asked s => s = asked) m.answer := by
  rintro asked s name rfl
  refine ⟨s ++ [name], ?_, rfl⟩
  cases h : m.answer name <;> simp [resolve, h] <;> rfl

/-- Linking over a map searches the imports depth first. Each module is asked for at most
once, when it is entered. The first one that is not answered ends the link with its error;
if there is none, the declarations come in the order in which modules are left. -/
theorem link_depth_first (p : Program) :
    ∃ pre post,
      DepthFirst (importsBy m.answer) [] (importedNames p.declarations) pre post ∧
      (∀ pre' post', DepthFirst (importsBy m.answer) [] (importedNames p.declarations) pre' post' →
        pre' = pre ∧ post' = post) ∧
      pre.Nodup ∧ post.Perm pre ∧
      (∀ n, n ∈ pre ↔ ∃ k ∈ importedNames p.declarations,
        ReflTransGen (Leads (importsBy m.answer)) k n) ∧
      (∀ a n b, post = a ++ n :: b → ¬ TransGen (Leads (importsBy m.answer)) n n →
        importsBy m.answer n ⊆ a) ∧
      (((∀ n ∈ pre, ∃ q, m.answer n = .ok q) ∧
        (m.link p).run.run [] =
          some (.ok ⟨post.flatMap (declarationsBy m.answer) ++ withoutImports p.declarations⟩, pre)) ∨
      ∃ before n after e, pre = before ++ n :: after ∧ (∀ k ∈ before, ∃ q, m.answer k = .ok q) ∧
        m.answer n = .error e ∧ (m.link p).run.run [] = some (.error e, before ++ [n])) := by
  rw [← p.imports_eq, ← p.ownDeclarations_eq]
  have hb : ∀ n q, m.answer n = .ok q → q.imports ⊆ m.names.flatMap (importsBy m.answer) := by
    intro n q hq i hi
    exact List.mem_flatMap.2 ⟨n, m.listed n q hq, importsBy_ok hq ▸ hi⟩
  obtain ⟨pre, post, h⟩ := exists_depthFirst _ hb p.imports
  refine ⟨pre, post, h, fun pre' post' h' => h'.functional h, h.pre_nodup, h.post_perm,
    h.mem_pre_iff, ?_, ?_⟩
  · intro a n b he hn k hk
    simpa using h.left_before a n b he hn k hk
  · obtain hok | ⟨before, n, after, e, hp, hb, he⟩ := first_unanswered m.answer pre
    · obtain ⟨s', hr, rfl⟩ := link_ok m.resolve_answersAs h hok rfl
      exact Or.inl ⟨hok, hr⟩
    · obtain ⟨s', hr, rfl⟩ := link_error m.resolve_answersAs h hp hb he rfl
      exact Or.inr ⟨before, n, after, e, hp, hb, he, hr⟩

end ModuleMap

end VnScript
