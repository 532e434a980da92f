import VnScript.Execution.Run
import VnScript.Proofs.Module.LinkOrder

namespace VnScript

namespace Program

theorem function?_ownDeclarations (p : Program) (name : String) :
    (⟨p.ownDeclarations⟩ : Program).function? name = p.function? name := by
  obtain ⟨ds⟩ := p
  simp only [function?, ownDeclarations]
  induction ds with
  | nil => rfl
  | cons d ds ih => cases d <;> simp [List.findSome?_cons, ih]

theorem function?_append (ds ds' : List Declaration) (name : String) :
    (⟨ds ++ ds'⟩ : Program).function? name =
      ((⟨ds⟩ : Program).function? name).or ((⟨ds'⟩ : Program).function? name) :=
  List.findSome?_append

theorem function?_flatMap (modules : List Program) (name : String) :
    (⟨modules.flatMap ownDeclarations⟩ : Program).function? name =
      modules.findSome? (·.function? name) := by
  induction modules with
  | nil => rfl
  | cons m modules ih =>
    rw [List.flatMap_cons, function?_append, function?_ownDeclarations, ih, List.findSome?_cons]
    cases m.function? name <;> rfl

end Program

variable {ρ : Type} {resolve : String → Resolving ρ Program}

/-- In some state the resolver gives the module for the name. -/
def GivesFor (resolve : String → Resolving ρ Program) (name : String) (module : Program) : Prop :=
  ∃ s s', (resolve name).run.run s = some (.ok module, s')

/-- In some state the resolver gives the module for some name. -/
def Gives (resolve : String → Resolving ρ Program) (module : Program) : Prop :=
  ∃ name s s', (resolve name).run.run s = some (.ok module, s')

/-- A relation between an earlier and a later state of linking that holds over any run if it
survives that a module is appended behind those that were appended for its imports. -/
structure HoldsOverRuns (resolve : String → Resolving ρ Program)
    (R : Linking → Linking → Prop) : Prop where
  refl : ∀ l, R l l
  trans : ∀ {l l' l''}, R l l' → R l' l'' → R l l''
  behind : ∀ {l l' name} {m : Program}, GivesFor resolve name m →
    R { l with visited := name :: l.visited } l' → m.imports ⊆ l'.visited →
    R l { l' with declarations := l'.declarations ++ m.ownDeclarations }

section Runs

variable {R : Linking → Linking → Prop} {l l' : Linking} {s s' : ρ}

theorem HoldsOverRuns.of_foldlM (hR : HoldsOverRuns resolve R)
    {append : Linking → String → Resolving ρ Linking}
    (step : ∀ l name s l' s', (append l name).run.run s = some (.ok l', s') →
      R l l' ∧ name :: l.visited ⊆ l'.visited)
    (names : List String) (h : (names.foldlM append l).run.run s = some (.ok l', s')) :
    R l l' ∧ names ++ l.visited ⊆ l'.visited := by
  induction names generalizing l s with
  | nil =>
    obtain ⟨rfl, rfl⟩ : l = l' ∧ s = s' := by simpa using h
    exact ⟨hR.refl l, List.Subset.refl _⟩
  | cons name names ih =>
    rw [List.foldlM_cons] at h
    obtain ⟨l₁, s₁, h₁, h₂⟩ | ⟨e, -, he⟩ := Resolving.bind_eq_some h
    · obtain ⟨hr, hv⟩ := step _ _ _ _ _ h₁
      obtain ⟨hr', hv'⟩ := ih h₂
      obtain ⟨hnames, hv'⟩ := List.append_subset.1 hv'
      obtain ⟨hname, hv⟩ := List.cons_subset.1 (List.Subset.trans hv hv')
      exact ⟨hR.trans hr hr', List.cons_subset.2 ⟨hname, List.append_subset.2 ⟨hnames, hv⟩⟩⟩
    · cases he

theorem HoldsOverRuns.of_appendModule (hR : HoldsOverRuns resolve R) {name : String}
    (h : Linking.appendModule resolve l name s = some (.ok l', s')) :
    R l l' ∧ name :: l.visited ⊆ l'.visited := by
  refine Linking.appendModule.partial_correctness resolve
    (fun l name _ r => ∀ l', r.1 = .ok l' → R l l' ∧ name :: l.visited ⊆ l'.visited)
    ?_ l name s _ h l' rfl
  rintro append ih l name s ⟨-, s'⟩ h l' rfl
  by_cases hv : l.visited.contains name
  · rw [if_pos hv] at h
    obtain ⟨rfl, rfl⟩ : l = l' ∧ s = s' := by simpa using h
    exact ⟨hR.refl l, List.cons_subset.2 ⟨List.contains_iff_mem.1 hv, List.Subset.refl _⟩⟩
  · rw [if_neg hv] at h
    obtain ⟨m, s₁, h₁, h⟩ | ⟨e, -, he⟩ := Resolving.bind_eq_some h
    · obtain ⟨l₂, s₂, h₂, h⟩ | ⟨e, -, he⟩ := Resolving.bind_eq_some h
      · obtain ⟨rfl, rfl⟩ : { l₂ with declarations := l₂.declarations ++ m.ownDeclarations } = l' ∧
            s₂ = s' := by simpa using h
        obtain ⟨hr, hvisited⟩ := hR.of_foldlM (fun l name s l' s' h => ih l name s _ h l' rfl)
          m.imports h₂
        obtain ⟨hi, hvisited⟩ := List.append_subset.1 hvisited
        exact ⟨hR.behind ⟨s, s₁, h₁⟩ hr hi, hvisited⟩
      · cases he
    · cases he

/-- Whatever the resolver, what holds over runs holds from nothing to the modules that a program is
linked with, and all that the program imports has been visited. -/
theorem HoldsOverRuns.of_link (hR : HoldsOverRuns resolve R) {p q : Program}
    (h : (p.link resolve).run.run s = some (.ok q, s')) :
    ∃ l, R ⟨[], []⟩ l ∧ p.imports ⊆ l.visited ∧
      q.declarations = l.declarations ++ p.ownDeclarations := by
  obtain ⟨l, s₁, h₁, h₂⟩ | ⟨e, -, he⟩ := Resolving.bind_eq_some h
  · obtain ⟨rfl, rfl⟩ : (⟨l.declarations ++ p.ownDeclarations⟩ : Program) = q ∧ s₁ = s' := by
      simpa using h₂
    obtain ⟨hr, hv⟩ := hR.of_foldlM (fun _ _ _ _ _ h => hR.of_appendModule h) p.imports h₁
    exact ⟨l, hr, (List.append_subset.1 hv).1, rfl⟩
  · cases he

end Runs

/-- Only modules that the resolver gave have been appended. -/
def Appended (resolve : String → Resolving ρ Program) (l l' : Linking) : Prop :=
  ∃ modules : List Program, (∀ m ∈ modules, Gives resolve m) ∧
    l'.declarations = l.declarations ++ modules.flatMap Program.ownDeclarations

theorem Appended.refl (l : Linking) : Appended resolve l l := ⟨[], by simp, by simp⟩

theorem Appended.trans {l l' l'' : Linking} (h : Appended resolve l l')
    (h' : Appended resolve l' l'') : Appended resolve l l'' := by
  obtain ⟨modules, hg, hd⟩ := h
  obtain ⟨modules', hg', hd'⟩ := h'
  refine ⟨modules ++ modules', List.forall_mem_append.2 ⟨hg, hg'⟩, ?_⟩
  rw [hd', hd, List.flatMap_append, List.append_assoc]

theorem Appended.behind {l l' : Linking} {name : String} {m : Program}
    (hm : GivesFor resolve name m)
    (h : Appended resolve { l with visited := name :: l.visited } l') :
    Appended resolve l { l' with declarations := l'.declarations ++ m.ownDeclarations } := by
  obtain ⟨modules, hg, hd⟩ := h
  refine ⟨modules ++ [m], List.forall_mem_append.2 ⟨hg, List.forall_mem_singleton.2 ⟨name, hm⟩⟩, ?_⟩
  rw [hd, List.flatMap_append, List.flatMap_singleton, List.append_assoc]

/-- Whatever the resolver, a program is linked with modules that it gave. -/
theorem link_appended {p q : Program} {s s' : ρ}
    (h : (p.link resolve).run.run s = some (.ok q, s')) :
    ∃ modules : List Program, (∀ m ∈ modules, Gives resolve m) ∧
      q.declarations = modules.flatMap Program.ownDeclarations ++ p.ownDeclarations := by
  have hR : HoldsOverRuns resolve (Appended resolve) :=
    ⟨Appended.refl, Appended.trans, fun hm h _ => h.behind hm⟩
  obtain ⟨l, ⟨modules, hg, hd⟩, -, hq⟩ := hR.of_link h
  exact ⟨modules, hg, by rw [hq, hd, List.nil_append]⟩

/-- What a name denotes after linking: the first function of that name in the modules, in
the order in which they were appended, and the program's own only if there is none. So a
name keeps its meaning exactly if no module gives it another. -/
theorem link_names_iff {p q : Program} {s s' : ρ}
    (h : (p.link resolve).run.run s = some (.ok q, s')) :
    ∃ modules : List Program, (∀ m ∈ modules, Gives resolve m) ∧
      q.declarations = modules.flatMap Program.ownDeclarations ++ p.ownDeclarations ∧
      (∀ name, (p.function? name).isSome →
        (q.function? name = p.function? name ↔
          ∀ f, modules.findSome? (·.function? name) = some f → p.function? name = some f)) ∧
      ∀ {σ : Type} [Console σ] (limit : Nat) (console : σ), q.run limit console =
        match modules.findSome? (·.function? "main") with
        | some main => main.run limit console
        | none => p.run limit console := by
  obtain ⟨modules, hg, hd⟩ := link_appended h
  have hf (name : String) : q.function? name =
      (modules.findSome? (·.function? name)).or (p.function? name) := by
    obtain ⟨ds⟩ := q
    rw [show ds = _ from hd, Program.function?_append, Program.function?_flatMap,
      Program.function?_ownDeclarations]
  refine ⟨modules, hg, hd, ?_, ?_⟩
  · intro name _
    rw [hf]
    cases modules.findSome? (·.function? name) with
    | none => simp
    | some f => simp [eq_comm]
  · intro σ _ limit console
    rw [Program.run, hf]
    cases modules.findSome? (·.function? "main") <;> rfl

theorem ModuleMap.link_one {m : ModuleMap} {p lib : Program} {name : String}
    (ha : m.answer name = .ok lib) (hl : lib.imports = []) (hp : p.imports = [name]) :
    (m.link p).run.run [] = some (.ok ⟨lib.ownDeclarations ++ p.ownDeclarations⟩, [name]) := by
  have hi : importsBy m.answer name = [] := (importsBy_ok ha).trans hl
  have h : DepthFirst (importsBy m.answer) [] p.imports [name] [name] := by
    have inner : DepthFirst (importsBy m.answer) [name] (importsBy m.answer name) [] [] := by
      rw [hi]
      exact .nil
    rw [hp]
    exact .visit (by simp) inner .nil
  have hok : ∀ n ∈ [name], ∃ q, m.answer n = .ok q := by simp [ha]
  obtain ⟨s', hr, rfl⟩ := link_ok m.resolve_answersAs h hok rfl
  rw [List.flatMap_cons, declarationsBy_ok ha] at hr
  exact hr.trans (by simp)

theorem link_one_module (f main : Function) :
    ((ModuleMap.ofList [("lib", ⟨[.function f]⟩)]).link
        ⟨[.importDecl "lib", .function main]⟩).run.run [] =
      some (.ok ⟨[.function f, .function main]⟩, ["lib"]) := by
  have ha : (ModuleMap.ofList [("lib", ⟨[.function f]⟩)]).answer "lib" = .ok ⟨[.function f]⟩ := rfl
  exact ModuleMap.link_one ha rfl rfl

theorem link_names_helper :
    let m := ModuleMap.ofList [("lib", ⟨[.function ⟨none, "helper", [], []⟩]⟩)]
    let p : Program := ⟨[.importDecl "lib", .function ⟨none, "main", [], []⟩]⟩
    let q : Program := ⟨[.function ⟨none, "helper", [], []⟩, .function ⟨none, "main", [], []⟩]⟩
    (m.link p).run.run [] = some (.ok q, ["lib"]) ∧
      ∃ modules : List Program, (∀ n ∈ modules, Gives m.resolve n) ∧
        q.declarations = modules.flatMap Program.ownDeclarations ++ p.ownDeclarations ∧
        (q.function? "main" = p.function? "main" ↔
          ∀ f, modules.findSome? (·.function? "main") = some f → p.function? "main" = some f) := by
  intro m p q
  have hl := link_one_module ⟨none, "helper", [], []⟩ ⟨none, "main", [], []⟩
  obtain ⟨modules, hg, hd, hn, -⟩ := link_names_iff hl
  exact ⟨hl, modules, hg, hd, hn "main" (by simp [Program.function?])⟩

/-- An imported `main` takes the place of the program's own. -/
theorem link_main_replaced :
    ¬ ∀ (m : ModuleMap) (p q : Program) (asked : List String) (name : String),
      (m.link p).run.run [] = some (.ok q, asked) → (p.function? name).isSome →
        q.function? name = p.function? name := by
  intro h
  have := h _ _ _ _ "main" (link_one_module ⟨none, "main", [], [.ret none]⟩ ⟨none, "main", [], []⟩)
    (by simp [Program.function?])
  simp [Program.function?] at this

end VnScript
