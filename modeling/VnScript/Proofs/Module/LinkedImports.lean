import VnScript.Proofs.Module.LinkedNames
import VnScript.Proofs.Tree.Nested
import VnScript.Tree.Equality

namespace VnScript

namespace Program

variable (p : Program)

theorem module?_own {d : Declaration} (h : d ∈ p.ownDeclarations) : d.module? = none := by
  have hown := (List.mem_filter.1 h).2
  cases d with
  | importDecl _ => cases hown
  | function _ | namespaceDecl _ _ | classDecl _ => rfl

theorem allImports_ownDeclarations :
    (⟨p.ownDeclarations⟩ : Program).allImports = p.innerImports := by
  obtain ⟨ds⟩ := p
  simp only [allImports, innerImports, ownDeclarations]
  induction ds with
  | nil => rfl
  | cons d rest ih =>
    cases d <;> simp [Declaration.inner, membersOf, Declaration.members, Declaration.module?,
      List.filterMap_cons, ih]

theorem allImports_append (ds ds' : List Declaration) :
    (⟨ds ++ ds'⟩ : Program).allImports =
      (⟨ds⟩ : Program).allImports ++ (⟨ds'⟩ : Program).allImports := by
  rw [allImports, membersOf_append, List.filterMap_append]
  rfl

theorem allImports_flatMap (found : List (String × Program)) :
    (⟨found.flatMap fun e => e.2.ownDeclarations⟩ : Program).allImports =
      found.flatMap fun e => e.2.innerImports := by
  induction found with
  | nil => rfl
  | cons e rest ih =>
    rw [List.flatMap_cons, allImports_append, allImports_ownDeclarations, ih, List.flatMap_cons]

theorem mem_allImports {name : String} :
    name ∈ p.allImports ↔ name ∈ p.imports ∨ name ∈ p.innerImports := by
  rw [← List.mem_append]
  exact (filterMap_membersOf (fun _ _ => rfl) p.declarations).mem_iff

end Program

section Collect

variable {ρ : Type} {resolve : String → Resolving ρ Program}

/-- The modules that are appended on the way from one state of linking to the other, each under the
name that it was asked for by. All that they import has been visited in the end. -/
structure Collects (resolve : String → Resolving ρ Program) (found : List (String × Program))
    (l l' : Linking) : Prop where
  given : ∀ e ∈ found, GivesFor resolve e.1 e.2
  declarations : l'.declarations = l.declarations ++ found.flatMap fun e => e.2.ownDeclarations
  visited : ∀ name, name ∈ l'.visited ↔ name ∈ l.visited ∨ name ∈ found.map Prod.fst
  imports : ∀ e ∈ found, e.2.imports ⊆ l'.visited

variable {found found' : List (String × Program)} {l l' l'' : Linking} {name : String} {s s' : ρ}

theorem Collects.refl (l : Linking) : Collects resolve [] l l := ⟨nofun, by simp, by simp, nofun⟩

theorem Collects.subset (h : Collects resolve found l l') : l.visited ⊆ l'.visited :=
  fun name hn => (h.visited name).2 (.inl hn)

theorem Collects.trans (h : Collects resolve found l l') (h' : Collects resolve found' l' l'') :
    Collects resolve (found ++ found') l l'' where
  given := List.forall_mem_append.2 ⟨h.given, h'.given⟩
  declarations := by rw [h'.declarations, h.declarations, List.flatMap_append, List.append_assoc]
  visited name := by
    rw [h'.visited, h.visited, List.map_append, List.mem_append, or_assoc]
  imports := List.forall_mem_append.2
    ⟨fun e he => List.Subset.trans (h.imports e he) h'.subset, h'.imports⟩

theorem Collects.behind {m : Program} (hm : GivesFor resolve name m)
    (h : Collects resolve found { l with visited := name :: l.visited } l')
    (hi : m.imports ⊆ l'.visited) :
    Collects resolve (found ++ [(name, m)]) l
      { l' with declarations := l'.declarations ++ m.ownDeclarations } where
  given := List.forall_mem_append.2 ⟨h.given, List.forall_mem_singleton.2 hm⟩
  declarations := by
    rw [h.declarations, List.flatMap_append, List.flatMap_singleton, List.append_assoc]
  visited n := by
    rw [h.visited, List.mem_cons, List.map_append, List.mem_append, List.map_singleton,
      List.mem_singleton]
    tauto
  imports := List.forall_mem_append.2 ⟨h.imports, List.forall_mem_singleton.2 hi⟩

/-- Whatever the resolver, a program is linked with modules that it gave, under all the names that
they and the program import at top level. -/
theorem link_collects {p q : Program} (h : (p.link resolve).run.run s = some (.ok q, s')) :
    ∃ found : List (String × Program), (∀ e ∈ found, GivesFor resolve e.1 e.2) ∧
      q.declarations = found.flatMap (fun e => e.2.ownDeclarations) ++ p.ownDeclarations ∧
      p.imports ⊆ found.map Prod.fst ∧ ∀ e ∈ found, e.2.imports ⊆ found.map Prod.fst := by
  have hR : HoldsOverRuns resolve fun l l' => ∃ found, Collects resolve found l l' :=
    ⟨fun l => ⟨[], .refl l⟩, fun ⟨_, h⟩ ⟨_, h'⟩ => ⟨_, h.trans h'⟩,
      fun hm ⟨_, h⟩ hi => ⟨_, h.behind hm hi⟩⟩
  obtain ⟨l, ⟨found, hc⟩, hp, hq⟩ := hR.of_link h
  have hvisited : l.visited ⊆ found.map Prod.fst := fun name hn => by
    simpa using (hc.visited name).1 hn
  refine ⟨found, hc.given, ?_, List.Subset.trans hp hvisited,
    fun e he => List.Subset.trans (hc.imports e he) hvisited⟩
  rw [hq, hc.declarations, List.nil_append]

/-- Every import at top level, of the program or of a module that it is linked with, has been
resolved to a module whose declarations are included, and is gone. The imports in namespaces are
passed over and stay. So all imports have been resolved and are gone exactly if none stands in a
namespace. -/
theorem link_imports_iff {p q : Program} (h : (p.link resolve).run.run s = some (.ok q, s')) :
    ∃ found : List (String × Program), (∀ e ∈ found, GivesFor resolve e.1 e.2) ∧
      q.declarations = found.flatMap (fun e => e.2.ownDeclarations) ++ p.ownDeclarations ∧
      p.imports ⊆ found.map Prod.fst ∧ (∀ e ∈ found, e.2.imports ⊆ found.map Prod.fst) ∧
      q.imports = [] ∧
      q.allImports = found.flatMap (fun e => e.2.innerImports) ++ p.innerImports ∧
      ((p.allImports ⊆ found.map Prod.fst ∧ (∀ e ∈ found, e.2.allImports ⊆ found.map Prod.fst) ∧
          q.allImports = []) ↔
        p.innerImports = [] ∧ ∀ e ∈ found, e.2.innerImports = []) := by
  obtain ⟨found, hgiven, hd, hp, hfound⟩ := link_collects h
  have hnone : q.imports = [] := by
    refine List.filterMap_eq_nil_iff.2 fun d hmem => ?_
    rw [hd, List.mem_append, List.mem_flatMap] at hmem
    obtain ⟨e, -, he⟩ | hown := hmem
    · exact e.2.module?_own he
    · exact p.module?_own hown
  have hall : q.allImports = found.flatMap (fun e => e.2.innerImports) ++ p.innerImports := by
    obtain ⟨ds⟩ := q
    rw [show ds = _ from hd, Program.allImports_append, Program.allImports_flatMap,
      Program.allImports_ownDeclarations]
  have hempty : q.allImports = [] ↔ p.innerImports = [] ∧ ∀ e ∈ found, e.2.innerImports = [] := by
    rw [hall, List.append_eq_nil_iff, List.flatMap_eq_nil_iff, and_comm]
  refine ⟨found, hgiven, hd, hp, hfound, hnone, hall, ?_, ?_⟩
  · rintro ⟨-, -, hgone⟩
    exact hempty.1 hgone
  · rintro ⟨hinner, hmodules⟩
    have htop {r : Program} (hr : r.innerImports = []) (hi : r.imports ⊆ found.map Prod.fst) :
        r.allImports ⊆ found.map Prod.fst := by
      intro name hname
      obtain ht | hn := r.mem_allImports.1 hname
      · exact hi ht
      · rw [hr] at hn
        cases hn
    exact ⟨htop hinner hp, fun e he => htop (hmodules e he) (hfound e he),
      hempty.2 ⟨hinner, hmodules⟩⟩

end Collect

/-- The module has an import in a namespace, which stays. -/
theorem link_imports_kept :
    let lib : Program := ⟨[.namespaceDecl "n" [.importDecl "other"]]⟩
    let main : Function := ⟨none, "main", [], []⟩
    let q : Program := ⟨[.namespaceDecl "n" [.importDecl "other"], .function main]⟩
    let m := ModuleMap.ofList [("lib", lib)]
    (m.link ⟨[.importDecl "lib", .function main]⟩).run.run [] = some (.ok q, ["lib"]) ∧
      ∃ found : List (String × Program), (∀ e ∈ found, GivesFor m.resolve e.1 e.2) ∧
        ["lib"] ⊆ found.map Prod.fst ∧ q.imports = [] ∧
        q.allImports = found.flatMap (fun e => e.2.innerImports) := by
  intro lib main q m
  have ha : m.answer "lib" = .ok lib := rfl
  have hl : (m.link ⟨[.importDecl "lib", .function main]⟩).run.run [] = some (.ok q, ["lib"]) :=
    ModuleMap.link_one ha rfl rfl
  obtain ⟨found, hgiven, -, hp, -, hnone, hall, -⟩ := link_imports_iff hl
  exact ⟨hl, found, hgiven, hp, hnone, hall.trans (List.append_nil _)⟩

def innerImportSource : String := "namespace n \x7b import a; \x7d"

def innerImport : Program := ⟨[.namespaceDecl "n" [.importDecl "a"]]⟩

def innerModules : ModuleMap := ModuleMap.ofList [("a", ⟨[.function ⟨none, "f", [], []⟩]⟩)]

/-- An import in a namespace is not resolved, though its module is there, and stays in the linked
program. -/
theorem innerImport_ignored : parse innerImportSource = .ok innerImport ∧
    (innerModules.link innerImport).run.run [] = some (.ok innerImport, []) ∧
    innerImport.allImports = ["a"] :=
  ⟨by decide +kernel, rfl, rfl⟩

end VnScript
