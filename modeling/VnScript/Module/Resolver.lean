import VnScript.Files.Tree
import VnScript.Grammar.Declaration
import VnScript.Module.Link
import VnScript.Module.Path

namespace VnScript

/-- A module that has been read. The number tells it from a later reading of
the same file. -/
structure Module where
  program : Program
  number : Nat

/-- A search for modules below roots. Modules are kept once they and all that
they import are read; `pending` are those being read, the first one outermost. -/
structure Resolver where
  roots : List String
  kept : List (String × Module)
  pending : List String
  nextNumber : Nat

/-- A state that holds a resolver, and perhaps remembers more. -/
class HoldsResolver (ρ : Type) where
  resolver : ρ → Resolver
  update : (Resolver → Resolver) → ρ → ρ

instance : HoldsResolver Resolver := ⟨id, id⟩

namespace Resolver

open HoldsResolver

def ofRoots (roots : List String) : Resolver := ⟨roots, [], [], 0⟩

def candidates (roots : List String) (name : String) : List String :=
  roots.map fun root => Path.join root (modulePath name)

def locate (files : Files) (roots : List String) (name : String) : Except ResolveError String :=
  match (candidates roots name).find? files.isFile with
  | some path => .ok path
  | none => .error (.notFound name (candidates roots name))

def readModule (files : Files) (roots : List String) (name : String) :
    Except ResolveError Program := do
  let path ← locate files roots name
  let source ← (files.read path).mapError (.unreadable path)
  (parse source).mapError (.malformed path)

def enter (name : String) (r : Resolver) : Resolver := { r with pending := r.pending ++ [name] }

def leave (r : Resolver) : Resolver := { r with pending := r.pending.dropLast }

def keep (name : String) (module : Module) (r : Resolver) : Resolver :=
  { r with kept := (name, module) :: r.kept }

def countModule (r : Resolver) : Resolver := { r with nextNumber := r.nextNumber + 1 }

end Resolver

section Search

open Resolver HoldsResolver

variable {ρ : Type} [HoldsResolver ρ]

mutual

def Files.load (files : Files) (name : String) (s : ρ) : Option (Except ResolveError Module × ρ) :=
  StateT.run (m := Option) (ExceptT.run (m := StateT ρ Option) (do
    let program ← liftM (readModule files (resolver (← get)).roots name)
    program.imports.forM (m := Resolving ρ) fun imported => do
      let _ ← files |>.resolve imported
    let number := (resolver (← get)).nextNumber
    modify (update countModule)
    return ⟨program, number⟩)) s
partial_fixpoint

/-- Give a module that is kept, or load it. A module that is pending already
closes a circle. A module that is loaded is no longer pending, also on errors. -/
def Files.resolve (files : Files) (name : String) (s : ρ) :
    Option (Except ResolveError Module × ρ) :=
  match (resolver s).kept.lookup name with
  | some module => some (.ok module, s)
  | none =>
    if (resolver s).pending.contains name then
      some (.error (.circular name ((resolver s).pending ++ [name])), s)
    else do
      let (loaded, s) ← files |>.load name (update (enter name) s)
      let s := update leave s
      match loaded with
      | .error e => return (.error e, s)
      | .ok module => return (.ok module, update (keep name module) s)
partial_fixpoint

end

end Search

namespace Resolver

export Files (load resolve)

variable {ρ : Type} [HoldsResolver ρ]

def resolveProgram (files : Files) (name : String) : Resolving ρ Program := do
  let module ← resolve files name
  return module.program

def link (files : Files) (p : Program) : Resolving ρ Program := p.link (resolveProgram files)

end Resolver

/-- Modules that are given by name. Each name is always answered alike, and
with a program only if it is listed. -/
structure ModuleMap where
  answer : String → Except ResolveError Program
  names : List String
  listed : ∀ name program, answer name = .ok program → name ∈ names

namespace ModuleMap

def ofList (modules : List (String × Program)) : ModuleMap where
  answer name := match modules.lookup name with
    | some program => .ok program
    | none => .error (.notFound name [])
  names := modules.map Prod.fst
  listed name program h := by
    split at h
    · next found =>
      obtain ⟨before, after, rfl, -⟩ := List.lookup_eq_some_iff.1 found
      simp
    · simp at h

def resolve (m : ModuleMap) (name : String) : Resolving (List String) Program := do
  modify (· ++ [name])
  liftM (m.answer name)

def link (m : ModuleMap) (p : Program) : Resolving (List String) Program := p.link m.resolve

end ModuleMap

end VnScript
