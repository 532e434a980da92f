import VnScript.Module.Error
import VnScript.Tree.Basic

namespace VnScript

/-- A computation on the state of a resolver, which is kept on errors too. One
that does not end comes to nothing. -/
abbrev Resolving (ρ : Type) := ExceptT ResolveError (StateT ρ Option)

namespace Program

def ownDeclarations (p : Program) : List Declaration :=
  p.declarations.filter fun
    | .importDecl _ => false
    | _ => true

end Program

/-- The modules visited so far and their declarations. -/
structure Linking where
  visited : List String
  declarations : List Declaration

variable {ρ : Type}

def Linking.appendModule (resolve : String → Resolving ρ Program) (l : Linking) (name : String)
    (s : ρ) : Option (Except ResolveError Linking × ρ) :=
  StateT.run (m := Option) (ExceptT.run (m := StateT ρ Option) (do
    if l.visited.contains name then return l
    else
      let module ← resolve name
      let l ← module.imports.foldlM (m := Resolving ρ)
        (fun l name => l |>.appendModule resolve name)
        { l with visited := name :: l.visited }
      return { l with declarations := l.declarations ++ module.ownDeclarations })) s
partial_fixpoint

/-- Join a program with everything it imports. What is imported comes before
what imports it, every module once. Only top-level imports count. -/
def Program.link (resolve : String → Resolving ρ Program) (p : Program) : Resolving ρ Program := do
  let l ← p.imports.foldlM (m := Resolving ρ) (Linking.appendModule resolve) ⟨[], []⟩
  return ⟨l.declarations ++ p.ownDeclarations⟩

end VnScript
