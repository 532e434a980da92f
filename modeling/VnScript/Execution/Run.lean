import VnScript.Console.Buffered
import VnScript.Console.Recorded
import VnScript.Console.Stream
import VnScript.Execution.Statement

namespace VnScript

variable {σ : Type} [Console σ]

def Function.run (limit : Nat) (f : Function) (console : σ) : Outcome σ Flow :=
  execBlock limit f.body ⟨.empty, console⟩

/-- Execute the function `main`. A value that it returns ends the run and is
dropped. Nothing else in the program is executed. -/
def Program.run (limit : Nat) (p : Program) (console : σ) : Outcome σ Flow :=
  match p.function? "main" with
  | some main => main.run limit console
  | none => .failed .missingMain ⟨.empty, console⟩

/-- More rounds than a loop can make in practice. -/
def ampleLimit : Nat := 4611686018427387904

end VnScript
