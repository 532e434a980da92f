import VnScript.Cpp.Toolchain
import VnScript.Execution.Run

namespace VnScript

/-- A way to execute programs: directly, or as generated code. -/
inductive Backend where
  | interpreter
  | compiled (toolchain : Toolchain)

/-- A program made ready for any number of runs. -/
inductive Prepared where
  | interpreted (main : Function)
  | compiled

inductive BackendError where
  | runtime (error : RuntimeError)
  | build (error : BuildError)

namespace Backend

def all : List Backend := [interpreter, compiled .default]

def name : Backend → String
  | interpreter => "interpreter"
  | compiled _ => "transpiler"

def prepare (compilers : Compilers) (p : Program) : Backend → Except BackendError Prepared
  | interpreter =>
    match p.function? "main" with
    | some main => .ok (.interpreted main)
    | none => .error (.runtime .missingMain)
  | compiled toolchain =>
    match toolchain.compile compilers with
    | .ok () => .ok .compiled
    | .error e => .error (.build e)

end Backend

def Prepared.run (limit : Nat) (input : String) : Prepared → Option (Except BackendError String)
  | interpreted main =>
    match main.run limit (BufferedConsole.ofInput input) with
    | .done _ s => some (.ok s.console.output)
    | .failed e _ => some (.error (.runtime e))
    | .unfinished => none
  | compiled => some (.error (.build .noExecutable))

def Backend.run (limit : Nat) (compilers : Compilers) (p : Program) (input : String)
    (b : Backend) : Option (Except BackendError String) :=
  match b.prepare compilers p with
  | .ok prepared => prepared.run limit input
  | .error e => some (.error e)

end VnScript
