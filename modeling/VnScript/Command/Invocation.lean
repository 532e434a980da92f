import VnScript.Cpp.Unit
import VnScript.Diagnostic
import VnScript.Execution.Run
import VnScript.Module.Resolver
import VnScript.Settings

namespace VnScript.Command

structure Options where
  verbosity : Nat
  config : Option String
  searchPaths : List String
  debugLexer : Bool
  deriving DecidableEq

inductive Verb where
  | run | emit | build | check
  deriving DecidableEq

structure Invocation where
  verb : Verb
  file : String
  output : Option String
  options : Options
  deriving DecidableEq

structure World where
  files : Files
  input : String
  compilers : Compilers

/-- What a command leaves: its status, its output and error output, the files,
and which of them it has written. -/
structure Report where
  status : Nat
  output : String
  errors : String
  files : Files
  written : List (String × String)

structure Effect where
  failure : Option Failure
  output : String
  files : Files
  written : List (String × String)

namespace Invocation

variable (decode : Settings.Decoder) (i : Invocation)

/-- A failure of the outside, while something was being done. -/
def failing (doing reason : String) : Failure := ⟨.other reason, [doing]⟩

def settings (files : Files) : Except Failure Settings :=
  match i.options.config with
  | none => .ok .default
  | some path => do
    let text ← (files.read path).mapError fun e => failing ("Reading config " ++ path) e.message
    (Settings.read decode text).mapError fun e => failing ("Parsing config " ++ path) e

def directory : String :=
  if (Path.parent i.file).isEmpty then "." else Path.parent i.file

/-- Where modules are searched for: as the command line says, as the settings
say, and beside the program. -/
def roots (s : Settings) : List String :=
  i.options.searchPaths ++ s.searchPaths ++ [i.directory]

def readProgram (files : Files) : Except Failure Program := do
  let source ← (files.read i.file).mapError fun e => failing ("Reading " ++ i.file) e.message
  (parse source).mapError fun e => ⟨.parse e, []⟩

def loadProgram (files : Files) (s : Settings) : Option (Except Failure Program) :=
  match i.readProgram files with
  | .error f => some (.error f)
  | .ok program => do
    let (linked, _) ← (Resolver.link files program).run (Resolver.ofRoots (i.roots s))
    return linked.mapError fun e => ⟨.resolve e, []⟩

def nothing (files : Files) : Effect := ⟨none, "", files, []⟩

def failed (files : Files) (f : Failure) : Effect := { nothing files with failure := some f }

def runProgram (limit : Nat) (w : World) (p : Program) : Option Effect :=
  match p.run limit (StreamConsole.ofInput w.input) with
  | .done _ s => some { nothing w.files with output := s.console.output }
  | .failed e s =>
    some { nothing w.files with output := s.console.output, failure := some ⟨.runtime e, []⟩ }
  | .unfinished => none

def writing (files : Files) (path content : String) (next : Files → Option Failure) : Effect :=
  match files.write path content with
  | .error e => failed files (failing ("Writing " ++ path) e.message)
  | .ok files => ⟨next files, "", files, [(path, content)]⟩

def emit (w : World) (p : Program) : Effect :=
  match i.output with
  | none => { nothing w.files with output := p.cpp }
  | some path => writing w.files path p.cpp fun _ => none

/-- The path of the executable: as asked for, or that of the program without
its extension. -/
def binaryPath : String := i.output.getD (Path.replaceExtension "" i.file)

def sourcePath : String := Path.replaceExtension "cpp" i.binaryPath

def build (w : World) (s : Settings) (p : Program) : Effect :=
  writing w.files i.sourcePath p.cpp fun _ =>
    match s.toolchain.compile w.compilers with
    | .ok () => none
    | .error e => some ⟨.other e.message, []⟩

def act (limit : Nat) (w : World) (s : Settings) (p : Program) : Option Effect :=
  match i.verb with
  | .run => runProgram limit w p
  | .emit => some (i.emit w p)
  | .build => some (i.build w s p)
  | .check => some { nothing w.files with output := i.file ++ ": ok\n" }

def effect (limit : Nat) (w : World) : Option Effect :=
  match i.settings decode w.files with
  | .error f => some (failed w.files f)
  | .ok s =>
    match i.loadProgram w.files s with
    | none => none
    | some (.error f) => some (failed w.files f)
    | some (.ok p) => i.act limit w s p

/-- The report of a failure. What has no file of its own, unless it comes from
the outside, is reported in the program's. -/
def diagnostic (f : Failure) : Diagnostic :=
  let d := Diagnostic.ofFailure f
  if d.file.isNone && d.category != "error" then { d with file := some i.file } else d

def failureText (files : Files) (f : Failure) : String :=
  let d := i.diagnostic f
  d.render (d.file.bind fun path => (files.read path).toOption)

/-- Carry out a command. There is no report if the program does not end within
the limit of its loops. -/
def run (limit : Nat) (w : World) : Option Report :=
  (i.effect decode limit w).map fun e =>
    match e.failure with
    | none => ⟨0, e.output, "", e.files, e.written⟩
    | some f => ⟨1, e.output, i.failureText e.files f, e.files, e.written⟩

def targets : List String :=
  match i.verb with
  | .emit => i.output.toList
  | .build => [i.sourcePath]
  | _ => []

def wanted (files : Files) : List String :=
  let roots := i.roots ((i.settings decode files).toOption.getD .default)
  let programs := files.entries.filterMap fun (_, e) =>
    match e with
    | .text source => (parse source).toOption
    | _ => none
  let modules := programs.flatMap fun p => p.imports.flatMap (Resolver.candidates roots)
  i.options.config.toList ++ i.file :: modules ++ i.targets ++ i.targets.map Path.parent

end Invocation

end VnScript.Command
