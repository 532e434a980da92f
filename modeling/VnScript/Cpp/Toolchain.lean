import VnScript.Files.Error

namespace VnScript

structure Toolchain where
  compiler : String
  flags : List String
  deriving DecidableEq

def Toolchain.default : Toolchain := ⟨"c++", ["-std=c++17", "-O2"]⟩

/-- What comes of running a compiler. One that accepts its input need not
leave an executable behind. -/
inductive CompilerResult where
  | notFound
  | rejected (output : String)
  | accepted
  deriving DecidableEq

/-- What the command of each name does when it is run as a compiler. -/
abbrev Compilers := String → CompilerResult

inductive BuildError where
  | compilerNotFound (compiler : String)
  | rejected (output : String)
  | noExecutable
  deriving DecidableEq

def BuildError.message : BuildError → String
  | compilerNotFound compiler =>
    "Running C++ compiler '" ++ compiler ++ "': " ++ FileError.notFound.message
  | rejected output => "C++ compilation failed: " ++ output
  | noExecutable => "Running compiled program: " ++ FileError.notFound.message

def Toolchain.compile (compilers : Compilers) (t : Toolchain) : Except BuildError Unit :=
  match compilers t.compiler with
  | .notFound => .error (.compilerNotFound t.compiler)
  | .rejected output => .error (.rejected output)
  | .accepted => .ok ()

end VnScript
