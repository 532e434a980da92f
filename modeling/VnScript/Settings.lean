import VnScript.Cpp.Toolchain
import VnScript.Text.Blank

namespace VnScript

structure Settings where
  compiler : String
  compilerFlags : List String
  searchPaths : List String
  debugLexer : Bool
  deriving DecidableEq

namespace Settings

def default : Settings where
  compiler := Toolchain.default.compiler
  compilerFlags := Toolchain.default.flags
  searchPaths := []
  debugLexer := false

def toolchain (s : Settings) : Toolchain := ⟨s.compiler, s.compilerFlags⟩

/-- Settings from a document, or the message that says what is wrong with it. -/
abbrev Decoder := String → Except String Settings

/-- Read a settings file. A blank one is no document, and changes nothing. -/
def read {ε : Type} (decode : String → Except ε Settings) (text : String) : Except ε Settings :=
  if (Text.trim text).isEmpty then .ok default else decode text

end Settings

end VnScript
