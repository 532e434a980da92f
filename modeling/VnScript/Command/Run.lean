import VnScript.Command.Arguments
import VnScript.Yaml.Settings

namespace VnScript.Command

def run (limit : Nat) (arguments : List String) (w : World) : Option Report :=
  match Invocation.ofArguments arguments with
  | .ok i => i.run Settings.yamlDecoder limit w
  | .error e => some ⟨2, "", "error: " ++ e.message ++ "\n", w.files, []⟩

end VnScript.Command
