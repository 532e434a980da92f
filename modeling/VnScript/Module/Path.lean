import VnScript.Files.Path
import VnScript.Text.Split

namespace VnScript

def moduleExtension : String := "vn"

/-- The path of a module below a search root: its name with the points as
separators, and the extension of modules. -/
def modulePath (name : String) : String :=
  let parts := Text.split '.' name.toList
  Path.withExtension moduleExtension (String.ofList (parts.foldl Path.pushChars []))

end VnScript
