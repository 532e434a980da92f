import VnScript.Files.Error
import VnScript.Grammar.Error

namespace VnScript

/-- Why a module cannot be had. A chain of imports leads from the first module
to the one that closes the circle. -/
inductive ResolveError where
  | notFound (name : String) (searched : List String)
  | circular (name : String) (chain : List String)
  | unreadable (path : String) (error : FileError)
  | malformed (path : String) (error : ParseError)
  deriving DecidableEq

def ResolveError.message : ResolveError → String
  | notFound name searched =>
    "Module '" ++ name ++ "' not found (searched: " ++ String.intercalate ", " searched ++ ")"
  | circular name chain =>
    "Circular import of '" ++ name ++ "': " ++ String.intercalate " -> " chain
  | unreadable path error => "Reading module " ++ path ++ ": " ++ error.message
  | malformed path error => "In module " ++ path ++ ": " ++ error.message

end VnScript
