namespace VnScript.Path

/-- Go from `path` to `part`. An absolute part starts anew, and between two
parts stands one separator at least. -/
def pushChars (path part : List Char) : List Char :=
  if part.head? = some '/' then part
  else if path.isEmpty || path.getLast? == some '/' then path ++ part
  else path ++ '/' :: part

def join (root relative : String) : String :=
  String.ofList (pushChars root.toList relative.toList)

/-- Drop what names nothing from the end of a path, which is given in reverse:
separators, and points that stand for the directory before them. -/
def trimReversed : List Char → List Char
  | '/' :: rest => trimReversed rest
  | '.' :: '/' :: rest => trimReversed rest
  | cs => cs

def notSeparator (c : Char) : Bool := c != '/'

/-- The name of the file that a path leads to, with what stands before it. A
path that ends in a directory sign names no file. -/
def splitName? (path : List Char) : Option (List Char × List Char) :=
  let body := trimReversed path.reverse
  let name := (body.takeWhile notSeparator).reverse
  if name = [] ∨ name = ['.'] ∨ name = ['.', '.'] then none
  else some ((body.dropWhile notSeparator).reverse, name)

def stem (name : List Char) : List Char :=
  match name.reverse.dropWhile (· != '.') with
  | _ :: c :: rest => (c :: rest).reverse
  | _ => name

/-- The extension of a file name: what follows its last point, unless that is
its first character. -/
def extension? (name : List Char) : Option (List Char) :=
  match name.reverse.dropWhile (· != '.') with
  | _ :: _ :: _ => some (name.reverse.takeWhile (· != '.')).reverse
  | _ => none

def withExtensionChars (ext path : List Char) : List Char :=
  match splitName? path with
  | some (before, name) => before ++ stem name ++ (if ext.isEmpty then [] else '.' :: ext)
  | none => path

/-- Give a file name an extension, in place of the one it has. An empty one takes
the point with it, and a path without a file name stays. -/
def withExtension (ext path : String) : String :=
  String.ofList (withExtensionChars ext.toList path.toList)

/-- Cut off as many characters as the extension of the file name has. -/
def cutExtension (path : List Char) : List Char :=
  match (splitName? path).bind fun (_, name) => extension? name with
  | some ext => path.take (path.length - ext.length)
  | none => path

/-- Cut off the extension and give another. Where no file name is left in
between, as in `..x`, none is given. -/
def replaceExtension (ext path : String) : String :=
  String.ofList (withExtensionChars ext.toList (cutExtension path.toList))

def parent (path : String) : String :=
  let body := trimReversed path.toList.reverse
  let before := body.dropWhile notSeparator
  let trimmed := trimReversed before
  if trimmed.isEmpty && !before.isEmpty then "/" else String.ofList trimmed.reverse

end VnScript.Path
