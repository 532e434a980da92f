import VnScript.Files.Error
import VnScript.Text.Split

namespace VnScript

/-- What stands at a place in a file tree. The content of a file that is not
UTF-8 does not matter. -/
inductive FileEntry where
  | text (content : String)
  | binary
  | directory
  deriving DecidableEq

def FileEntry.ofBytes (bytes : ByteArray) : FileEntry :=
  match String.fromUTF8? bytes with
  | some content => .text content
  | none => .binary

/-- A place, as the names that lead to it from the top. -/
abbrev FilePlace := List String

/-- A file tree with a working directory, where relative paths start. -/
structure Files where
  working : FilePlace
  entries : List (FilePlace × FileEntry)

namespace Files

def entry? (f : Files) (place : FilePlace) : Option FileEntry :=
  if place = [] then some .directory else f.entries.lookup place

def putIn (place : FilePlace) (entry : FileEntry) :
    List (FilePlace × FileEntry) → List (FilePlace × FileEntry)
  | [] => [(place, entry)]
  | (p, e) :: rest => if p = place then (place, entry) :: rest else (p, e) :: putIn place entry rest

def put (f : Files) (place : FilePlace) (entry : FileEntry) : Files :=
  { f with entries := putIn place entry f.entries }

def makeDirectories (f : Files) (here : FilePlace) : List String → Files
  | [] => f
  | name :: rest =>
    makeDirectories (f.put (here ++ [name]) .directory) (here ++ [name]) rest

def empty (working : FilePlace) : Files := makeDirectories ⟨working, []⟩ [] working

def segments (path : String) : List String := (Text.split '/' path.toList).map String.ofList

def step (place : FilePlace) (name : String) : FilePlace :=
  if name = "" ∨ name = "." then place
  else if name = ".." then place.dropLast
  else place ++ [name]

def nameLimit : Nat := 255

def pathLimit : Nat := 4095

def checkPath (path : String) : Except FileError Unit :=
  if path = "" then .error .notFound
  else if pathLimit < path.utf8ByteSize then .error .nameTooLong
  else .ok ()

/-- Follow a path from a place. Every part of it but the last has to be a directory. -/
def walk (f : Files) (here : FilePlace) : List String → Except FileError FilePlace
  | [] => .ok here
  | name :: rest =>
    match f.entry? here with
    | none => .error .notFound
    | some .directory =>
      if nameLimit < name.utf8ByteSize then .error .nameTooLong else walk f (step here name) rest
    | some _ => .error .notDirectory

def origin (f : Files) (path : String) : FilePlace :=
  if path.toList.head? = some '/' then [] else f.working

def find (f : Files) (path : String) : Except FileError FileEntry := do
  checkPath path
  let place ← f.walk (f.origin path) (segments path)
  match f.entry? place with
  | some entry => return entry
  | none => throw .notFound

def isFile (f : Files) (path : String) : Bool :=
  match f.find path with
  | .ok (.text _) => true
  | .ok .binary => true
  | _ => false

def read (f : Files) (path : String) : Except FileError String :=
  match f.find path with
  | .ok (.text content) => .ok content
  | .ok .binary => .error .invalidText
  | .ok .directory => .error .isDirectory
  | .error e => .error e

/-- The parts of a path up to its last name, without separators at the end. -/
def namedParts (path : String) : List String :=
  ((segments path).reverse.dropWhile (· == "")).reverse

/-- Write a text file into a directory that exists. A path that ends in a
separator can only mean a directory. -/
def write (f : Files) (path content : String) : Except FileError Files := do
  checkPath path
  let parts := namedParts path
  let place ← f.walk (f.origin path) parts.dropLast
  match f.entry? place, parts.getLast? with
  | none, _ => throw .notFound
  | some .directory, none => throw .isDirectory
  | some .directory, some name =>
    -- Fewer parts than segments: there are separators at the end.
    if parts.length < (segments path).length ∨ name = "." ∨ name = ".." ∨
        f.entry? (place ++ [name]) = some .directory then throw .isDirectory
    else if nameLimit < name.utf8ByteSize then throw .nameTooLong
    else return f.put (place ++ [name]) (.text content)
  | some _, _ => throw .notDirectory

def create (f : Files) (path : String) (entry : FileEntry) : Files :=
  let place := (segments path).foldl step (f.origin path)
  (f.makeDirectories [] place.dropLast).put place entry

def remove (f : Files) (path : String) : Files :=
  match f.walk (f.origin path) (segments path) with
  | .ok place => { f with entries := f.entries.filter fun (p, _) => !place.isPrefixOf p }
  | .error _ => f

end Files

end VnScript
