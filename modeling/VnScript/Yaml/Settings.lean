import VnScript.Settings
import VnScript.Yaml.Node

namespace VnScript

inductive SettingsError where
  | malformed
  | noMap
  | unknownKey (key : String)
  | repeatedKey (key : String)
  | wrongValue (key : String)
  deriving DecidableEq

def SettingsError.message : SettingsError → String
  | malformed => "malformed document"
  | noMap => "expected a map of settings"
  | unknownKey key => "unknown setting '" ++ key ++ "'"
  | repeatedKey key => "repeated setting '" ++ key ++ "'"
  | wrongValue key => "wrong value of setting '" ++ key ++ "'"

namespace Settings

open Yaml

def text? : Node → Option String
  | .scalar text _ _ => some text
  | _ => none

def isMissing : Node → Bool
  | .scalar text style _ => text.isEmpty && style == .plain
  | _ => false

/-- A list of texts. A missing value is the empty list. -/
def texts? (d : Document) (v : Node) : Option (List String) :=
  match v with
  | .list items => items.mapM fun item => text? (d.follow item)
  | _ => if isMissing v then some [] else none

def flagTag : String := "tag:yaml.org,2002:bool"

/-- The six spellings of the truth values. They are plain, or tagged as such in
a literal block. -/
def flag? : Node → Option Bool
  | .scalar text style tag =>
    if style ≠ .plain ∧ (style ≠ .literal ∨ tag ≠ some flagTag) then none
    else if ["true", "True", "TRUE"].contains text then some true
    else if ["false", "False", "FALSE"].contains text then some false
    else none
  | _ => none

def set (d : Document) (s : Settings) (key : String) (v : Node) : Except SettingsError Settings :=
  let orWrong (result : Option Settings) : Except SettingsError Settings :=
    match result with
    | some t => .ok t
    | none => .error (.wrongValue key)
  if key = "compiler" then orWrong ((text? v).map fun t => { s with compiler := t })
  else if key = "compiler_flags" then orWrong ((texts? d v).map fun ts => { s with compilerFlags := ts })
  else if key = "search_paths" then orWrong ((texts? d v).map fun ts => { s with searchPaths := ts })
  else if key = "debug_lexer" then orWrong ((flag? v).map fun b => { s with debugLexer := b })
  else .error (.unknownKey key)

def setAll (d : Document) (seen : List String) (s : Settings) :
    List (Node × Node) → Except SettingsError Settings
  | [] => .ok s
  | (k, v) :: rest =>
    match text? (d.follow k) with
    | none => .error .malformed
    | some key =>
      if seen.contains key then .error (.repeatedKey key)
      else do setAll d (key :: seen) (← s.set d key (d.follow v)) rest

/-- The settings of a document. What it leaves out stays as it is by default. -/
def ofDocument (text : String) : Except SettingsError Settings :=
  match Document.ofText? text with
  | none => .error .malformed
  | some d =>
    match d.root with
    | .map entries => setAll d [] default entries
    | v => if isMissing v then .ok default else .error .noMap

def ofText (text : String) : Except SettingsError Settings := read ofDocument text

def yamlDecoder : Decoder := fun text => (ofDocument text).mapError SettingsError.message

end Settings

end VnScript
