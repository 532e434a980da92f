import VnScript.Yaml.Lexeme

namespace VnScript.Yaml

/-- A value in a document. The style and the tag of a scalar may give it another
type than text. A reference stands for the node with its number. -/
inductive Node where
  | scalar (text : String) (style : ScalarStyle) (tag : Option String)
  | list (items : List Node)
  | map (entries : List (Node × Node))
  | reference (number : Nat)

def Node.missing : Node := .scalar "" .plain none

/-- A node with the named nodes in it, the one that starts last first. -/
structure Document where
  root : Node
  named : List (Nat × Node)

/-- The node that a reference stands for. A number given twice is that of the node
that starts last. -/
def Document.follow (d : Document) : Node → Node
  | .reference number => (d.named.lookup number).getD .missing
  | v => v

/-- The lexemes left, what the handles of tags stand for, the numbers of names,
and the nodes that have names. `places` leads from a number to a node. -/
structure Supply where
  lexemes : List Lexeme
  handles : List (String × String)
  names : List (String × Nat)
  places : List (Nat × Nat)
  nodes : Array Node

abbrev Reader := StateT Supply Option

namespace Reader

def peek : Reader (Option Lexeme) := return (← get).lexemes.head?

def skip : Reader Unit := modify fun s => { s with lexemes := s.lexemes.drop 1 }

def at? (expected : List Lexeme) : Reader Bool := return (← peek).any expected.contains

def skip? (expected : Lexeme) : Reader Bool := do
  if ← at? [expected] then
    skip
    return true
  else return false

def expect (expected : Lexeme) : Reader Unit := do
  if !(← skip? expected) then failure

def anchor? : Reader (Option String) := do
  match ← peek with
  | some (.anchor name) =>
    skip
    return some name
  | _ => return none

def tagText (tag : Tag) : Reader String := do
  if tag.handle = "" then return tag.rest
  match (← get).handles.lookup tag.handle with
  | some start => return start ++ tag.rest
  | none => failure

def tag? : Reader (Option String) := do
  match ← peek with
  | some (.tag content) =>
    skip
    return some (← tagText content)
  | _ => return none

def properties : Reader (Option String × Option String) := do
  match ← anchor? with
  | some name => return (some name, ← tag?)
  | none =>
    let tag ← tag?
    return (← anchor?, tag)

def reference (name : String) : Reader Node := do
  match (← get).names.lookup name with
  | some number => return .reference number
  | none => failure

/-- Name the node that starts here, and give its place. Its number is how many
names are known so far. A name may be given anew. -/
def announce (name : String) : Reader Nat := do
  let s ← get
  let number := s.names.length
  let place := s.nodes.size
  set { s with
    names := (name, number) :: s.names.filter fun (n, _) => n != name
    places := (number, place) :: s.places
    nodes := s.nodes.push .missing }
  return place

def store (place : Nat) (node : Node) : Reader Unit :=
  modify fun s => { s with nodes := s.nodes.setIfInBounds place node }

def missingIf (allowed : Bool) (tag : Option String) : Reader Node :=
  if allowed then return .scalar "" .plain tag else failure

mutual

/-- Read a node. In a block it may be a block itself; in a map within a block a
list may stand in the column of the map. -/
def node (inBlock inMap : Bool) : Nat → Reader Node
  | 0 => failure
  | count + 1 => do
    match ← peek with
    | some (.reference name) =>
      skip
      reference name
    | _ =>
      let (name, tag) ← properties
      let place ← name.mapM announce
      let result ← content inBlock inMap (name.isSome || tag.isSome) tag count
      place.forM fun p => store p result
      return result

def content (inBlock inMap mayMiss : Bool) (tag : Option String) : Nat → Reader Node
  | 0 => failure
  | count + 1 => do
    match ← peek, inBlock, inMap with
    | some (.scalar text style), _, _ =>
      skip
      return .scalar text style tag
    | some .openList, _, _ =>
      skip
      return .list (← flowItems true count)
    | some .openMap, _, _ =>
      skip
      return .map (← flowEntries true count)
    | some .blockList, true, _ =>
      skip
      return .list (← blockItems count)
    | some .blockMap, true, _ =>
      skip
      return .map (← blockEntries count)
    | some .entry, _, true => return .list (← openItems count)
    | _, _, _ => missingIf mayMiss tag

def nodeBefore (stops : List Lexeme) (inBlock inMap : Bool) : Nat → Reader Node
  | 0 => failure
  | count + 1 => do
    if ← at? stops then return .missing else node inBlock inMap count

def blockItems : Nat → Reader (List Node)
  | 0 => failure
  | count + 1 => do
    if ← skip? .blockEnd then return []
    expect .entry
    let item ← nodeBefore [.entry, .blockEnd] true false count
    return item :: (← blockItems count)

/-- Read items that stand in the column of the map around them. -/
def openItems : Nat → Reader (List Node)
  | 0 => failure
  | count + 1 => do
    if ← skip? .entry then
      let item ← nodeBefore [.entry, .key, .value, .blockEnd] true false count
      return item :: (← openItems count)
    else return []

def blockEntries : Nat → Reader (List (Node × Node))
  | 0 => failure
  | count + 1 => do
    if ← skip? .blockEnd then return []
    expect .key
    let key ← nodeBefore [.key, .value, .blockEnd] true true count
    let value ← if ← skip? .value then nodeBefore [.key, .value, .blockEnd] true true count
      else pure .missing
    return (key, value) :: (← blockEntries count)

/-- Read the items of a list in brackets. Commas stand between them, and one
may follow the last. A key among them makes a map of one entry. -/
def flowItems (isFirst : Bool) : Nat → Reader (List Node)
  | 0 => failure
  | count + 1 => do
    if ← skip? .closeList then return []
    if !isFirst then expect .comma
    if ← skip? .closeList then return []
    let item ← if ← skip? .key then do
        let key ← nodeBefore [.value, .comma, .closeList] false false count
        let value ← flowValue [.comma, .closeList] count
        pure (.map [(key, value)])
      else node false false count
    return item :: (← flowItems false count)

/-- Read the entries of a map in brackets. What has no colon has no value. -/
def flowEntries (isFirst : Bool) : Nat → Reader (List (Node × Node))
  | 0 => failure
  | count + 1 => do
    if ← skip? .closeMap then return []
    if !isFirst then expect .comma
    if ← skip? .closeMap then return []
    let entry ← if ← skip? .key then do
        let key ← nodeBefore [.value, .comma, .closeMap] false false count
        pure (key, ← flowValue [.comma, .closeMap] count)
      else do pure (← node false false count, .missing)
    return entry :: (← flowEntries false count)

def flowValue (stops : List Lexeme) : Nat → Reader Node
  | 0 => failure
  | count + 1 => do
    if ← skip? .value then nodeBefore stops false false count else return .missing

end

def directives : Nat → Reader (List Directive)
  | 0 => return []
  | count + 1 => do
    match ← peek with
    | some (.directive content) =>
      skip
      return content :: (← directives count)
    | _ => return []

def commonHandles : List (String × String) := [("!", "!"), ("!!", "tag:yaml.org,2002:")]

/-- Check directives. There is at most one version, 1.1 or 1.2, and no handle
is bound twice. -/
def applyDirectives (hasVersion : Bool) (handles : List (String × String)) :
    List Directive → Reader Unit
  | [] => modify fun s => { s with handles := handles ++ commonHandles }
  | .version major minor :: rest =>
    if hasVersion || major != 1 || (minor != 1 && minor != 2) then failure
    else applyDirectives true handles rest
  | .handle handle text :: rest =>
    if (handles.lookup handle).isSome then failure
    else applyDirectives hasVersion ((handle, text) :: handles) rest

def isDirective : Lexeme → Bool
  | .directive _ => true
  | _ => false

/-- Read a document. An empty text is one too. -/
def document (count : Nat) : Reader Node := do
  let found ← directives count
  applyDirectives false [] found
  if ← skip? .documentStart then
    let next ← peek
    if next.all fun x => isDirective x || x == .documentStart || x == .documentEnd then
      return .missing
    else node true false count
  else if !found.isEmpty then failure
  else if (← peek).isNone then return .missing
  else node true false count

end Reader

def Supply.named (s : Supply) : List (Nat × Node) :=
  s.places.map fun (number, place) => (number, s.nodes.getD place .missing)

def Document.ofText? (text : String) : Option Document := do
  let xs ← lexemes? text
  let (root, s) ← (Reader.document (4 * xs.length + 4)).run ⟨xs, [], [], [], #[]⟩
  if s.lexemes.all (· == .documentEnd) then return ⟨root, s.named⟩ else none

end VnScript.Yaml
