import VnScript.Yaml.Scalar

namespace VnScript.Yaml

/-- A tag as it is written: a handle that a document binds, and what follows it.
With an empty handle the rest is the whole tag. -/
structure Tag where
  handle : String
  rest : String
  deriving DecidableEq

def nodeName? (c : Cursor) : Option (String × Cursor) :=
  let name := c.rest.takeWhile isWordChar
  let c := c.skip name.length
  let ends (x : Char) : Bool :=
    x == '?' || x == ':' || x == ',' || x == ']' || x == '}' || x == '%' || x == '@' || x == '\x60'
  if !name.isEmpty && (atGap c.rest || c.rest.head?.any ends) then some (String.ofList name, c)
  else none

def octetCount? (octet : Nat) : Option Nat :=
  if octet < 0x80 then some 1
  else if 0xc0 ≤ octet ∧ octet < 0xe0 then some 2
  else if 0xe0 ≤ octet ∧ octet < 0xf0 then some 3
  else if 0xf0 ≤ octet ∧ octet < 0xf8 then some 4
  else none

/-- Octets that are written with a percent sign and two digits each, all but
the first one following an octet. -/
def furtherOctets? : Nat → Cursor → Option (List Nat × Cursor)
  | 0, c => some ([], c)
  | count + 1, c => do
    if c.rest.head? ≠ some '%' then none
    let octet ← hexValue? 2 (c.rest.drop 1)
    if octet < 0x80 ∨ 0xc0 ≤ octet then none
    let (octets, c) ← furtherOctets? count (c.skip 3)
    return (octet :: octets, c)

def percentChar? (c : Cursor) : Option (Char × Cursor) := do
  let octet ← hexValue? 2 (c.rest.drop 1)
  let count ← octetCount? octet
  let (octets, c) ← furtherOctets? (count - 1) (c.skip 3)
  let bytes := ByteArray.mk ((octet :: octets).map UInt8.ofNat).toArray
  return (((String.fromUTF8? bytes).bind fun s => s.toList.head?).getD '\ufffd', c)

def isTagChar (brackets : Bool) (c : Char) : Bool :=
  isWordChar c || [';', '/', '?', ':', '@', '&', '=', '+', '$', '.', '%', '!', '~', '*', '\x27',
    '(', ')'].contains c || (brackets && (c == ',' || c == '[' || c == ']'))

def tagText (brackets : Bool) : Nat → Cursor → Option (List Char × Cursor)
  | 0, c => some ([], c)
  | count + 1, c =>
    match c.rest with
    | [] => some ([], c)
    | x :: _ =>
      if !isTagChar brackets x then some ([], c)
      else do
        let (y, c) ← if x = '%' then percentChar? c else some (x, c.skip 1)
        let (text, c) ← tagText brackets count c
        return (y :: text, c)

/-- The handle at the start of a text: an exclamation mark and a name, with
another mark if there is one. -/
def handleText : List Char → List Char
  | '!' :: rest =>
    let name := rest.takeWhile isWordChar
    '!' :: name ++ if (rest.drop name.length).head? = some '!' then ['!'] else []
  | _ => []

/-- Read a tag: the whole of it between angle brackets, or a handle with the
rest behind it. A lone exclamation mark is a tag too. -/
def tag? (inFlow : Bool) (c : Cursor) : Option (Tag × Cursor) := do
  let (tag, c) ←
    if (c.rest.drop 1).head? = some '<' then do
      let (text, c) ← tagText true c.rest.length (c.skip 2)
      if text.isEmpty ∨ c.rest.head? ≠ some '>' then none
      some (⟨"", String.ofList text⟩, c.skip 1)
    else do
      let handle := handleText c.rest
      let (text, c) ← tagText false c.rest.length (c.skip handle.length)
      if 1 < handle.length ∧ handle.getLast? = some '!' then
        if text.isEmpty then none
        some (⟨String.ofList handle, String.ofList text⟩, c)
      else
        let text := handle.drop 1 ++ text
        some (if text.isEmpty then ⟨"", "!"⟩ else ⟨"!", String.ofList text⟩, c)
  if atGap c.rest || (inFlow && c.rest.head? == some ',') then return (tag, c) else none

inductive Directive where
  | version (major minor : Nat)
  | handle (handle text : String)
  deriving DecidableEq

def number? (c : Cursor) : Option (Nat × Cursor) :=
  let digits := c.rest.takeWhile Char.isDigit
  if digits.isEmpty ∨ 9 < digits.length then none
  else some (Nat.ofDigitChars 10 digits 0, c.skip digits.length)

def versionDirective? (c : Cursor) : Option (Directive × Cursor) := do
  let (major, c) ← number? c
  if c.rest.head? ≠ some '.' then none
  let (minor, c) ← number? (c.skip 1)
  return (.version major minor, c)

def handleDirective? (c : Cursor) : Option (Directive × Cursor) := do
  let handle := handleText c.rest
  if handle.getLast? ≠ some '!' then none
  let c := c.skip handle.length
  if !c.rest.head?.any isBlank then none
  let c := c.skipWhile isBlank
  let (text, c) ← tagText true c.rest.length c
  if text.isEmpty || !atGap c.rest then none
  return (.handle (String.ofList handle) (String.ofList text), c)

def directive? (c : Cursor) : Option (Directive × Cursor) := do
  let name := c.rest.takeWhile isWordChar
  let c := c.skip name.length
  if !atGap c.rest then none
  let c := c.skipWhile isBlank
  let (directive, c) ←
    if name = "YAML".toList then versionDirective? c
    else if name = "TAG".toList then handleDirective? c
    else none
  return (directive, ← c.finishLine)

end VnScript.Yaml
