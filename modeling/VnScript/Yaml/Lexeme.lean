import VnScript.Yaml.Property

namespace VnScript.Yaml

inductive ScalarStyle where
  | plain | quoted | literal | folded
  deriving DecidableEq

/-- The signs of a document. Indentation is made explicit: a block opens with
its kind and closes with `blockEnd`. -/
inductive Lexeme where
  | directive (content : Directive)
  | documentStart | documentEnd
  | blockList | blockMap | blockEnd
  | openList | closeList | openMap | closeMap
  | entry | comma | key | value
  | reference (name : String)
  | anchor (name : String)
  | tag (content : Tag)
  | scalar (text : String) (style : ScalarStyle)
  deriving DecidableEq

/-- A place where a key may have started: the number of lexemes before it, and
whether nothing but a key can stand there. -/
structure KeyStart where
  place : Cursor
  position : Nat
  required : Bool

/-- A key stands on one line, and its colon follows within 1024 characters. -/
def KeyStart.isPast (k : KeyStart) (c : Cursor) : Bool :=
  k.place.line < c.line || k.place.index + 1024 < c.index

/-- A document read up to a place. `columns` are those of the open blocks, the
innermost first. There is at most one possible start of a key outside of
brackets and one in each open pair, the innermost of them in `keyStart`. -/
structure Scanner where
  cursor : Cursor
  lexemes : Array Lexeme
  columns : List Nat
  keyStart : Option KeyStart
  outerKeyStarts : List (Option KeyStart)
  keyAllowed : Bool

namespace Scanner

def ofText (text : String) : Scanner := ⟨.ofText text, #[], [], none, [], true⟩

def inFlow (s : Scanner) : Bool := !s.outerKeyStarts.isEmpty

def emit (s : Scanner) (x : Lexeme) : Scanner := { s with lexemes := s.lexemes.push x }

def emitAt (s : Scanner) (position : Nat) (x : Lexeme) : Scanner :=
  { s with lexemes := s.lexemes.insertIdxIfInBounds position x }

def emitSign (s : Scanner) (x : Lexeme) (keyAllowed : Bool) : Scanner :=
  { s with cursor := s.cursor.skip 1, keyAllowed := keyAllowed }.emit x

/-- Skip blanks, comments and line ends. A key may start on a new line. No tab
stands where a key could start. -/
def skipGap : Nat → Scanner → Scanner
  | 0, s => s
  | count + 1, s =>
    match s.cursor.rest with
    | [] => s
    | x :: _ =>
      if x = ' ' ∨ (x = '\t' ∧ (s.inFlow ∨ !s.keyAllowed)) ∨ (x = '\ufeff' ∧ s.cursor.index = 0) then
        skipGap count { s with cursor := s.cursor.skip 1 }
      else if x = '#' then
        skipGap count { s with cursor := s.cursor.skipWhile fun y => !isBreak y }
      else if isBreak x then
        skipGap count { s with cursor := s.cursor.skipBreak, keyAllowed := s.keyAllowed || !s.inFlow }
      else s

def releaseKey (s : Scanner) : Option Scanner :=
  if s.keyStart.any (·.required) then none else some { s with keyStart := none }

/-- Give up a start of a key that is past. Those outside of the innermost
brackets wait until these are closed. -/
def releasePast (s : Scanner) : Option Scanner :=
  if s.keyStart.any (·.isPast s.cursor) then s.releaseKey else some s

def noteKey (s : Scanner) : Option Scanner := do
  if !s.keyAllowed then return s
  let s ← s.releaseKey
  let required := !s.inFlow && s.columns.head? == some s.cursor.column
  return { s with keyStart := some ⟨s.cursor, s.lexemes.size, required⟩ }

def closeBlocks (column : Nat) (s : Scanner) : Scanner :=
  if s.inFlow then s
  else
    let deeper := s.columns.takeWhile fun c => column < c
    { s with
      columns := s.columns.drop deeper.length
      lexemes := s.lexemes ++ (deeper.map fun _ => .blockEnd).toArray }

def closeAllBlocks (s : Scanner) : Scanner :=
  if s.inFlow then s
  else { s with columns := [], lexemes := s.lexemes ++ (s.columns.map fun _ => .blockEnd).toArray }

def openBlock (s : Scanner) (column position : Nat) (x : Lexeme) : Scanner :=
  if s.inFlow || s.columns.head?.any fun c => column ≤ c then s
  else { s with columns := column :: s.columns }.emitAt position x

def openBlockHere (s : Scanner) (x : Lexeme) : Scanner :=
  s.openBlock s.cursor.column s.lexemes.size x

def readDirective (s : Scanner) : Option Scanner := do
  let s ← s.closeAllBlocks.releaseKey
  let (content, c) ← directive? (s.cursor.skip 1)
  return { s with cursor := c, keyAllowed := false }.emit (.directive content)

def readMarker (s : Scanner) (x : Lexeme) : Option Scanner := do
  let s ← s.closeAllBlocks.releaseKey
  return { s with cursor := s.cursor.skip 3, keyAllowed := false }.emit x

def openFlow (s : Scanner) (x : Lexeme) : Option Scanner := do
  let s ← s.noteKey
  return { s with keyStart := none, outerKeyStarts := s.keyStart :: s.outerKeyStarts }.emitSign x true

def closeFlow (s : Scanner) (x : Lexeme) : Option Scanner := do
  let s ← s.releaseKey
  return match s.outerKeyStarts with
    | [] => s.emitSign x false
    | k :: outer => { s with keyStart := k, outerKeyStarts := outer }.emitSign x false

def readComma (s : Scanner) : Option Scanner := do
  let s ← s.releaseKey
  return s.emitSign .comma true

def readEntry (s : Scanner) : Option Scanner := do
  if !s.inFlow && !s.keyAllowed then none
  let s ← (s.openBlockHere .blockList).releaseKey
  return s.emitSign .entry true

def readKey (s : Scanner) : Option Scanner := do
  if !s.inFlow && !s.keyAllowed then none
  let s ← (s.openBlockHere .blockMap).releaseKey
  return s.emitSign .key !s.inFlow

/-- Read the sign of a value. What may have been a key is one now. -/
def readValue (s : Scanner) : Option Scanner :=
  match s.keyStart with
  | some k =>
    let s := { s with keyStart := none }.emitAt k.position .key
    some ((s.openBlock k.place.column k.position .blockMap).emitSign .value false)
  | none =>
    if !s.inFlow && !s.keyAllowed then none
    else some ((s.openBlockHere .blockMap).emitSign .value !s.inFlow)

def readInline (s : Scanner) (read : Cursor → Option (Lexeme × Cursor)) : Option Scanner := do
  let s ← s.noteKey
  let (x, c) ← read s.cursor
  return { s with cursor := c, keyAllowed := false }.emit x

def readBlockScalar (s : Scanner) (style : ScalarStyle) : Option Scanner := do
  let s ← s.releaseKey
  let (text, c) ← blockScalar (style = .folded) s.columns.head? (s.cursor.skip 1)
  return { s with cursor := c, keyAllowed := true }.emit (.scalar (String.ofList text) style)

def readQuoted (count : Nat) (s : Scanner) (quote : Char) : Option Scanner :=
  s.readInline fun c =>
    (quotedScalar quote count (c.skip 1)).map fun (text, c) =>
      (.scalar (String.ofList text) .quoted, c)

def readPlain (count : Nat) (s : Scanner) : Option Scanner := do
  let s ← s.noteKey
  let least := s.columns.head?.elim 0 (· + 1)
  let (text, crossed, c) ← plainScalar s.inFlow least count .none s.cursor
  return { s with cursor := c, keyAllowed := crossed }.emit (.scalar (String.ofList text) .plain)

def isReserved (c : Char) : Bool :=
  isFlowSign c || ['#', '&', '*', '!', '|', '>', '\x27', '"', '%', '@', '\x60'].contains c

def readLexeme (count : Nat) (s : Scanner) (x : Char) (rest : List Char) : Option Scanner :=
  let c := s.cursor
  if c.column = 0 ∧ x = '%' then s.readDirective
  else if c.atMarker '-' then s.readMarker .documentStart
  else if c.atMarker '.' then s.readMarker .documentEnd
  else if x = '[' then s.openFlow .openList
  else if x = '{' then s.openFlow .openMap
  else if x = ']' then s.closeFlow .closeList
  else if x = '}' then s.closeFlow .closeMap
  else if x = ',' then s.readComma
  else if x = '-' ∧ atGap rest then s.readEntry
  else if x = '?' ∧ (s.inFlow ∨ atGap rest) then s.readKey
  else if x = ':' ∧ (s.inFlow ∨ atGap rest) then s.readValue
  else if x = '*' then
    s.readInline fun c => (nodeName? (c.skip 1)).map fun (name, c) => (.reference name, c)
  else if x = '&' then
    s.readInline fun c => (nodeName? (c.skip 1)).map fun (name, c) => (.anchor name, c)
  else if x = '!' then
    s.readInline fun c => (tag? s.inFlow c).map fun (content, c) => (.tag content, c)
  else if x = '|' ∧ !s.inFlow then s.readBlockScalar .literal
  else if x = '>' ∧ !s.inFlow then s.readBlockScalar .folded
  else if x = '\x27' ∨ x = '"' then s.readQuoted count x
  else if isReserved x || isBlank x then none
  else s.readPlain count

def readAll : Nat → Scanner → Option Scanner
  | 0, s => some s
  | count + 1, s => do
    let s ← (s.skipGap count).releasePast
    let s := s.closeBlocks s.cursor.column
    match s.cursor.rest with
    | [] => s.closeAllBlocks.releaseKey
    | x :: rest => readAll count (← s.readLexeme count x rest)

end Scanner

def lexemes? (text : String) : Option (List Lexeme) := do
  if !text.toList.all isAllowed then none
  let s ← Scanner.readAll (text.length + 1) (.ofText text)
  return s.lexemes.toList

end VnScript.Yaml
