import VnScript.Yaml.Cursor

namespace VnScript.Yaml

/-- The blanks and line ends between two words of a scalar. Behind a line end
blanks do not count; `first` and `more` are what the line ends stand for. -/
structure Gap where
  blanks : List Char
  crossed : Bool
  first : List Char
  more : List Char

namespace Gap

def none : Gap := ⟨[], false, [], []⟩

def escapedBreak : Gap := ⟨[], true, [], []⟩

/-- A single newline becomes a space, and of several the first is dropped. -/
def text (g : Gap) : List Char :=
  if !g.crossed then g.blanks
  else if g.first ≠ ['\n'] then g.first ++ g.more
  else if g.more.isEmpty then [' ']
  else g.more

def addBreak (g : Gap) (text : List Char) : Gap :=
  if g.crossed then { g with more := g.more ++ text } else ⟨[], true, text, []⟩

/-- Read on in a gap. Behind a line end no tab stands before the column `least`. -/
def read (least : Nat) : Nat → Gap → Cursor → Option (Gap × Cursor)
  | 0, g, c => some (g, c)
  | count + 1, g, c =>
    match c.rest with
    | [] => some (g, c)
    | x :: _ =>
      if isBreak x then read least count (g.addBreak c.breakText) c.skipBreak
      else if !isBlank x then some (g, c)
      else if !g.crossed then read least count { g with blanks := g.blanks ++ [x] } (c.skip 1)
      else if x = '\t' ∧ c.column < least then Option.none
      else read least count g (c.skip 1)

end Gap

/-- The characters of a plain scalar up to a gap or to what ends it. Within
brackets no colon stands before a bracket, a comma or a question mark. -/
def plainWord (inFlow : Bool) : List Char → Option (List Char)
  | [] => some []
  | x :: rest =>
    if isBlank x || isBreak x then some []
    else if inFlow && x == ':' && rest.head?.any fun y => isFlowSign y || y == '?' then none
    else if (x == ':' && atGap rest) || (inFlow && isFlowSign x) then some []
    else (plainWord inFlow rest).map (x :: ·)

/-- Read a plain scalar behind a gap. Its further lines start in the column
`least` or behind it, unless it stands within brackets. The flag tells whether
the cursor is on a new line behind it. -/
def plainScalar (inFlow : Bool) (least : Nat) : Nat → Gap → Cursor →
    Option (List Char × Bool × Cursor)
  | 0, g, c => some ([], g.crossed, c)
  | count + 1, g, c =>
    if c.atAnyMarker || c.rest.head? == some '#' then some ([], g.crossed, c)
    else do
      let word ← plainWord inFlow c.rest
      if word.isEmpty then return ([], g.crossed, c)
      let c := c.skip word.length
      let (next, c) ← Gap.none.read least count c
      if !inFlow && c.column < least then return (g.text ++ word, next.crossed, c)
      let (more, crossed, c) ← plainScalar inFlow least count next c
      return (g.text ++ word ++ more, crossed, c)

def escapedChar? : Char → Option Char
  | '0' => some '\x00'
  | 'a' => some '\x07'
  | 'b' => some '\x08'
  | 't' => some '\t'
  | '\t' => some '\t'
  | 'n' => some '\n'
  | 'v' => some '\x0b'
  | 'f' => some '\x0c'
  | 'r' => some '\r'
  | 'e' => some '\x1b'
  | ' ' => some ' '
  | '"' => some '"'
  | '/' => some '/'
  | '\\' => some '\\'
  | 'N' => some '\x85'
  | '_' => some '\xa0'
  | 'L' => some '\u2028'
  | 'P' => some '\u2029'
  | _ => none

def hexWidth? : Char → Option Nat
  | 'x' => some 2
  | 'u' => some 4
  | 'U' => some 8
  | _ => none

def hexDigit? (c : Char) : Option Nat :=
  if c.isDigit then some (c.toNat - '0'.toNat)
  else if 'a' ≤ c ∧ c ≤ 'f' then some (c.toNat - 'a'.toNat + 10)
  else if 'A' ≤ c ∧ c ≤ 'F' then some (c.toNat - 'A'.toNat + 10)
  else none

def hexValue? (width : Nat) (cs : List Char) : Option Nat :=
  if cs.length < width then none
  else (cs.take width).foldlM (fun n c => (hexDigit? c).map (16 * n + ·)) 0

def escape? : List Char → Option (Char × Nat)
  | [] => none
  | sign :: digits =>
    match hexWidth? sign with
    | none => (escapedChar? sign).map fun c => (c, 1)
    | some width => do
      let n ← hexValue? width digits
      if n.isValidChar then return (Char.ofNat n, width + 1) else none

/-- The characters of a quoted scalar up to a gap or to the closing quote, and
the gap that begins behind them. In single quotes a quote is written twice. -/
def quotedWord (quote : Char) : Nat → Cursor → Option (List Char × Gap × Cursor)
  | 0, c => some ([], .none, c)
  | count + 1, c =>
    match c.rest with
    | [] => some ([], .none, c)
    | x :: rest =>
      let continued (y : Char) (width : Nat) : Option (List Char × Gap × Cursor) :=
        (quotedWord quote count (c.skip width)).map fun (word, g, c) => (y :: word, g, c)
      if isBlank x || isBreak x then some ([], .none, c)
      else if x = quote then
        if quote = '\x27' ∧ rest.head? = some quote then continued x 2 else some ([], .none, c)
      else if x ≠ '\\' ∨ quote = '\x27' then continued x 1
      else if (c.skip 1).atBreak then some ([], .escapedBreak, (c.skip 1).skipBreak)
      else do
        let (y, width) ← escape? rest
        continued y (width + 1)

def quotedScalar (quote : Char) : Nat → Cursor → Option (List Char × Cursor)
  | 0, _ => none
  | count + 1, c =>
    if c.atAnyMarker || c.rest.isEmpty then none
    else do
      let (word, g, c) ← quotedWord quote (count + 1) c
      if c.rest.head? = some quote then return (word, c.skip 1)
      let (g, c) ← g.read 0 count c
      let (more, c) ← quotedScalar quote count c
      return (word ++ g.text ++ more, c)

inductive Chomping where
  | strip | clip | keep

def chomping? : Char → Option Chomping
  | '-' => some .strip
  | '+' => some .keep
  | _ => none

/-- The signs behind the one that opens a block scalar: an indentation and a
chomping, in either order. Zero stands for an indentation that is not given. -/
def blockHeader (c : Cursor) : Option (Nat × Chomping × Cursor) :=
  let indentation (c : Cursor) : Option (Nat × Cursor) :=
    match c.rest with
    | x :: _ =>
      if x = '0' then none else if x.isDigit then some (x.toNat - '0'.toNat, c.skip 1) else some (0, c)
    | [] => some (0, c)
  let chomping (c : Cursor) : Option Chomping := c.rest.head?.bind chomping?
  match chomping c with
  | some chomp => do
    let (n, c) ← indentation (c.skip 1)
    return (n, chomp, c)
  | none => do
    let (n, c') ← indentation c
    if n = 0 then return (0, .clip, c)
    match chomping c' with
    | some chomp => return (n, chomp, c'.skip 1)
    | none => return (n, .clip, c')

/-- Skip indentation and read the line ends of blank lines. With the limit zero
all spaces are indentation; `deepest` is the last column that they reach. -/
def blankLines (limit : Nat) : Nat → Nat → List Char → Cursor → Option (Nat × List Char × Cursor)
  | 0, deepest, text, c => some (deepest, text, c)
  | count + 1, deepest, text, c =>
    let inside := limit == 0 || c.column < limit
    match c.rest with
    | [] => some (max deepest c.column, text, c)
    | x :: _ =>
      if inside && x == ' ' then blankLines limit count deepest text (c.skip 1)
      else if inside && x == '\t' then none
      else if isBreak x then
        blankLines limit count (max deepest c.column) (text ++ c.breakText) c.skipBreak
      else some (max deepest c.column, text, c)

/-- The lines of a block scalar read so far, with the line end behind the last
one and those of the blank lines that follow it. -/
structure BlockText where
  text : List Char
  lineEnd : List Char
  more : List Char
  indented : Bool

namespace BlockText

/-- Add a line. Folding turns a newline between lines that start with no blank
into a space, or drops it where blank lines follow. -/
def addLine (b : BlockText) (folds : Bool) (line lineEnd : List Char) : BlockText :=
  let indented := line.head?.any isBlank
  let joint :=
    if folds && b.lineEnd == ['\n'] && !b.indented && !indented then
      if b.more.isEmpty then [' '] else []
    else b.lineEnd
  ⟨b.text ++ joint ++ b.more ++ line, lineEnd, [], indented⟩

def chomped (b : BlockText) : Chomping → List Char
  | .strip => b.text
  | .clip => b.text ++ b.lineEnd
  | .keep => b.text ++ b.lineEnd ++ b.more

end BlockText

def blockLines (folds : Bool) (column : Nat) : Nat → BlockText → Cursor → Option (BlockText × Cursor)
  | 0, b, c => some (b, c)
  | count + 1, b, c =>
    if c.column ≠ column ∨ c.rest.isEmpty then some (b, c)
    else do
      let line := c.rest.takeWhile fun x => !isBreak x
      let c := c.skip line.length
      let b := b.addLine folds line c.breakText
      let c := c.skipBreak
      let (_, more, c) ← blankLines column count 0 [] c
      blockLines folds column count { b with more := more } c

def blockScalar (folds : Bool) (outer : Option Nat) (c : Cursor) : Option (List Char × Cursor) := do
  let (indentation, chomp, c) ← blockHeader c
  let c ← c.finishLine
  let given := if indentation = 0 then 0 else outer.getD 0 + indentation
  let (deepest, more, c) ← blankLines given c.rest.length 0 [] c
  let least := max 1 (outer.elim 0 (· + 1))
  let column := if given = 0 then max deepest least else given
  let (b, c) ← blockLines folds column c.rest.length ⟨[], [], more, false⟩ c
  return (b.chomped chomp, c)

end VnScript.Yaml
