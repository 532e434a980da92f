import VnScript.Text.Blank
import VnScript.Token.Basic

namespace VnScript

inductive LexFault where
  | stray (c : Char)
  | openString
  | openChar

def LexFault.toError (place : Place) : LexFault → LexError
  | stray c => .unexpectedCharacter c place
  | openString => .unterminatedString place
  | openChar => .unterminatedChar place

/-- What is made of a text that starts with no blank: the kind and lexeme of
its first token or a fault, the characters consumed and those left. -/
structure Reading where
  outcome : Except LexFault (TokenKind × List Char)
  text : List Char
  rest : List Char

namespace Reading

def symbol? : Char → Option TokenKind
  | '.' => some .dot
  | ':' => some .colon
  | ';' => some .semicolon
  | ',' => some .comma
  | '(' => some .leftParen
  | ')' => some .rightParen
  | '{' => some .leftBrace
  | '}' => some .rightBrace
  | '<' => some .less
  | '>' => some .greater
  | '=' => some .assign
  | '+' => some .plus
  | '-' => some .minus
  | '*' => some .star
  | '/' => some .slash
  | '%' => some .percent
  | _ => none

def doubleSymbol? : Char → Char → Option TokenKind
  | '<', '<' => some .shiftLeft
  | '<', '=' => some .lessEqual
  | '>', '>' => some .shiftRight
  | '>', '=' => some .greaterEqual
  | '=', '=' => some .equal
  | '!', '=' => some .notEqual
  | '+', '=' => some .plusAssign
  | '-', '=' => some .minusAssign
  | '*', '=' => some .starAssign
  | '/', '=' => some .slashAssign
  | '%', '=' => some .percentAssign
  | _, _ => none

/-- Read a symbol of two characters, else one of one character. A stray
exclamation mark is consumed, any other stray character is left. -/
def symbol (c : Char) (cs : List Char) : Reading :=
  match cs.head?.bind (doubleSymbol? c), symbol? c with
  | some kind, _ => ⟨.ok (kind, c :: cs.take 1), c :: cs.take 1, cs.drop 1⟩
  | none, some kind => ⟨.ok (kind, [c]), [c], cs⟩
  | none, none =>
    if c = '!' then ⟨.error (.stray c), [c], cs⟩ else ⟨.error (.stray c), [], c :: cs⟩

def inComment (c : Char) : Bool := c != '\n' && c != '}'

/-- Read the rest of a comment. A closing brace belongs to the block around it. -/
def comment (bar : Char) (cs : List Char) : Reading :=
  ⟨.ok (.comment, cs.takeWhile inComment), bar :: cs.takeWhile inComment,
    cs.dropWhile inComment⟩

/-- Read up to the next delimiter, over line ends too. Nothing is escaped. -/
def quoted (kind : TokenKind) (fault : LexFault) (delimiter : Char) (cs : List Char) : Reading :=
  let body := cs.takeWhile (· != delimiter)
  match cs.dropWhile (· != delimiter) with
  | [] => ⟨.error fault, delimiter :: body, []⟩
  | close :: rest => ⟨.ok (kind, body), delimiter :: body ++ [close], rest⟩

def fraction (cs : List Char) : List Char :=
  match cs with
  | '.' :: more => '.' :: more.takeWhile Char.isDigit
  | _ => []

def suffix? : Char → Option TokenKind
  | 'f' => some .float
  | 'F' => some .float
  | 'd' => some .double
  | 'D' => some .double
  | _ => none

def number (cs : List Char) : Reading :=
  let whole := cs.takeWhile Char.isDigit
  let part := fraction (cs.dropWhile Char.isDigit)
  let digits := whole ++ part
  let rest := (cs.dropWhile Char.isDigit).drop part.length
  -- A suffix belongs to the number also where that has no point.
  match rest.head?.bind suffix? with
  | some kind => ⟨.ok (kind, digits), digits ++ rest.take 1, rest.drop 1⟩
  | none => ⟨.ok (if part.isEmpty then .integer else .double, digits), digits, rest⟩

def inWord (c : Char) : Bool := c.isAlphanum || c == '-' || c == '_'

def word (cs : List Char) : Reading :=
  let text := cs.takeWhile inWord
  let kind := match Keyword.lookup? (String.ofList text) with
    | some keyword => .keyword keyword
    | none => .identifier
  ⟨.ok (kind, text), text, cs.dropWhile inWord⟩

def first (c : Char) (cs : List Char) : Reading :=
  if c = '|' then comment c cs
  else if c = '"' then quoted .string .openString c cs
  else if c = '\x27' then quoted .char .openChar c cs
  else if c.isDigit then number (c :: cs)
  else if c.isAlpha then word (c :: cs)
  else symbol c cs

end Reading

structure Lexer where
  rest : List Char
  position : Position
  deriving DecidableEq

namespace Lexer

def ofString (source : String) : Lexer := ⟨source.toList, .start⟩

def skipBlanks (l : Lexer) : Lexer :=
  ⟨l.rest.dropWhile Text.isBlank, l.position.afterAll (l.rest.takeWhile Text.isBlank)⟩

def endToken (l : Lexer) : Token := ⟨.endOfFile, "", l.position, l.position.offset⟩

/-- Read one token. At the end of the text every call gives the same token of
kind `endOfFile`; after an error reading goes on behind what was consumed. -/
def next (l : Lexer) : Except LexError Token × Lexer :=
  let l := l.skipBlanks
  match l.rest with
  | [] => (.ok l.endToken, l)
  | c :: cs =>
    let r := Reading.first c cs
    let stop := l.position.afterAll r.text
    let token := match r.outcome with
      | .ok (kind, lexeme) => .ok ⟨kind, String.ofList lexeme, l.position, stop.offset⟩
      | .error fault => .error (fault.toError l.position.toPlace)
    (token, ⟨r.rest, stop⟩)

def steps : Nat → Lexer → List (Except LexError Token)
  | 0, _ => []
  | n + 1, l => l.next.1 :: steps n l.next.2

end Lexer

/-- The tokens of a text up to its end or its first error, which is the ending. -/
structure Scan where
  tokens : List Token
  ending : Except LexError Token

namespace Scan

/-- Read at most `count` tokens before the ending. With as many as there are
characters left none is missed. -/
def within : Nat → Lexer → Scan
  | 0, l => ⟨[], l.next.1⟩
  | count + 1, l =>
    match l.next with
    | (.error e, _) => ⟨[], .error e⟩
    | (.ok token, l') =>
      if token.kind = .endOfFile then ⟨[], .ok token⟩
      else
        let scan := within count l'
        ⟨token :: scan.tokens, scan.ending⟩

def ofString (source : String) : Scan :=
  let l := Lexer.ofString source
  within l.rest.length l

end Scan

def tokenize (source : String) : Except LexError (List Token) :=
  let scan := Scan.ofString source
  scan.ending.map fun ending => scan.tokens ++ [ending]

end VnScript
