import VnScript.Token.Keyword

namespace VnScript

/-- A line and a column, both counted from 1. -/
structure Place where
  line : Nat
  column : Nat
  deriving DecidableEq

/-- A place together with the number of UTF-8 bytes before it. -/
structure Position extends Place where
  offset : Nat
  deriving DecidableEq

namespace Position

def start : Position := ⟨⟨1, 1⟩, 0⟩

/-- The position behind `c`. Columns count characters; a newline starts a line. -/
def after (p : Position) (c : Char) : Position :=
  if c = '\n' then ⟨⟨p.line + 1, 1⟩, p.offset + c.utf8Size⟩
  else ⟨⟨p.line, p.column + 1⟩, p.offset + c.utf8Size⟩

def afterAll (p : Position) (cs : List Char) : Position := cs.foldl after p

end Position

inductive TokenKind where
  | keyword (word : Keyword)
  | identifier
  | comment
  | string | char | integer | float | double
  | assign | plus | minus | star | slash | percent | shiftLeft | shiftRight
  | equal | notEqual | less | lessEqual | greater | greaterEqual
  | plusAssign | minusAssign | starAssign | slashAssign | percentAssign
  | dot | colon | semicolon | comma | leftParen | rightParen | leftBrace | rightBrace
  | endOfFile
  deriving DecidableEq

namespace TokenKind

def category : TokenKind → String
  | keyword _ => "keyword"
  | identifier => "identifier"
  | comment => "comment"
  | string => "string literal"
  | char => "char literal"
  | integer => "integer literal"
  | float => "float literal"
  | double => "double literal"
  | assign => "assignment operator"
  | plus => "plus"
  | minus => "minus"
  | star => "multiply"
  | slash => "divide"
  | percent => "modulo"
  | shiftLeft => "left shift"
  | shiftRight => "right shift"
  | equal => "equal"
  | notEqual => "not equal"
  | less => "less than"
  | lessEqual => "less than or equal"
  | greater => "greater than"
  | greaterEqual => "greater than or equal"
  | plusAssign => "plus assign"
  | minusAssign => "minus assign"
  | starAssign => "multiply assign"
  | slashAssign => "divide assign"
  | percentAssign => "modulo assign"
  | dot => "dot"
  | colon => "colon"
  | semicolon => "semicolon"
  | comma => "comma"
  | leftParen => "left parenthesis"
  | rightParen => "right parenthesis"
  | leftBrace => "left brace"
  | rightBrace => "right brace"
  | endOfFile => "end of file"

/-- The name of a token in messages: a keyword by its spelling, any other by
its category. -/
def name : TokenKind → String
  | keyword word => "keyword '" ++ word.text ++ "'"
  | kind => kind.category

end TokenKind

/-- A token of the source. The lexeme is the text of a literal without its
delimiters, of a comment without its bar, of a number without its suffix;
`stop` is the offset behind the whole spelling. -/
structure Token where
  kind : TokenKind
  lexeme : String
  start : Position
  stop : Nat
  deriving DecidableEq

inductive LexError where
  | unexpectedCharacter (c : Char) (place : Place)
  | unterminatedString (place : Place)
  | unterminatedChar (place : Place)
  deriving DecidableEq

def Place.text (p : Place) : String :=
  "line " ++ toString p.line ++ ", column " ++ toString p.column

namespace LexError

def place : LexError → Place
  | unexpectedCharacter _ p => p
  | unterminatedString p => p
  | unterminatedChar p => p

def message : LexError → String
  | unexpectedCharacter c p => "Unknown character '" ++ c.toString ++ "' at " ++ p.text
  | unterminatedString p => "Unterminated string literal at " ++ p.text
  | unterminatedChar p => "Unterminated char literal at " ++ p.text

end LexError

end VnScript
