import VnScript.Grammar.Error
import VnScript.Token.Lexer

namespace VnScript

/-- Where a parser finds its tokens: the current one and the way to the next.
`peek` gives the kind of the next token and stays at the current one. -/
class TokenStream (σ : Type) where
  current : σ → Token
  next : σ → Except LexError σ
  peek : σ → Except LexError (TokenKind × σ)

/-- A place in a text that is read on demand: the current token, the one after
it if it has been read already, and the lexer behind both. A lexical error is
met only when its token is asked for. -/
structure Cursor where
  current : Token
  peeked : Option Token
  lexer : Lexer
  deriving DecidableEq

namespace Cursor

def following (c : Cursor) : Except LexError Token × Lexer :=
  match c.peeked with
  | some token => (.ok token, c.lexer)
  | none => c.lexer.next

def next (c : Cursor) : Except LexError Cursor :=
  match c.following with
  | (.ok token, lexer) => .ok ⟨token, none, lexer⟩
  | (.error e, _) => .error e

def peek (c : Cursor) : Except LexError (TokenKind × Cursor) :=
  match c.following with
  | (.ok token, lexer) => .ok (token.kind, ⟨c.current, some token, lexer⟩)
  | (.error e, _) => .error e

instance : TokenStream Cursor := ⟨current, next, peek⟩

def ofString (source : String) : Except LexError Cursor :=
  match (Lexer.ofString source).next with
  | (.ok token, lexer) => .ok ⟨token, none, lexer⟩
  | (.error e, _) => .error e

end Cursor

abbrev Parser (σ : Type) := StateT σ (Except ParseError)

namespace Grammar

variable {σ : Type} [TokenStream σ]

def current : Parser σ Token := return TokenStream.current (← get)

def kind : Parser σ TokenKind := return (← current).kind

def place : Parser σ Place := return (← current).start.toPlace

def check (k : TokenKind) : Parser σ Bool := return (← kind) == k

def fail {α : Type} (e : SyntaxError) : Parser σ α := throw (.grammar e)

def unexpected {α : Type} (expected : Expectation) : Parser σ α := do
  let token ← current
  fail (.unexpected expected token.kind token.start.toPlace)

def advance : Parser σ Token := fun s =>
  match TokenStream.next s with
  | .ok s' => .ok (TokenStream.current s, s')
  | .error e => .error (.lexical e)

def peek : Parser σ TokenKind := fun s => (TokenStream.peek s).mapError .lexical

def consume (k : TokenKind) : Parser σ Token := do
  if ← check k then advance else unexpected (.token k)

def word (k : Keyword) : Parser σ Unit := do
  let _ ← consume (.keyword k)

def identifier : Parser σ String := return (← consume .identifier).lexeme

/-- A name behind a point or a colon. It may be a keyword. -/
def memberName : Parser σ String := do
  match ← kind with
  | .identifier => return (← advance).lexeme
  | .keyword _ => return (← advance).lexeme
  | _ => unexpected .memberName

/-- Items of the form `step` gives for the current token, while it gives one. -/
def sequence {α : Type} (step : TokenKind → Option (Parser σ (List α))) : Nat → Parser σ (List α)
  | 0 => return []
  | count + 1 => do
    match step (← kind) with
    | none => return []
    | some item =>
      let xs ← item
      return xs ++ (← sequence step count)

def skip {α : Type} : Parser σ (List α) := do
  let _ ← advance
  return []

def one {α : Type} (item : Parser σ α) : Parser σ (List α) := return [← item]

def commaSeparated {α : Type} (item : Parser σ α) : Nat → Parser σ (List α)
  | 0 => return [← item]
  | count + 1 => do
    let x ← item
    if ← check .comma then
      let _ ← advance
      return x :: (← commaSeparated item count)
    else return [x]

def parenthesized {α : Type} (item : Parser σ α) (count : Nat) : Parser σ (List α) := do
  let _ ← consume .leftParen
  let xs ← if ← check .rightParen then pure [] else commaSeparated item count
  let _ ← consume .rightParen
  return xs

end Grammar

end VnScript
