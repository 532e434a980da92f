import VnScript.Token.Basic

namespace VnScript

inductive Expectation where
  | token (kind : TokenKind)
  | memberName
  | expression
  | type
  | classMember
  deriving DecidableEq

def Expectation.text : Expectation → String
  | token kind => kind.name
  | memberName => "member name"
  | expression => "expression"
  | type => "type"
  | classMember => "class member"

inductive SyntaxError where
  | unexpected (expected : Expectation) (found : TokenKind) (place : Place)
  | expectedFunction (place : Place)
  | invalidTarget (place : Place)
  | invalidInitializer (place : Place)
  | invalidLiteral (kind : TokenKind) (literal : String) (place : Place)
  deriving DecidableEq

namespace SyntaxError

def place : SyntaxError → Place
  | unexpected _ _ p => p
  | expectedFunction p => p
  | invalidTarget p => p
  | invalidInitializer p => p
  | invalidLiteral _ _ p => p

def cause : SyntaxError → String
  | unexpected expected found _ => "expected " ++ expected.text ++ ", but got " ++ found.name
  | expectedFunction _ => "function definition must start with func"
  | invalidTarget _ => "assignment target must be an identifier"
  | invalidInitializer _ => "malformed for-loop initializer"
  | invalidLiteral kind literal _ => "invalid " ++ kind.category ++ " '" ++ literal ++ "'"

def message (e : SyntaxError) : String := e.cause ++ " at " ++ e.place.text

end SyntaxError

inductive ParseError where
  | lexical (error : LexError)
  | grammar (error : SyntaxError)
  deriving DecidableEq

namespace ParseError

def category : ParseError → String
  | lexical _ => "LexError"
  | grammar _ => "SyntaxError"

def place : ParseError → Place
  | lexical e => e.place
  | grammar e => e.place

def message : ParseError → String
  | lexical e => e.message
  | grammar e => e.message

end ParseError

end VnScript
