namespace VnScript

inductive TypeName where
  | int | char | string | bool | float | double
  deriving DecidableEq

def TypeName.text : TypeName → String
  | .int => "int"
  | .char => "char"
  | .string => "string"
  | .bool => "bool"
  | .float => "float"
  | .double => "double"

def TypeName.all : List TypeName := [.int, .char, .string, .bool, .float, .double]

inductive Keyword where
  | type (name : TypeName)
  | autoWord | defineWord | funcWord | namespaceWord | classWord | instanceWord | initWord
  | importWord
  | ifWord | elseWord | elseIfWord | forWord | inWord | whileWord | doWord | switchWord
  | caseWord | returnWord
  | tryWord | happenWord | asWord
  | trueWord | falseWord | andWord | orWord | xorWord
  deriving DecidableEq

namespace Keyword

def text : Keyword → String
  | type name => name.text
  | autoWord => "auto"
  | defineWord => "define"
  | funcWord => "func"
  | namespaceWord => "namespace"
  | classWord => "class"
  | instanceWord => "instance"
  | initWord => "init"
  | importWord => "import"
  | ifWord => "if"
  | elseWord => "else"
  | elseIfWord => "else-if"
  | forWord => "for"
  | inWord => "in"
  | whileWord => "while"
  | doWord => "do"
  | switchWord => "switch"
  | caseWord => "case"
  | returnWord => "return"
  | tryWord => "try"
  | happenWord => "happen"
  | asWord => "as"
  | trueWord => "true"
  | falseWord => "false"
  | andWord => "AND"
  | orWord => "OR"
  | xorWord => "XOR"

def all : List Keyword :=
  TypeName.all.map type ++
    [autoWord, defineWord, funcWord, namespaceWord, classWord, instanceWord, initWord,
      importWord, ifWord, elseWord, elseIfWord, forWord, inWord, whileWord, doWord, switchWord,
      caseWord, returnWord, tryWord, happenWord, asWord, trueWord, falseWord, andWord, orWord,
      xorWord]

def lookup? (word : String) : Option Keyword := all.find? fun k => k.text == word

def isType : Keyword → Bool
  | type _ => true
  | _ => false

theorem mem_all (k : Keyword) : k ∈ all := by
  cases k with
  | type name => cases name <;> decide
  | _ => decide

end Keyword

end VnScript
