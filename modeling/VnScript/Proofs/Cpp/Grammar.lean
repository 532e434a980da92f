import VnScript.Proofs.Cpp.Lexeme

namespace VnScript.Cpp

/-- How C++ groups an expression. Words and literals are leaves. -/
inductive Tree where
  | leaf (text : String)
  | qualified (space name : String)
  | value (type : String)
  | unique (space : Option String) (type : String)
  | readLine
  | readLineAfter (prompt : Tree)
  | member (object : Tree) (name : String)
  | call (function : Tree) (arguments : List Tree)
  | negative (operand : Tree)
  | binary (sign : String) (left right : Tree)
  | assign (target value : Tree)

/-- The binary operators of C++, from the loosest to the tightest. -/
def ladder : List (List String) :=
  [["||"], ["&&"], ["==", "!="], ["<", "<=", ">", ">="], ["<<", ">>"], ["+", "-"], ["*", "/", "%"]]

/-- How a function starts that is written where it is called. -/
def functionHead : List Lexeme :=
  [.sign "[", .sign "&", .sign "]", .sign "(", .sign ")", .sign "\x7b"]

/-- The rest of such a function, which reads a line and gives it back. -/
def readBody : List Lexeme :=
  [.word "std", .sign "::", .word "string", .word "vn_line", .sign ";",
    .word "std", .sign "::", .word "getline", .sign "(", .word "std", .sign "::", .word "cin",
    .sign ",", .word "vn_line", .sign ")", .sign ";", .word "return", .word "vn_line", .sign ";",
    .sign "\x7d"]

/-- What lexemes stand for in the grammar of expressions. -/
inductive Node where
  | primary (t : Tree)
  | suffixed (t : Tree)
  | binary (levels : List (List String)) (t : Tree)
  | expression (t : Tree)
  | items (ts : List Tree)
  | arguments (ts : List Tree)

/-- The template of smart pointers. Its name is no expression without its argument. -/
def IsTemplate (space name : String) : Prop := space = "std" ∧ name = "make_unique"
  deriving Decidable

/-- The grammar of C++ expressions: one left-associative level of binary operators after the
other, assignment loosest and to the right. -/
inductive Phrase : List Lexeme → Node → Prop
  | word (w : String) : Phrase [.word w] (.primary (.leaf w))
  | literal (text : String) : Phrase [.literal text] (.primary (.leaf text))
  | qualified {space name : String} (h : ¬IsTemplate space name) :
    Phrase [.word space, .sign "::", .word name] (.primary (.qualified space name))
  | value (type : String) :
    Phrase [.word type, .sign "\x7b", .sign "\x7d"] (.primary (.value type))
  | unique (type : String) :
    Phrase [.word "std", .sign "::", .word "make_unique", .sign "<", .word type, .sign ">"]
      (.primary (.unique none type))
  | uniqueIn (space type : String) :
    Phrase [.word "std", .sign "::", .word "make_unique", .sign "<", .word space, .sign "::",
      .word type, .sign ">"] (.primary (.unique (some space) type))
  | parenthesized {ls : List Lexeme} {t : Tree} (h : Phrase ls (.expression t)) :
    Phrase (.sign "(" :: ls ++ [.sign ")"]) (.primary t)
  | readLine : Phrase (functionHead ++ readBody) (.primary .readLine)
  | readLineAfter {ls : List Lexeme} {t : Tree} (h : Phrase ls (.expression t)) :
    Phrase (functionHead ++ ls ++ .sign ";" :: readBody) (.primary (.readLineAfter t))
  | operand {ls : List Lexeme} {t : Tree} (h : Phrase ls (.primary t)) : Phrase ls (.suffixed t)
  | member {ls : List Lexeme} {t : Tree} (h : Phrase ls (.suffixed t)) (name : String) :
    Phrase (ls ++ [.sign "->", .word name]) (.suffixed (.member t name))
  | call {ls ls' : List Lexeme} {t : Tree} {ts : List Tree} (h : Phrase ls (.suffixed t))
      (h' : Phrase ls' (.arguments ts)) : Phrase (ls ++ ls') (.suffixed (.call t ts))
  | noArguments : Phrase [.sign "(", .sign ")"] (.arguments [])
  | arguments {ls : List Lexeme} {ts : List Tree} (h : Phrase ls (.items ts)) :
    Phrase (.sign "(" :: ls ++ [.sign ")"]) (.arguments ts)
  | lastItem {ls : List Lexeme} {t : Tree} (h : Phrase ls (.expression t)) :
    Phrase ls (.items [t])
  | item {ls ls' : List Lexeme} {t : Tree} {ts : List Tree} (h : Phrase ls (.expression t))
      (rest : Phrase ls' (.items ts)) : Phrase (ls ++ .sign "," :: ls') (.items (t :: ts))
  | tightest {ls : List Lexeme} {t : Tree} (h : Phrase ls (.suffixed t)) : Phrase ls (.binary [] t)
  | negative {ls : List Lexeme} {t : Tree} (h : Phrase ls (.binary [] t)) :
    Phrase (.sign "-" :: ls) (.binary [] (.negative t))
  | tighter {ls : List Lexeme} {t : Tree} {signs : List String} {levels : List (List String)}
      (h : Phrase ls (.binary levels t)) : Phrase ls (.binary (signs :: levels) t)
  | operation {ls ls' : List Lexeme} {left right : Tree} {sign : String} {signs : List String}
      {levels : List (List String)} (h : Phrase ls (.binary (signs :: levels) left))
      (hs : sign ∈ signs) (h' : Phrase ls' (.binary levels right)) :
    Phrase (ls ++ .sign sign :: ls') (.binary (signs :: levels) (.binary sign left right))
  | simple {ls : List Lexeme} {t : Tree} (h : Phrase ls (.binary ladder t)) :
    Phrase ls (.expression t)
  | assign {ls ls' : List Lexeme} {target value : Tree} (h : Phrase ls (.binary ladder target))
      (h' : Phrase ls' (.expression value)) :
    Phrase (ls ++ .sign "=" :: ls') (.expression (.assign target value))

/-- A text is a C++ expression that groups as the tree. -/
def Reads (text : String) (t : Tree) : Prop :=
  ∃ ls, lexemes text.toList = some ls ∧ Phrase ls (.expression t)

def ReadsOnly (text : String) (t : Tree) : Prop := Reads text t ∧ ∀ t', Reads text t' → t' = t

end VnScript.Cpp
