import VnScript.Proofs.Decimal.Exact
import VnScript.Proofs.Grammar.Rendering

namespace VnScript

open Grammar Word

def Operator.kind : Operator → TokenKind
  | .add => .plus
  | .sub => .minus
  | .mul => .star
  | .div => .slash
  | .mod => .percent
  | .shiftLeft => .shiftLeft
  | .shiftRight => .shiftRight
  | .and => .keyword .andWord
  | .or => .keyword .orWord
  | .xor => .keyword .xorWord
  | .equal => .equal
  | .notEqual => .notEqual
  | .less => .less
  | .lessEqual => .lessEqual
  | .greater => .greater
  | .greaterEqual => .greaterEqual

/-- How tight an operator binds: the place of its level, counted from 1. -/
def Operator.rank : Operator → Nat
  | .equal | .notEqual | .less | .lessEqual | .greater | .greaterEqual => 1
  | .and | .or | .xor => 2
  | .shiftLeft | .shiftRight => 3
  | .add | .sub => 4
  | .mul | .div | .mod => 5

/-- How tight an expression binds: an assignment loosest, and what has no operator tightest. -/
def Expr.rank : Expr → Nat
  | .assign _ _ | .assignMember _ _ _ => 0
  | .binary op _ _ => op.rank
  | _ => 6

mutual

/-- Whether all operands bind as tight as their place asks for. -/
def Expr.Laddered : Expr → Prop
  | .binary op left right =>
    (op.rank ≤ left.rank ∧ op.rank < right.rank) ∧ left.Laddered ∧ right.Laddered
  | .assign _ value => value.Laddered
  | .assignMember _ _ value => value.Laddered
  | .call _ _ arguments => exprsLaddered arguments
  | .create _ _ arguments => exprsLaddered arguments
  | _ => True

def exprsLaddered : List Expr → Prop
  | [] => True
  | e :: rest => e.Laddered ∧ exprsLaddered rest

end

/-- The expressions of the source language, which has no parentheses around operands. -/
def Expr.IsSource (e : Expr) : Prop := e.WellFormed ∧ e.Laddered

def Program.IsSource (p : Program) : Prop := p.WellFormed Expr.IsSource

/-- Items in parentheses with commas between them. -/
def enclosed (items : List (List Word)) : List Word :=
  sym .leftParen :: [sym .comma].intercalate items ++ [sym .rightParen]

def inBraces (ws : List Word) : List Word := sym .leftBrace :: ws ++ [sym .rightBrace]

def Receiver.words : Receiver → List Word
  | .free => []
  | .named name => [ofName name, sym .dot]
  | .namespaced name => [ofName name, sym .colon]
  | .self => [key .instanceWord, sym .dot]

mutual

def Expr.words : Expr → List Word
  | .identifier name => [ofName name]
  | .integer n => [⟨.integer, Text.decimal n.toInt⟩]
  | .float bits => [⟨.float, String.ofList (Decimal.FloatFormat.single.exactDigits bits.toNat)⟩]
  | .double bits => [⟨.double, String.ofList (Decimal.FloatFormat.double.exactDigits bits.toNat)⟩]
  | .char c => [⟨.char, String.ofList [c]⟩]
  | .boolean true => [key .trueWord]
  | .boolean false => [key .falseWord]
  | .string s => [⟨.string, s⟩]
  | .self => [key .instanceWord]
  | .binary op left right => left.words ++ sym op.kind :: right.words
  | .assign name value => ofName name :: sym .assign :: value.words
  | .assignMember object member value =>
    object.words ++ sym .dot :: ofName member :: sym .assign :: value.words
  | .call receiver name arguments =>
    receiver.words ++ ofName name :: enclosed (exprsWords arguments)
  | .namespaceMember space member => [ofName space, sym .colon, ofName member]
  | .create none type arguments =>
    key .instanceWord :: ofName type :: enclosed (exprsWords arguments)
  | .create (some space) type arguments =>
    key .instanceWord :: ofName space :: sym .colon :: ofName type ::
      enclosed (exprsWords arguments)
  | .member object name => object.words ++ [sym .dot, ofName name]

def exprsWords : List Expr → List (List Word)
  | [] => []
  | e :: rest => e.words :: exprsWords rest

end

def VariableType.keyword : VariableType → Keyword
  | .typed type => .type type
  | .auto => .autoWord
  | .define => .defineWord

def valueWords : Option Expr → List Word
  | none => []
  | some e => sym .assign :: e.words

/-- A condition in parentheses, or what else stands there. -/
def headWords (e : Expr) : List Word := sym .leftParen :: e.words ++ [sym .rightParen]

mutual

def Stmt.words : Stmt → List Word
  | .comment text => [⟨.comment, text⟩]
  | .declare type name value =>
    key type.keyword :: ofName name :: valueWords value ++ [sym .semicolon]
  | .expr e => e.words ++ [sym .semicolon]
  | .ret none => [key .returnWord, sym .semicolon]
  | .ret (some e) => key .returnWord :: e.words ++ [sym .semicolon]
  | .conditional clause => key .ifWord :: clause.words
  | .forLoop initial condition increment body =>
    -- The first part ends with its semicolon as any statement does.
    key .forWord :: sym .leftParen :: initial.words ++ condition.words ++
      sym .semicolon :: increment.words ++ sym .rightParen :: inBraces (stmtsWords body)
  | .forIn name none collection body =>
    key .forWord :: sym .leftParen :: ofName name :: key .inWord :: collection.words ++
      sym .rightParen :: inBraces (stmtsWords body)
  | .forIn name (some type) collection body =>
    key .forWord :: sym .leftParen :: key (.type type) :: ofName name :: key .inWord ::
      collection.words ++ sym .rightParen :: inBraces (stmtsWords body)
  | .whileLoop condition body =>
    key .whileWord :: headWords condition ++ inBraces (stmtsWords body)
  | .doWhile body condition =>
    key .doWord :: inBraces (stmtsWords body) ++ key .whileWord :: headWords condition ++
      [sym .semicolon]
  | .switch subject cases => key .switchWord :: headWords subject ++ inBraces (casesWords cases)
  | .attempt body errorType binding handler =>
    key .tryWord :: inBraces (stmtsWords body) ++ key .happenWord :: sym .leftParen ::
      ofName errorType :: sym .rightParen :: key .asWord :: ofName binding ::
      inBraces (stmtsWords handler)

def stmtsWords : List Stmt → List Word
  | [] => []
  | s :: rest => s.words ++ stmtsWords rest

def Conditional.words : Conditional → List Word
  | .mk condition body elseIfs orElse =>
    headWords condition ++ inBraces (stmtsWords body) ++ clausesWords elseIfs ++
      orElseWords orElse

def clausesWords : List Conditional → List Word
  | [] => []
  | c :: rest => key .elseIfWord :: c.words ++ clausesWords rest

def orElseWords : Option (List Stmt) → List Word
  | none => []
  | some b => key .elseWord :: inBraces (stmtsWords b)

def casesWords : List Case → List Word
  | [] => []
  | .mk value body :: rest =>
    key .caseWord :: value.words ++ inBraces (stmtsWords body) ++ casesWords rest

end

def Parameter.words (p : Parameter) : List Word :=
  match p.type with
  | none => [ofName p.name]
  | some type => [key (.type type), ofName p.name]

def Function.signatureWords (f : Function) : List Word :=
  enclosed (f.parameters.map Parameter.words) ++ inBraces (stmtsWords f.body)

/-- Parameters and body of a method, which starts with a parameter for the instance. -/
def Function.methodWords (f : Function) : List Word :=
  enclosed ((⟨instanceName, none⟩ :: f.parameters).map Parameter.words) ++
    inBraces (stmtsWords f.body)

def Grammar.Member.words : Member → List Word
  | .initializer f => key .instanceWord :: sym .dot :: key .initWord :: f.methodWords
  | .instanceMethod f => key .instanceWord :: sym .dot :: ofName f.name :: f.methodWords
  | .classMethod f => key .classWord :: sym .dot :: ofName f.name :: f.methodWords

namespace ClassDecl

def members (c : ClassDecl) : List Member :=
  c.initializer.toList.map .initializer ++ c.instanceMethods.map .instanceMethod ++
    c.classMethods.map .classMethod

def words (c : ClassDecl) : List Word :=
  key .classWord :: ofName c.name :: sym .leftParen :: (c.base.toList.map ofName) ++
    sym .rightParen :: inBraces (c.members.flatMap Member.words)

end ClassDecl

def namesOfModule (module : String) : List String :=
  (module.toList.splitOn '.').map String.ofList

def dottedWords (names : List String) : List Word :=
  [sym .dot].intercalate (names.map fun name => [ofName name])

mutual

def Declaration.words : Declaration → List Word
  | .function f => key .funcWord :: ofName f.name :: f.signatureWords
  | .namespaceDecl name declarations =>
    key .namespaceWord :: ofName name :: inBraces (declarationsWords declarations)
  | .classDecl c => c.words
  | .importDecl module =>
    key .importWord :: dottedWords (namesOfModule module) ++ [sym .semicolon]

def declarationsWords : List Declaration → List Word
  | [] => []
  | d :: rest => d.words ++ declarationsWords rest

end

/-- A text of a program: one token a line, methods with their parameter for the instance,
further clauses as such, and numbers with all their digits. -/
def Program.print (p : Program) : String := render (declarationsWords p.declarations)

end VnScript
