import VnScript.Proofs.Grammar.Tape
import VnScript.Proofs.Tree.WellFormed

namespace VnScript

open Grammar Word

/-- What a phrase within an expression stands for. -/
inductive ExprNode where
  | items (es : List Expr)
  | arguments (es : List Expr)
  | suffix (name : String) (e : Expr)
  | primary (e : Expr)
  | binary (levels : List (TokenKind → Option Operator)) (e : Expr)
  | expression (e : Expr)

inductive ExprPhrase : List Word → ExprNode → Prop
  | lastItem {ws : List Word} {e : Expr} (h : ExprPhrase ws (.expression e)) :
    ExprPhrase ws (.items [e])
  | item {ws ws' : List Word} {e : Expr} {es : List Expr} (h : ExprPhrase ws (.expression e))
      (rest : ExprPhrase ws' (.items es)) : ExprPhrase (ws ++ sym .comma :: ws') (.items (e :: es))
  | noArguments : ExprPhrase [sym .leftParen, sym .rightParen] (.arguments [])
  | arguments {ws : List Word} {es : List Expr} (h : ExprPhrase ws (.items es)) :
    ExprPhrase (sym .leftParen :: ws ++ [sym .rightParen]) (.arguments es)
  | alone {name : String} : ExprPhrase [] (.suffix name (.identifier name))
  | freeCall {name : String} {ws : List Word} {es : List Expr} (h : ExprPhrase ws (.arguments es)) :
    ExprPhrase ws (.suffix name (.call .free name es))
  | member {name m : String} (hm : IsMemberName m) :
    ExprPhrase [sym .dot, ofName m] (.suffix name (.member (.identifier name) m))
  | memberCall {name m : String} {ws : List Word} {es : List Expr} (hm : IsMemberName m)
      (h : ExprPhrase ws (.arguments es)) :
    ExprPhrase (sym .dot :: ofName m :: ws) (.suffix name (.call (.named name) m es))
  | spaceMember {name m : String} (hm : IsMemberName m) :
    ExprPhrase [sym .colon, ofName m] (.suffix name (.namespaceMember name m))
  | spaceCall {name m : String} {ws : List Word} {es : List Expr} (hm : IsMemberName m)
      (h : ExprPhrase ws (.arguments es)) :
    ExprPhrase (sym .colon :: ofName m :: ws) (.suffix name (.call (.namespaced name) m es))
  | literal {w : Word} {e : Expr} (hs : w.Spelled) (hl : literal? w.kind w.lexeme = some e) :
    ExprPhrase [w] (.primary e)
  | true : ExprPhrase [key .trueWord] (.primary (.boolean true))
  | false : ExprPhrase [key .falseWord] (.primary (.boolean false))
  | named {name : String} {ws : List Word} {e : Expr} (hn : IsUsable name)
      (h : ExprPhrase ws (.suffix name e)) : ExprPhrase (ofName name :: ws) (.primary e)
  | create {type : String} {ws : List Word} {es : List Expr} (ht : IsName type)
      (h : ExprPhrase ws (.arguments es)) :
    ExprPhrase (key .instanceWord :: ofName type :: ws) (.primary (.create none type es))
  | createIn {space type : String} {ws : List Word} {es : List Expr} (hs : IsName space)
      (ht : IsName type) (h : ExprPhrase ws (.arguments es)) :
    ExprPhrase (key .instanceWord :: ofName space :: sym .colon :: ofName type :: ws)
      (.primary (.create (some space) type es))
  | classCall {m : String} {ws : List Word} {es : List Expr} (hm : IsMemberName m)
      (h : ExprPhrase ws (.arguments es)) :
    ExprPhrase (key .classWord :: sym .dot :: ofName m :: ws)
      (.primary (.call (.named className) m es))
  | operand {ws : List Word} {e : Expr} (h : ExprPhrase ws (.primary e)) :
    ExprPhrase ws (.binary [] e)
  | tighter {level : TokenKind → Option Operator} {levels : List (TokenKind → Option Operator)}
      {ws : List Word} {e : Expr} (h : ExprPhrase ws (.binary levels e)) :
    ExprPhrase ws (.binary (level :: levels) e)
  | operation {level : TokenKind → Option Operator} {levels : List (TokenKind → Option Operator)}
      {ws ws' : List Word} {w : Word} {op : Operator} {left right : Expr}
      (h : ExprPhrase ws (.binary (level :: levels) left)) (hw : w.Spelled)
      (ho : level w.kind = some op) (h' : ExprPhrase ws' (.binary levels right)) :
    ExprPhrase (ws ++ w :: ws') (.binary (level :: levels) (.binary op left right))
  | value {ws : List Word} {e : Expr} (h : ExprPhrase ws (.binary levels e)) :
    ExprPhrase ws (.expression e)
  | assign {ws ws' : List Word} {w : Word} {op : Option Operator} {name : String} {value : Expr}
      (h : ExprPhrase ws (.binary levels (.identifier name))) (hw : w.Spelled)
      (ho : assignment? w.kind = some op) (h' : ExprPhrase ws' (.expression value)) :
    ExprPhrase (ws ++ w :: ws')
      (.expression (.assign name (compound op (.identifier name) value)))
  | assignMember {ws ws' : List Word} {w : Word} {op : Option Operator} {object value : Expr}
      {m : String} (h : ExprPhrase ws (.binary levels (.member object m))) (hw : w.Spelled)
      (ho : assignment? w.kind = some op) (h' : ExprPhrase ws' (.expression value)) :
    ExprPhrase (ws ++ w :: ws')
      (.expression (.assignMember object m (compound op (.member object m) value)))

theorem ExprPhrase.ne_nil {ws : List Word} {node : ExprNode} (h : ExprPhrase ws node) :
    ws ≠ [] ∨ ∃ name e, node = .suffix name e := by
  induction h with
  | lastItem h ih => exact Or.inl (ih.resolve_right (by simp))
  | operand h ih => exact Or.inl (ih.resolve_right (by simp))
  | tighter h ih => exact Or.inl (ih.resolve_right (by simp))
  | value h ih => exact Or.inl (ih.resolve_right (by simp))
  | _ => simp

abbrev Expr.Phrase (ws : List Word) (e : Expr) : Prop := ExprPhrase ws (.expression e)

theorem Expr.Phrase.ne_nil {ws : List Word} {e : Expr} (h : e.Phrase ws) : ws ≠ [] :=
  (ExprPhrase.ne_nil h).resolve_right (by simp)

/-- What may stand behind the name of a declared variable. -/
inductive ValuePhrase : List Word → Option Expr → Prop
  | none : ValuePhrase [] none
  | some {ws : List Word} {e : Expr} (h : e.Phrase ws) :
    ValuePhrase (sym .assign :: ws) (some e)

def Expr.IsAssignment : Expr → Prop
  | assign _ _ => True
  | assignMember _ _ _ => True
  | _ => False

def Expr.IsTarget : Expr → Prop
  | identifier _ => True
  | member _ _ => True
  | _ => False

/-- What can be assigned: a name, or a member of one. -/
inductive TargetPhrase : List Word → Expr → Prop
  | identifier {name : String} : TargetPhrase [ofName name] (.identifier name)
  | member {name m : String} :
    TargetPhrase [ofName name, sym .dot, ofName m] (.member (.identifier name) m)

theorem literal_not_target {k : TokenKind} {text : String} {e : Expr}
    (h : literal? k text = some e) : ¬e.IsTarget ∧ ¬e.IsAssignment := by
  unfold literal? at h
  split at h
  any_goals obtain ⟨v, -, rfl⟩ := Option.map_eq_some_iff.1 h; exact ⟨id, id⟩
  · cases h
    exact ⟨id, id⟩
  · cases h

theorem ExprPhrase.target {ws : List Word} {node : ExprNode} (h : ExprPhrase ws node) :
    match node with
    | .suffix name e => e.IsTarget → TargetPhrase (ofName name :: ws) e
    | .primary e => e.IsTarget → TargetPhrase ws e
    | .binary _ e => e.IsTarget → TargetPhrase ws e
    | _ => True := by
  induction h with
  | alone => exact fun _ => .identifier
  | member hm => exact fun _ => .member
  | freeCall | memberCall | spaceMember | spaceCall => exact nofun
  | literal hs hl => exact fun ht => absurd ht (literal_not_target hl).1
  | true | false | create | createIn | classCall | operation => exact nofun
  | named hn h ih => exact ih
  | operand h ih => exact ih
  | tighter h ih => exact ih
  | _ => trivial

theorem ExprPhrase.not_assignment {ws : List Word} {node : ExprNode} (h : ExprPhrase ws node) :
    match node with
    | .suffix _ e => ¬e.IsAssignment
    | .primary e => ¬e.IsAssignment
    | .binary _ e => ¬e.IsAssignment
    | _ => True := by
  induction h with
  | literal hs hl => exact (literal_not_target hl).2
  | named hn h ih => exact ih
  | operand h ih => exact ih
  | tighter h ih => exact ih
  | alone | freeCall | member | memberCall | spaceMember | spaceCall => exact id
  | true | false | create | createIn | classCall | operation => exact id
  | _ => trivial

/-- An assignment starts with a name, and an assignment sign or a point stands behind it. -/
theorem Expr.Phrase.initial {ws : List Word} {e : Expr} (h : e.Phrase ws) (ha : e.IsAssignment) :
    ∃ name w u value, ws = ofName name :: w :: u ∧ ((assignment? w.kind).isSome ∨ w = sym .dot) ∧
      (e = .assign name value ∨ ∃ m, e = .assignMember (.identifier name) m value) := by
  cases h with
  | value h => exact absurd ha h.not_assignment
  | assign h hw ho h' =>
    cases h.target trivial with
    | identifier => exact ⟨_, _, _, _, rfl, Or.inl (Option.isSome_of_eq_some ho), Or.inl rfl⟩
  | assignMember h hw ho h' =>
    cases h.target trivial with
    | member => exact ⟨_, _, _, _, rfl, Or.inr rfl, Or.inr ⟨_, rfl⟩⟩

inductive StmtNode where
  | statement (s : Stmt)
  | statements (ss : List Stmt)
  | block (ss : List Stmt)
  | clause (e : Expr) (b : List Stmt)
  | further (cs : List Conditional) (orElse : Option (List Stmt))
  | initial (s : Stmt)
  | cases (cs : List Case)

inductive StmtPhrase : List Word → StmtNode → Prop
  | nil : StmtPhrase [] (.statements [])
  | cons {ws ws' : List Word} {s : Stmt} {ss : List Stmt} (h : StmtPhrase ws (.statement s))
      (rest : StmtPhrase ws' (.statements ss)) : StmtPhrase (ws ++ ws') (.statements (s :: ss))
  | block {ws : List Word} {ss : List Stmt} (h : StmtPhrase ws (.statements ss)) :
    StmtPhrase (sym .leftBrace :: ws ++ [sym .rightBrace]) (.block ss)
  | clause {ws ws' : List Word} {e : Expr} {b : List Stmt} (he : e.Phrase ws)
      (hb : StmtPhrase ws' (.block b)) :
    StmtPhrase (sym .leftParen :: ws ++ sym .rightParen :: ws') (.clause e b)
  | noFurther : StmtPhrase [] (.further [] none)
  | elseIf {ws ws' : List Word} {e : Expr} {b : List Stmt} {cs : List Conditional}
      {orElse : Option (List Stmt)} (h : StmtPhrase ws (.clause e b))
      (rest : StmtPhrase ws' (.further cs orElse)) :
    StmtPhrase (key .elseIfWord :: ws ++ ws') (.further (.mk e b [] none :: cs) orElse)
  | elseThenIf {ws ws' : List Word} {e : Expr} {b : List Stmt} {cs : List Conditional}
      {orElse : Option (List Stmt)} (h : StmtPhrase ws (.clause e b))
      (rest : StmtPhrase ws' (.further cs orElse)) :
    StmtPhrase (key .elseWord :: key .ifWord :: ws ++ ws')
      (.further (.mk e b [] none :: cs) orElse)
  | orElse {ws : List Word} {b : List Stmt} (h : StmtPhrase ws (.block b)) :
    StmtPhrase (key .elseWord :: ws) (.further [] (some b))
  | declareInitial {k : TokenKind} {ws : List Word} {type : VariableType} {name : String}
      {value : Option Expr} (ht : variableType? k = some type) (hn : IsName name)
      (hv : ValuePhrase ws value) :
    StmtPhrase (sym k :: ofName name :: ws) (.initial (.declare type name value))
  | assignInitial {w : Word} {ws : List Word} {e : Expr} (hw : w.kind = .identifier)
      (he : e.Phrase (w :: ws)) (ha : e.IsAssignment) : StmtPhrase (w :: ws) (.initial (.expr e))
  | noCases : StmtPhrase [] (.cases [])
  | caseComment {w : Word} {ws : List Word} {cs : List Case} (hs : w.Spelled)
      (hw : w.kind = .comment) (rest : StmtPhrase ws (.cases cs)) : StmtPhrase (w :: ws) (.cases cs)
  | case {ws ws' ws'' : List Word} {e : Expr} {b : List Stmt} {cs : List Case} (he : e.Phrase ws)
      (hb : StmtPhrase ws' (.block b)) (rest : StmtPhrase ws'' (.cases cs)) :
    StmtPhrase (key .caseWord :: ws ++ ws' ++ ws'') (.cases (.mk e b :: cs))
  | comment {w : Word} (hs : w.Spelled) (hw : w.kind = .comment) :
    StmtPhrase [w] (.statement (.comment (Text.trim w.lexeme)))
  | declare {k : TokenKind} {ws : List Word} {type : VariableType} {name : String}
      {value : Option Expr} (ht : variableType? k = some type) (hn : IsName name)
      (hv : ValuePhrase ws value) :
    StmtPhrase (sym k :: ofName name :: ws ++ [sym .semicolon])
      (.statement (.declare type name value))
  | expr {ws : List Word} {e : Expr} (he : e.Phrase ws) :
    StmtPhrase (ws ++ [sym .semicolon]) (.statement (.expr e))
  | ret : StmtPhrase [key .returnWord, sym .semicolon] (.statement (.ret none))
  | retValue {ws : List Word} {e : Expr} (he : e.Phrase ws) :
    StmtPhrase (key .returnWord :: ws ++ [sym .semicolon]) (.statement (.ret (some e)))
  | conditional {ws ws' : List Word} {e : Expr} {b : List Stmt} {cs : List Conditional}
      {orElse : Option (List Stmt)} (h : StmtPhrase ws (.clause e b))
      (rest : StmtPhrase ws' (.further cs orElse)) :
    StmtPhrase (key .ifWord :: ws ++ ws') (.statement (.conditional (.mk e b cs orElse)))
  | forLoop {ws ws₁ ws₂ ws₃ : List Word} {initial : Stmt} {e increment : Expr} {b : List Stmt}
      (hi : StmtPhrase ws (.initial initial)) (he : e.Phrase ws₁) (hs : increment.Phrase ws₂)
      (hb : StmtPhrase ws₃ (.block b)) :
    StmtPhrase (key .forWord :: sym .leftParen :: ws ++ sym .semicolon :: ws₁ ++
        sym .semicolon :: ws₂ ++ sym .rightParen :: ws₃)
      (.statement (.forLoop initial e increment b))
  | forIn {ws ws' : List Word} {name : String} {e : Expr} {b : List Stmt} (hn : IsName name)
      (he : e.Phrase ws) (hb : StmtPhrase ws' (.block b)) :
    StmtPhrase (key .forWord :: sym .leftParen :: ofName name :: key .inWord :: ws ++
        sym .rightParen :: ws')
      (.statement (.forIn name none e b))
  | typedForIn {k : TokenKind} {ws ws' : List Word} {type : VariableType} {name : String} {e : Expr}
      {b : List Stmt} (ht : variableType? k = some type) (hn : IsName name) (he : e.Phrase ws)
      (hb : StmtPhrase ws' (.block b)) :
    StmtPhrase (key .forWord :: sym .leftParen :: sym k :: ofName name :: key .inWord :: ws ++
        sym .rightParen :: ws')
      (.statement (.forIn name (boundType type) e b))
  | whileLoop {ws : List Word} {e : Expr} {b : List Stmt} (h : StmtPhrase ws (.clause e b)) :
    StmtPhrase (key .whileWord :: ws) (.statement (.whileLoop e b))
  | doWhile {ws ws' tail : List Word} {e : Expr} {b : List Stmt} (hb : StmtPhrase ws (.block b))
      (he : e.Phrase ws') (ht : tail = [] ∨ tail = [sym .semicolon]) :
    StmtPhrase (key .doWord :: ws ++ key .whileWord :: sym .leftParen :: ws' ++
        sym .rightParen :: tail)
      (.statement (.doWhile b e))
  | switch {ws ws' : List Word} {e : Expr} {cs : List Case} (he : e.Phrase ws)
      (hc : StmtPhrase ws' (.cases cs)) :
    StmtPhrase (key .switchWord :: sym .leftParen :: ws ++ sym .rightParen :: sym .leftBrace ::
        ws' ++ [sym .rightBrace])
      (.statement (.switch e cs))
  | attempt {ws ws' : List Word} {errorType binding : String} {b handler : List Stmt}
      (hb : StmtPhrase ws (.block b)) (ht : IsName errorType) (hn : IsName binding)
      (hh : StmtPhrase ws' (.block handler)) :
    StmtPhrase (key .tryWord :: ws ++ key .happenWord :: sym .leftParen :: ofName errorType ::
        sym .rightParen :: key .asWord :: ofName binding :: ws')
      (.statement (.attempt b errorType binding handler))

inductive ParameterPhrase : List Word → Parameter → Prop
  | untyped {name : String} (hn : IsUsable name) : ParameterPhrase [ofName name] ⟨name, none⟩
  | auto {name : String} (hn : IsUsable name) :
    ParameterPhrase [key .autoWord, ofName name] ⟨name, none⟩
  | typed {name : String} {type : TypeName} (hn : IsUsable name) :
    ParameterPhrase [key (.type type), ofName name] ⟨name, some type⟩

inductive Separated {α : Type} (P : List Word → α → Prop) : List Word → List α → Prop
  | last {ws : List Word} {a : α} (h : P ws a) : Separated P ws [a]
  | cons {ws ws' : List Word} {a : α} {as : List α} (h : P ws a) (rest : Separated P ws' as) :
    Separated P (ws ++ sym .comma :: ws') (a :: as)

inductive Enclosed {α : Type} (P : List Word → α → Prop) : List Word → List α → Prop
  | empty : Enclosed P [sym .leftParen, sym .rightParen] []
  | items {ws : List Word} {as : List α} (h : Separated P ws as) :
    Enclosed P (sym .leftParen :: ws ++ [sym .rightParen]) as

inductive SignaturePhrase : List Word → List Parameter → List Stmt → Prop
  | mk {ws ws' : List Word} {ps : List Parameter} {b : List Stmt}
      (hp : Enclosed ParameterPhrase ws ps) (hb : StmtPhrase ws' (.block b)) :
    SignaturePhrase (ws ++ ws') ps b

inductive MemberPhrase : List Word → Member → Prop
  | initializer {ws : List Word} {ps : List Parameter} {b : List Stmt}
      (h : SignaturePhrase ws ps b) :
    MemberPhrase (key .instanceWord :: sym .dot :: key .initWord :: ws)
      (.initializer ⟨none, initializerName, withoutReceiver ps, b⟩)
  | instanceMethod {name : String} {ws : List Word} {ps : List Parameter} {b : List Stmt}
      (hn : IsName name) (h : SignaturePhrase ws ps b) :
    MemberPhrase (key .instanceWord :: sym .dot :: ofName name :: ws)
      (.instanceMethod ⟨none, name, withoutReceiver ps, b⟩)
  | classMethod {name : String} {ws : List Word} {ps : List Parameter} {b : List Stmt}
      (hn : IsName name) (h : SignaturePhrase ws ps b) :
    MemberPhrase (key .classWord :: sym .dot :: ofName name :: ws)
      (.classMethod ⟨none, name, withoutReceiver ps, b⟩)

/-- Items with comments between them, which stand for nothing. -/
inductive Commented {α : Type} (P : List Word → α → Prop) : List Word → List α → Prop
  | nil : Commented P [] []
  | comment {w : Word} {ws : List Word} {as : List α} (hs : w.Spelled) (hw : w.kind = .comment)
      (rest : Commented P ws as) : Commented P (w :: ws) as
  | cons {ws ws' : List Word} {a : α} {as : List α} (h : P ws a) (rest : Commented P ws' as) :
    Commented P (ws ++ ws') (a :: as)

inductive BasePhrase : List Word → Option String → Prop
  | none : BasePhrase [] none
  | some {name : String} (hn : IsName name) : BasePhrase [ofName name] (some name)

inductive ClassPhrase : List Word → ClassDecl → Prop
  | mk {name : String} {ws ws' : List Word} {base : Option String} {members : List Member}
      (hn : IsName name) (hb : BasePhrase ws base) (hm : Commented MemberPhrase ws' members) :
    ClassPhrase (key .classWord :: ofName name :: sym .leftParen :: ws ++ sym .rightParen ::
        sym .leftBrace :: ws' ++ [sym .rightBrace])
      (classOfMembers name base members)

inductive PartsPhrase : List Word → String → Prop
  | nil : PartsPhrase [] ""
  | cons {part rest : String} {ws : List Word} (hn : IsName part) (h : PartsPhrase ws rest) :
    PartsPhrase (sym .dot :: ofName part :: ws) ("." ++ part ++ rest)

inductive DeclNode where
  | declaration (d : Declaration)
  | declarations (ds : List Declaration)

inductive DeclPhrase : List Word → DeclNode → Prop
  | nil : DeclPhrase [] (.declarations [])
  | comment {w : Word} {ws : List Word} {ds : List Declaration} (hs : w.Spelled)
      (hw : w.kind = .comment) (rest : DeclPhrase ws (.declarations ds)) : DeclPhrase (w :: ws) (.declarations ds)
  | cons {ws ws' : List Word} {d : Declaration} {ds : List Declaration}
      (h : DeclPhrase ws (.declaration d)) (rest : DeclPhrase ws' (.declarations ds)) :
    DeclPhrase (ws ++ ws') (.declarations (d :: ds))
  | function {name : String} {ws : List Word} {ps : List Parameter} {b : List Stmt}
      (hn : IsName name) (h : SignaturePhrase ws ps b) :
    DeclPhrase (key .funcWord :: ofName name :: ws)
      (.declaration (.function ⟨none, name, ps, b⟩))
  | namespaceDecl {name : String} {ws : List Word} {ds : List Declaration} (hn : IsName name)
      (h : DeclPhrase ws (.declarations ds)) :
    DeclPhrase (key .namespaceWord :: ofName name :: sym .leftBrace :: ws ++ [sym .rightBrace])
      (.declaration (.namespaceDecl name ds))
  | classDecl {ws : List Word} {c : ClassDecl} (h : ClassPhrase ws c) :
    DeclPhrase ws (.declaration (.classDecl c))
  | importDecl {first rest : String} {ws : List Word} (hn : IsName first)
      (h : PartsPhrase ws rest) :
    DeclPhrase (key .importWord :: ofName first :: ws ++ [sym .semicolon])
      (.declaration (.importDecl (first ++ rest)))

theorem DeclPhrase.ne_nil {ws : List Word} {d : Declaration}
    (h : DeclPhrase ws (.declaration d)) : ws ≠ [] := by
  cases h with
  | classDecl h =>
    cases h
    simp
  | _ => simp

def Program.Phrase (ws : List Word) (p : Program) : Prop :=
  DeclPhrase ws (.declarations p.declarations)

end VnScript
