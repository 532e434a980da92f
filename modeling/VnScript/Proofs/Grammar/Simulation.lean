import VnScript.Grammar.Declaration

namespace VnScript

/-- Two results of the same kind whose parts are related. -/
inductive Except.Related {ε ε' α β : Type} (E : ε → ε' → Prop) (V : α → β → Prop) :
    Except ε α → Except ε' β → Prop
  | ok {a : α} {b : β} (h : V a b) : Related E V (.ok a) (.ok b)
  | error {e : ε} {e' : ε'} (h : E e e') : Related E V (.error e) (.error e')

/-- Tokens that differ at most in where they stand. -/
structure Token.Similar (places : Place → Place → Prop) (t t' : Token) : Prop where
  kind : t.kind = t'.kind
  lexeme : t.lexeme = t'.lexeme
  place : places t.start.toPlace t'.start.toPlace

def SyntaxError.moveTo (place : Place) : SyntaxError → SyntaxError
  | unexpected expected found _ => unexpected expected found place
  | expectedFunction _ => expectedFunction place
  | invalidTarget _ => invalidTarget place
  | invalidInitializer _ => invalidInitializer place
  | invalidLiteral kind literal _ => invalidLiteral kind literal place

/-- The failure is about the token: it stands where the token starts, and what it says of the
token that was found is said of this one. -/
def SyntaxError.IsAbout (t : Token) : SyntaxError → Prop
  | unexpected _ found place => found = t.kind ∧ place = t.start.toPlace
  | expectedFunction place => place = t.start.toPlace
  | invalidTarget place => place = t.start.toPlace
  | invalidInitializer place => place = t.start.toPlace
  | invalidLiteral kind literal place =>
    kind = t.kind ∧ literal = t.lexeme ∧ place = t.start.toPlace

theorem SyntaxError.IsAbout.place_eq {t : Token} {e : SyntaxError} (h : e.IsAbout t) :
    e.place = t.start.toPlace := by
  cases e with
  | unexpected _ _ _ => exact h.2
  | invalidLiteral _ _ _ => exact h.2.2
  | expectedFunction _ | invalidTarget _ | invalidInitializer _ => exact h

/-- A relation between the states of two streams that supply similar tokens. -/
structure Simulation (σ τ : Type) [TokenStream σ] [TokenStream τ] where
  states : σ → τ → Prop
  places : Place → Place → Prop
  errors : LexError → LexError → Prop
  current_similar {s : σ} {t : τ} (h : states s t) :
    Token.Similar places (TokenStream.current s) (TokenStream.current t)
  next_related {s : σ} {t : τ} (h : states s t) :
    Except.Related errors states (TokenStream.next s) (TokenStream.next t)
  peek_related {s : σ} {t : τ} (h : states s t) :
    Except.Related errors (fun x y => x.1 = y.1 ∧ states x.2 y.2)
      (TokenStream.peek s) (TokenStream.peek t)

namespace Simulation

open Grammar

variable {σ τ α β α' β' : Type} [TokenStream σ] [TokenStream τ] (S : Simulation σ τ)

/-- The tokens at which streams stand in related states. -/
structure Meets (t t' : Token) : Prop extends Token.Similar S.places t t' where
  met : ∃ s s', S.states s s' ∧ TokenStream.current s = t ∧ TokenStream.current s' = t'

def MeetsAt (place place' : Place) : Prop :=
  ∃ t t', S.Meets t t' ∧ place = t.start.toPlace ∧ place' = t'.start.toPlace

/-- The same failure, about tokens at which the streams stand in related states. -/
inductive Failures : ParseError → ParseError → Prop
  | lexical {e e' : LexError} (h : S.errors e e') : Failures (.lexical e) (.lexical e')
  | grammar {e : SyntaxError} {t t' : Token} (h : S.Meets t t') (he : e.IsAbout t) :
    Failures (.grammar e) (.grammar (e.moveTo t'.start.toPlace))

/-- From related states the parsers fail alike or give related values in related states. -/
def Agree (V : α → β → Prop) (p : Parser σ α) (q : Parser τ β) : Prop :=
  ∀ s t, S.states s t →
    Except.Related S.Failures (fun x y => V x.1 y.1 ∧ S.states x.2 y.2) (p s) (q t)

abbrev Same (p : Parser σ α) (q : Parser τ α) : Prop := S.Agree Eq p q

variable {S} {V : α → β → Prop} {W : α' → β' → Prop}

theorem Agree.pure {a : α} {b : β} (h : V a b) :
    S.Agree V (Pure.pure a : Parser σ α) (Pure.pure b) :=
  fun _ _ hs => .ok ⟨h, hs⟩

theorem Agree.bind {p : Parser σ α} {q : Parser τ β} {f : α → Parser σ α'} {g : β → Parser τ β'}
    (hp : S.Agree V p q) (hf : ∀ a b, V a b → S.Agree W (f a) (g b)) :
    S.Agree W (p >>= f) (q >>= g) := by
  intro s t hs
  have h := hp s t hs
  change Except.Related _ _ ((p s).bind fun x => f x.1 x.2) ((q t).bind fun y => g y.1 y.2)
  cases hx : p s with
  | ok x =>
    cases hy : q t with
    | ok y =>
      rw [hx, hy] at h
      cases h with
      | ok h => exact hf _ _ h.1 _ _ h.2
    | error e =>
      rw [hx, hy] at h
      cases h
  | error e =>
    cases hy : q t with
    | ok y =>
      rw [hx, hy] at h
      cases h
    | error e' =>
      rw [hx, hy] at h
      cases h with
      | error h => exact .error h

theorem Same.bind {p : Parser σ α} {q : Parser τ α} {f : α → Parser σ α'} {g : α → Parser τ β'}
    (hp : S.Same p q) (hf : ∀ a, S.Agree W (f a) (g a)) : S.Agree W (p >>= f) (q >>= g) :=
  Agree.bind hp fun a _ h => h ▸ hf a

theorem Same.map {p : Parser σ α} {q : Parser τ α} (f : α → β) (h : S.Same p q) :
    S.Same (f <$> p) (f <$> q) := by
  simp only [map_eq_pure_bind]
  exact Same.bind h fun a => .pure rfl

theorem Agree.ite {c : Prop} [Decidable c] {p p' : Parser σ α} {q q' : Parser τ β}
    (h : S.Agree V p q) (h' : S.Agree V p' q') :
    S.Agree V (if c then p else p') (if c then q else q') := by
  split
  · exact h
  · exact h'

variable (S)

theorem meets {s : σ} {t : τ} (hs : S.states s t) :
    S.Meets (TokenStream.current s) (TokenStream.current t) :=
  ⟨S.current_similar hs, s, t, hs, rfl, rfl⟩

theorem current_agree : S.Agree S.Meets (current : Parser σ Token) current :=
  fun _ _ hs => .ok ⟨S.meets hs, hs⟩

theorem kind_same : S.Same (kind : Parser σ TokenKind) kind :=
  S.current_agree.bind fun _ _ h => .pure h.kind

theorem place_agree : S.Agree S.MeetsAt (place : Parser σ Place) place :=
  S.current_agree.bind fun t t' h => .pure ⟨t, t', h, rfl, rfl⟩

theorem check_same (k : TokenKind) : S.Same (check k : Parser σ Bool) (check k) :=
  Same.bind S.kind_same fun _ => .pure rfl

theorem fail_agree {e : SyntaxError} {t t' : Token} (h : S.Meets t t') (he : e.IsAbout t) :
    S.Agree V (fail e : Parser σ α) (fail (e.moveTo t'.start.toPlace)) :=
  fun _ _ _ => .error (.grammar h he)

theorem fail_at_agree (e : Place → SyntaxError) (hmove : ∀ p p', (e p).moveTo p' = e p')
    (habout : ∀ t : Token, (e t.start.toPlace).IsAbout t) {p p' : Place} (h : S.MeetsAt p p') :
    S.Agree V (fail (e p) : Parser σ α) (fail (e p')) := by
  obtain ⟨t, t', ht, rfl, rfl⟩ := h
  rw [← hmove t.start.toPlace t'.start.toPlace]
  exact S.fail_agree ht (habout t)

theorem unexpected_agree (expected : Expectation) :
    S.Agree V (unexpected expected : Parser σ α) (unexpected expected : Parser τ β) := by
  refine S.current_agree.bind fun t t' h => ?_
  rw [← h.kind]
  exact S.fail_agree h ⟨rfl, rfl⟩

theorem advance_agree : S.Agree S.Meets (advance : Parser σ Token) advance := by
  intro s t hs
  have h := S.next_related hs
  unfold advance
  cases hx : TokenStream.next s <;> cases hy : TokenStream.next t <;> rw [hx, hy] at h <;> cases h
  · exact .error (.lexical ‹_›)
  · exact .ok ⟨S.meets hs, ‹_›⟩

theorem peek_same : S.Same (peek : Parser σ TokenKind) peek := by
  intro s t hs
  have h := S.peek_related hs
  unfold peek
  cases hx : TokenStream.peek s <;> cases hy : TokenStream.peek t <;> rw [hx, hy] at h <;> cases h
  · exact .error (.lexical ‹_›)
  · exact .ok ‹_›

theorem skip_same : S.Same (skip : Parser σ (List α)) skip :=
  S.advance_agree.bind fun _ _ _ => .pure rfl

theorem consume_agree (k : TokenKind) :
    S.Agree S.Meets (consume k : Parser σ Token) (consume k) :=
  Same.bind (S.check_same k) fun _ => S.advance_agree.ite (S.unexpected_agree _)

theorem word_same (k : Keyword) : S.Same (word k : Parser σ Unit) (word k) :=
  (S.consume_agree _).bind fun _ _ _ => .pure rfl

theorem identifier_same : S.Same (identifier : Parser σ String) identifier :=
  (S.consume_agree _).bind fun _ _ h => .pure h.lexeme

theorem memberName_same : S.Same (memberName : Parser σ String) memberName := by
  refine Same.bind S.kind_same fun k => ?_
  have hname : S.Same (do return (← advance).lexeme : Parser σ String)
      (do return (← advance).lexeme) := S.advance_agree.bind fun _ _ h => .pure h.lexeme
  split
  · exact hname
  · exact hname
  · exact S.unexpected_agree _

variable {S}

theorem Same.one {p : Parser σ α} {q : Parser τ α} (h : S.Same p q) : S.Same (one p) (one q) :=
  Same.bind h fun _ => .pure rfl

theorem Same.sequence {step : TokenKind → Option (Parser σ (List α))}
    {step' : TokenKind → Option (Parser τ (List α))}
    (h : ∀ k, Option.Rel S.Same (step k) (step' k)) (n : Nat) :
    S.Same (sequence step n) (sequence step' n) := by
  induction n with
  | zero => exact .pure rfl
  | succ n ih =>
    refine Same.bind S.kind_same fun k => ?_
    have hk := h k
    generalize step k = x, step' k = y at hk
    cases hk with
    | none => exact .pure rfl
    | some hitem => exact Same.bind hitem fun xs => Same.bind ih fun ys => .pure rfl

theorem Same.commaSeparated {p : Parser σ α} {q : Parser τ α} (h : S.Same p q) (n : Nat) :
    S.Same (commaSeparated p n) (commaSeparated q n) := by
  induction n with
  | zero => exact Same.one h
  | succ n ih =>
    refine Same.bind h fun x => Same.bind (S.check_same .comma) fun b => ?_
    refine .ite ?_ (.pure rfl)
    exact S.advance_agree.bind fun _ _ _ => Same.bind ih fun xs => .pure rfl

theorem Same.parenthesized {p : Parser σ α} {q : Parser τ α} (h : S.Same p q) (n : Nat) :
    S.Same (parenthesized p n) (parenthesized q n) := by
  refine (S.consume_agree _).bind fun _ _ _ => Same.bind (S.check_same .rightParen) fun b => ?_
  have hclose (xs : List α) : S.Same (do let _ ← consume .rightParen; return xs : Parser σ _)
      (do let _ ← consume .rightParen; return xs) :=
    (S.consume_agree _).bind fun _ _ _ => .pure rfl
  exact .ite (Same.bind (.pure rfl) hclose) (Same.bind (h.commaSeparated n) hclose)

section Expressions

variable {e : Parser σ Expr} {e' : Parser τ Expr} {n : Nat}

theorem Same.chain (operator? : TokenKind → Option Operator) (h : S.Same e e') (n : Nat)
    (left : Expr) : S.Same (chain operator? e n left) (chain operator? e' n left) := by
  induction n generalizing left with
  | zero => exact .pure rfl
  | succ n ih =>
    refine Same.bind S.kind_same fun k => ?_
    cases operator? k with
    | none => exact .pure rfl
    | some op => exact S.advance_agree.bind fun _ _ _ => Same.bind h fun right => ih _

theorem Same.binary (h : S.Same e e') (n : Nat) (ls : List (TokenKind → Option Operator)) :
    S.Same (binary n e ls) (binary n e' ls) := by
  induction ls with
  | nil => exact h
  | cons operator? tighter ih => exact Same.bind ih fun left => ih.chain operator? n left

theorem literal_same : S.Same (literal : Parser σ Expr) literal := by
  refine S.advance_agree.bind fun t t' h => ?_
  rw [← h.kind, ← h.lexeme]
  cases literal? t.kind t.lexeme with
  | none => exact S.fail_agree h ⟨rfl, rfl, rfl⟩
  | some e => exact .pure rfl

theorem Same.memberOrCall (h : S.Same e e') (receiver : Receiver) (access : String → Expr) :
    S.Same (memberOrCall n e receiver access) (memberOrCall n e' receiver access) := by
  refine S.advance_agree.bind fun _ _ _ => Same.bind S.memberName_same fun member => ?_
  refine Same.bind (S.check_same .leftParen) fun b => .ite ?_ (.pure rfl)
  exact Same.bind (h.parenthesized n) fun args => .pure rfl

theorem Same.named (h : S.Same e e') (name : String) :
    S.Same (named n e name) (named n e' name) := by
  refine Same.bind S.kind_same fun k => ?_
  split
  · exact h.memberOrCall _ _
  · exact h.memberOrCall _ _
  · exact Same.bind (h.parenthesized n) fun args => .pure rfl
  · exact .pure rfl

theorem Same.instanceExpression (h : S.Same e e') :
    S.Same (instanceExpression n e) (instanceExpression n e') := by
  refine Same.bind (S.word_same _) fun _ => Same.bind (S.check_same .identifier) fun b => ?_
  refine .ite ?_ (h.named instanceName)
  refine Same.bind S.identifier_same fun first => Same.bind (S.check_same .colon) fun c => ?_
  refine .ite ?_ ?_
  · refine S.advance_agree.bind fun _ _ _ => Same.bind S.identifier_same fun type => ?_
    exact Same.bind (h.parenthesized n) fun args => .pure rfl
  · exact Same.bind (h.parenthesized n) fun args => .pure rfl

theorem Same.classCall (h : S.Same e e') : S.Same (classCall n e) (classCall n e') := by
  refine S.advance_agree.bind fun _ _ _ => (S.consume_agree _).bind fun _ _ _ => ?_
  refine Same.bind S.memberName_same fun name => ?_
  exact Same.bind (h.parenthesized n) fun args => .pure rfl

theorem Same.primary (h : S.Same e e') : S.Same (primary n e) (primary n e') := by
  refine Same.bind S.kind_same fun k => ?_
  split
  any_goals exact literal_same
  · exact S.advance_agree.bind fun _ _ _ => .pure rfl
  · exact S.advance_agree.bind fun _ _ _ => .pure rfl
  · exact h.instanceExpression
  · exact h.classCall
  · refine S.advance_agree.bind fun t t' ht => ?_
    rw [← ht.lexeme]
    exact h.named _
  · exact S.unexpected_agree _

theorem Same.comparison (h : S.Same e e') : S.Same (comparison n e) (comparison n e') :=
  h.primary.binary n levels

theorem Same.assignment (h : S.Same e e') : S.Same (assignment n e) (assignment n e') := by
  refine Same.bind h.comparison fun target => Same.bind S.kind_same fun k => ?_
  cases assignment? k with
  | none => exact .pure rfl
  | some op =>
    refine S.place_agree.bind fun p p' hp => ?_
    split
    · exact S.advance_agree.bind fun _ _ _ => Same.bind h fun value => .pure rfl
    · exact S.advance_agree.bind fun _ _ _ => Same.bind h fun value => .pure rfl
    · exact S.fail_at_agree .invalidTarget (fun _ _ => rfl) (fun _ => rfl) hp

theorem expression_same (n : Nat) : S.Same (expression n : Parser σ Expr) (expression n) := by
  induction n with
  | zero => exact S.unexpected_agree _
  | succ n ih => exact ih.assignment

end Expressions

section Statements

variable {e : Parser σ Expr} {e' : Parser τ Expr} {p : Parser σ Stmt} {p' : Parser τ Stmt} {n : Nat}

theorem Same.declaredValue (h : S.Same e e') : S.Same (declaredValue e) (declaredValue e') := by
  refine Same.bind (S.check_same .assign) fun b => .ite ?_ (.pure rfl)
  exact S.advance_agree.bind fun _ _ _ => Same.bind h fun value => .pure rfl

theorem Same.condition (h : S.Same e e') : S.Same (condition e) (condition e') := by
  refine (S.consume_agree _).bind fun _ _ _ => Same.bind h fun value => ?_
  exact (S.consume_agree _).bind fun _ _ _ => .pure rfl

theorem Same.block (h : S.Same p p') : S.Same (block n p) (block n p') := by
  have hitem (k : TokenKind) : Option.Rel S.Same (blockItem p k) (blockItem p' k) := by
    unfold blockItem
    split
    · exact .none
    · exact .some h.one
  refine (S.consume_agree _).bind fun _ _ _ => Same.bind (Same.sequence hitem n) fun body => ?_
  exact (S.consume_agree _).bind fun _ _ _ => .pure rfl

theorem Same.clause (he : S.Same e e') (h : S.Same p p') : S.Same (clause n e p) (clause n e' p') :=
  Same.bind he.condition fun _ => Same.bind h.block fun _ => .pure rfl

theorem Same.furtherClauses (he : S.Same e e') (h : S.Same p p') (m : Nat) :
    S.Same (furtherClauses n e p m) (furtherClauses n e' p' m) := by
  induction m with
  | zero => exact .pure rfl
  | succ m ih =>
    have hclause : S.Same (do
        let c ← Grammar.clause n e p
        let further ← Grammar.furtherClauses n e p m
        return (c :: further.1, further.2)) (do
        let c ← Grammar.clause n e' p'
        let further ← Grammar.furtherClauses n e' p' m
        return (c :: further.1, further.2)) :=
      Same.bind (he.clause h) fun c => Same.bind ih fun further => .pure rfl
    refine Same.bind S.kind_same fun k => ?_
    split
    · exact S.advance_agree.bind fun _ _ _ => hclause
    · refine S.advance_agree.bind fun _ _ _ => Same.bind (S.check_same _) fun b => ?_
      refine .ite (S.advance_agree.bind fun _ _ _ => hclause) ?_
      exact Same.bind h.block fun body => .pure rfl
    · exact .pure rfl

theorem Same.conditional (he : S.Same e e') (h : S.Same p p') :
    S.Same (conditional n e p) (conditional n e' p') := by
  refine Same.bind (S.word_same _) fun _ => Same.bind he.condition fun value => ?_
  exact Same.bind h.block fun body => Same.bind (he.furtherClauses h n) fun further => .pure rfl

theorem Same.forIn (he : S.Same e e') (h : S.Same p p') (name : String) (type : Option TypeName) :
    S.Same (forIn n e p name type) (forIn n e' p' name type) := by
  refine Same.bind (S.word_same _) fun _ => Same.bind he fun collection => ?_
  exact (S.consume_agree _).bind fun _ _ _ => Same.bind h.block fun body => .pure rfl

theorem Same.forClauses (he : S.Same e e') (h : S.Same p p') (initial : Stmt) :
    S.Same (forClauses n e p initial) (forClauses n e' p' initial) := by
  refine (S.consume_agree _).bind fun _ _ _ => Same.bind he fun value => ?_
  refine (S.consume_agree _).bind fun _ _ _ => Same.bind he fun increment => ?_
  exact (S.consume_agree _).bind fun _ _ _ => Same.bind h.block fun body => .pure rfl

theorem Same.initialAssignment (he : S.Same e e') :
    S.Same (initialAssignment e) (initialAssignment e') := by
  refine S.place_agree.bind fun place place' hp => Same.bind he fun value => ?_
  split
  · exact .pure rfl
  · exact .pure rfl
  · exact S.fail_at_agree .invalidInitializer (fun _ _ => rfl) (fun _ => rfl) hp

theorem Same.forLoop (he : S.Same e e') (h : S.Same p p') :
    S.Same (forLoop n e p) (forLoop n e' p') := by
  refine Same.bind (S.word_same _) fun _ => (S.consume_agree _).bind fun _ _ _ => ?_
  refine Same.bind S.kind_same fun k => ?_
  cases variableType? k with
  | some type =>
    refine S.advance_agree.bind fun _ _ _ => Same.bind S.identifier_same fun name => ?_
    refine Same.bind (S.check_same _) fun b => .ite (he.forIn h _ _) ?_
    exact Same.bind he.declaredValue fun value => he.forClauses h _
  | none =>
    refine .ite (Same.bind S.peek_same fun k' => .ite ?_ ?_) ?_
    · exact Same.bind S.identifier_same fun name => he.forIn h _ _
    · exact Same.bind he.initialAssignment fun initial => he.forClauses h _
    · exact S.place_agree.bind fun _ _ =>
        S.fail_at_agree .invalidInitializer (fun _ _ => rfl) fun _ => rfl

theorem Same.whileLoop (he : S.Same e e') (h : S.Same p p') :
    S.Same (whileLoop n e p) (whileLoop n e' p') := by
  refine Same.bind (S.word_same _) fun _ => Same.bind he.condition fun value => ?_
  exact Same.bind h.block fun body => .pure rfl

theorem Same.doWhile (he : S.Same e e') (h : S.Same p p') :
    S.Same (doWhile n e p) (doWhile n e' p') := by
  refine Same.bind (S.word_same _) fun _ => Same.bind h.block fun body => ?_
  refine Same.bind (S.word_same _) fun _ => Same.bind he.condition fun _ => ?_
  refine Same.bind (S.check_same .semicolon) fun b => .ite ?_ ?_
  · exact S.advance_agree.bind fun _ _ _ => Same.bind (.pure rfl) fun _ => .pure rfl
  · exact Same.bind (.pure rfl) fun _ => .pure rfl

theorem Same.case (he : S.Same e e') (h : S.Same p p') : S.Same (case n e p) (case n e' p') := by
  refine S.advance_agree.bind fun _ _ _ => Same.bind he fun value => ?_
  exact Same.bind h.block fun body => .pure rfl

theorem Same.switch (he : S.Same e e') (h : S.Same p p') :
    S.Same (switch n e p) (switch n e' p') := by
  have hitem (k : TokenKind) : Option.Rel S.Same (caseItem n e p k) (caseItem n e' p' k) := by
    unfold caseItem
    split
    · exact .some S.skip_same
    · exact .some (he.case h).one
    · exact .none
  refine Same.bind (S.word_same _) fun _ => Same.bind he.condition fun subject => ?_
  refine (S.consume_agree _).bind fun _ _ _ => Same.bind (Same.sequence hitem n) fun cases => ?_
  exact (S.consume_agree _).bind fun _ _ _ => .pure rfl

theorem Same.ret (he : S.Same e e') : S.Same (ret e) (ret e') := by
  have hclose (value : Option Expr) :
      S.Same (do let _ ← consume .semicolon; return Stmt.ret value : Parser σ _)
        (do let _ ← consume .semicolon; return Stmt.ret value) :=
    (S.consume_agree _).bind fun _ _ _ => .pure rfl
  refine Same.bind (S.word_same _) fun _ => Same.bind (S.check_same .semicolon) fun b => ?_
  exact .ite (Same.bind (.pure rfl) hclose) (Same.bind (Same.map some he) hclose)

theorem Same.attempt (h : S.Same p p') : S.Same (attempt n p) (attempt n p') := by
  refine Same.bind (S.word_same _) fun _ => Same.bind h.block fun body => ?_
  refine Same.bind (S.word_same _) fun _ => (S.consume_agree _).bind fun _ _ _ => ?_
  refine Same.bind S.identifier_same fun errorType => (S.consume_agree _).bind fun _ _ _ => ?_
  refine Same.bind (S.word_same _) fun _ => Same.bind S.identifier_same fun binding => ?_
  exact Same.bind h.block fun handler => .pure rfl

theorem Same.declare (he : S.Same e e') (type : VariableType) :
    S.Same (declare e type) (declare e' type) := by
  refine S.advance_agree.bind fun _ _ _ => Same.bind S.identifier_same fun name => ?_
  refine Same.bind he.declaredValue fun value => ?_
  exact (S.consume_agree _).bind fun _ _ _ => .pure rfl

theorem Same.plainStatement (he : S.Same e e') : S.Same (plainStatement e) (plainStatement e') :=
  Same.bind he fun _ => (S.consume_agree _).bind fun _ _ _ => .pure rfl

theorem Same.statementStep (he : S.Same e e') (h : S.Same p p') :
    S.Same (statementStep n e p) (statementStep n e' p') := by
  refine Same.bind S.kind_same fun k => ?_
  split
  · refine S.advance_agree.bind fun t t' ht => ?_
    rw [ht.lexeme]
    exact .pure rfl
  · exact he.declare _
  · exact he.declare _
  · exact he.declare _
  · exact he.conditional h
  · exact he.forLoop h
  · exact he.whileLoop h
  · exact he.doWhile h
  · exact he.switch h
  · exact he.ret
  · exact h.attempt
  · exact he.plainStatement

theorem statement_same (n : Nat) : S.Same (statement n : Parser σ Stmt) (statement n) := by
  induction n with
  | zero => exact S.unexpected_agree _
  | succ n ih => exact (expression_same _).statementStep ih

theorem body_same (n : Nat) : S.Same (body n : Parser σ (List Stmt)) (body n) :=
  (statement_same n).block

end Statements

section Declarations

variable {p : Parser σ Declaration} {p' : Parser τ Declaration} {n : Nat}

theorem parameterType_same : S.Same (parameterType : Parser σ _) parameterType := by
  refine Same.bind S.kind_same fun k => ?_
  split
  · exact S.advance_agree.bind fun _ _ _ => .pure rfl
  · exact S.advance_agree.bind fun _ _ _ => .pure rfl
  · exact .pure rfl

theorem parameter_same : S.Same (parameter : Parser σ Parameter) parameter := by
  refine Same.bind parameterType_same fun type => Same.bind (S.check_same _) fun b => .ite ?_ ?_
  · exact S.advance_agree.bind fun _ _ _ => .pure rfl
  · exact Same.bind S.identifier_same fun name => .pure rfl

theorem parameters_same (n : Nat) : S.Same (parameters n : Parser σ _) (parameters n) :=
  parameter_same.parenthesized n

theorem function_same (n : Nat) : S.Same (function n : Parser σ Function) (function n) := by
  refine Same.bind (S.word_same _) fun _ => Same.bind S.identifier_same fun name => ?_
  exact Same.bind (parameters_same n) fun params => Same.bind (body_same n) fun body => .pure rfl

theorem method_same (n : Nat) (name : String) :
    S.Same (method n name : Parser σ Function) (method n name) :=
  Same.bind (parameters_same n) fun _ => Same.bind (body_same n) fun _ => .pure rfl

theorem instanceMember_same (n : Nat) : S.Same (instanceMember n : Parser σ _) (instanceMember n) := by
  refine S.advance_agree.bind fun _ _ _ => (S.consume_agree _).bind fun _ _ _ => ?_
  refine Same.bind (S.check_same _) fun b => .ite ?_ ?_
  · exact S.advance_agree.bind fun _ _ _ => Same.bind (method_same n _) fun f => .pure rfl
  · exact Same.bind S.identifier_same fun name => Same.bind (method_same n name) fun f => .pure rfl

theorem classMember_same (n : Nat) : S.Same (classMember n : Parser σ _) (classMember n) := by
  refine S.advance_agree.bind fun _ _ _ => (S.consume_agree _).bind fun _ _ _ => ?_
  exact Same.bind S.identifier_same fun name => Same.bind (method_same n name) fun f => .pure rfl

theorem memberItem_same (n : Nat) (k : TokenKind) :
    Option.Rel S.Same (memberItem n k : Option (Parser σ _)) (memberItem n k) := by
  unfold memberItem
  split
  · exact .none
  · exact .none
  · exact .some S.skip_same
  · exact .some (instanceMember_same n).one
  · exact .some (classMember_same n).one
  · exact .some (S.unexpected_agree _)

theorem classDecl_same (n : Nat) : S.Same (classDecl n : Parser σ ClassDecl) (classDecl n) := by
  have hrest (name : String) (base : Option String) : S.Same (do
      let _ ← consume .rightParen
      let _ ← consume .leftBrace
      let members ← sequence (memberItem n) n
      let _ ← consume .rightBrace
      return classOfMembers name base members : Parser σ ClassDecl) (do
      let _ ← consume .rightParen
      let _ ← consume .leftBrace
      let members ← sequence (memberItem n) n
      let _ ← consume .rightBrace
      return classOfMembers name base members) := by
    refine (S.consume_agree _).bind fun _ _ _ => (S.consume_agree _).bind fun _ _ _ => ?_
    refine Same.bind (Same.sequence (memberItem_same n) n) fun members => ?_
    exact (S.consume_agree _).bind fun _ _ _ => .pure rfl
  refine Same.bind (S.word_same _) fun _ => Same.bind S.identifier_same fun name => ?_
  refine (S.consume_agree _).bind fun _ _ _ => Same.bind (S.check_same _) fun b => .ite ?_ ?_
  · exact Same.bind (Same.map some S.identifier_same) fun base => hrest name base
  · exact Same.bind (.pure rfl) fun base => hrest name base

theorem moduleParts_same (n : Nat) : S.Same (moduleParts n : Parser σ String) (moduleParts n) := by
  induction n with
  | zero => exact .pure rfl
  | succ n ih =>
    refine Same.bind (S.check_same .dot) fun b => .ite ?_ (.pure rfl)
    refine S.advance_agree.bind fun _ _ _ => Same.bind S.identifier_same fun part => ?_
    exact Same.bind ih fun rest => .pure rfl

theorem importDecl_same (n : Nat) : S.Same (importDecl n : Parser σ String) (importDecl n) := by
  refine Same.bind (S.word_same _) fun _ => Same.bind S.identifier_same fun first => ?_
  refine Same.bind (moduleParts_same n) fun rest => ?_
  exact (S.consume_agree _).bind fun _ _ _ => .pure rfl

theorem Same.declarations (h : S.Same p p') (stop : TokenKind → Bool) :
    S.Same (declarations n p stop) (declarations n p' stop) := by
  refine Same.sequence (fun k => ?_) n
  unfold declarationItem
  split
  · exact .none
  · split
    · exact .some S.skip_same
    · exact .some h.one

theorem Same.namespaceDecl (h : S.Same p p') : S.Same (namespaceDecl n p) (namespaceDecl n p') := by
  refine Same.bind (S.word_same _) fun _ => Same.bind S.identifier_same fun name => ?_
  refine (S.consume_agree _).bind fun _ _ _ => Same.bind (h.declarations _) fun ds => ?_
  exact (S.consume_agree _).bind fun _ _ _ => .pure rfl

theorem expectedFunction_agree : S.Same
    (do fail (.expectedFunction (← place)) : Parser σ Declaration)
    (do fail (.expectedFunction (← place))) :=
  S.place_agree.bind fun _ _ =>
    S.fail_at_agree .expectedFunction (fun _ _ => rfl) fun _ => rfl

theorem Same.declarationStep (h : S.Same p p') :
    S.Same (declarationStep n p) (declarationStep n p') := by
  refine Same.bind S.kind_same fun k => ?_
  split
  · exact Same.map _ (function_same n)
  · exact h.namespaceDecl
  · exact Same.map _ (classDecl_same n)
  · exact Same.map _ (importDecl_same n)
  · exact expectedFunction_agree

theorem declaration_same (n : Nat) :
    S.Same (declaration n : Parser σ Declaration) (declaration n) := by
  induction n with
  | zero => exact expectedFunction_agree
  | succ n ih => exact ih.declarationStep

/-- Streams that supply similar tokens hold the same program. -/
theorem program_same (n : Nat) : S.Same (program n : Parser σ Program) (program n) :=
  Same.map _ ((declaration_same n).declarations _)

end Declarations

end Simulation

end VnScript
