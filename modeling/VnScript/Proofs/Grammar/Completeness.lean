import VnScript.Proofs.Grammar.Phrase

namespace VnScript

open Grammar Word

namespace Word

def token (w : Word) : Token := ⟨w.kind, w.lexeme, .start, 0⟩

def ending : Word := ⟨.endOfFile, ""⟩

def front : List Word → Word
  | [] => ending
  | w :: _ => w

end Word

/-- The words of a text that are left. -/
instance : TokenStream (List Word) where
  current ws := (front ws).token
  next ws := .ok ws.tail
  peek ws := .ok ((front ws.tail).kind, ws)

section Runs

variable {α β : Type}

/-- From these words on, the parser succeeds with the value and leaves the rest. -/
def Runs (p : Parser (List Word) α) (ws : List Word) (a : α) (rest : List Word) : Prop :=
  p ws = .ok (a, rest)

variable {p : Parser (List Word) α} {f : α → Parser (List Word) β} {ws ws' rest : List Word}
  {a : α} {b : β} {w : Word}

theorem Runs.bind_eq (h : Runs p ws a ws') : (p >>= f) ws = f a ws' := by
  change (p ws).bind (fun x => f x.1 x.2) = _
  rw [h]
  rfl

theorem Runs.bind (h : Runs p ws a ws') (hf : Runs (f a) ws' b rest) :
    Runs (p >>= f) ws b rest := h.bind_eq.trans hf

theorem Runs.pure : Runs (Pure.pure a) ws a ws := rfl

theorem Runs.map {g : α → β} (h : Runs p ws a rest) : Runs (g <$> p) ws (g a) rest := by
  rw [map_eq_pure_bind]
  exact h.bind .pure

theorem Runs.kind {f : TokenKind → Parser (List Word) β} (h : Runs (f (front ws).kind) ws b rest) :
    Runs (kind >>= f) ws b rest := h

theorem Runs.check {k : TokenKind} {f : Bool → Parser (List Word) β} (hk : (front ws).kind = k)
    (h : Runs (f true) ws b rest) : Runs (check k >>= f) ws b rest := by
  change f ((front ws).kind == k) ws = _
  rwa [beq_iff_eq.2 hk]

theorem Runs.check_ne {k : TokenKind} {f : Bool → Parser (List Word) β}
    (hk : (front ws).kind ≠ k) (h : Runs (f false) ws b rest) :
    Runs (Grammar.check k >>= f) ws b rest := by
  change f ((front ws).kind == k) ws = _
  rwa [beq_eq_false_iff_ne.2 hk]

theorem Runs.ite_pos {c : Prop} [Decidable c] {q : Parser (List Word) α} (hc : c)
    (h : Runs p ws a rest) : Runs (if c then p else q) ws a rest := by
  rwa [if_pos hc]

theorem Runs.ite_neg {c : Prop} [Decidable c] {q : Parser (List Word) α} (hc : ¬c)
    (h : Runs p ws a rest) : Runs (if c then q else p) ws a rest := by
  rwa [if_neg hc]

theorem Runs.place {f : Place → Parser (List Word) β} (h : ∀ place, Runs (f place) ws b rest) :
    Runs (Grammar.place >>= f) ws b rest := h _

theorem Runs.peek {f : TokenKind → Parser (List Word) β}
    (h : Runs (f (front ws.tail).kind) ws b rest) : Runs (Grammar.peek >>= f) ws b rest := h

theorem Runs.advance {f : Token → Parser (List Word) β} (h : Runs (f w.token) ws b rest) :
    Runs (Grammar.advance >>= f) (w :: ws) b rest := h

theorem Runs.consume {k : TokenKind} {f : Token → Parser (List Word) β} (hk : w.kind = k)
    (h : Runs (f w.token) ws b rest) : Runs (Grammar.consume k >>= f) (w :: ws) b rest := by
  have hc : Runs (Grammar.consume k) (w :: ws) w.token ws := .check hk rfl
  exact hc.bind h

theorem Runs.sym {k : TokenKind} {f : Token → Parser (List Word) β}
    (h : Runs (f (Word.sym k).token) ws b rest) :
    Runs (Grammar.consume k >>= f) (Word.sym k :: ws) b rest := .consume rfl h

theorem Runs.word {k : Keyword} {f : Unit → Parser (List Word) β} (h : Runs (f ()) ws b rest) :
    Runs (Grammar.word k >>= f) (key k :: ws) b rest := by
  have hw : Runs (Grammar.word k) (key k :: ws) () ws := .sym .pure
  exact hw.bind h

theorem ofName_of_isName {name : String} (h : IsName name) : ofName name = ⟨.identifier, name⟩ :=
  ofName_identifier h

theorem identifier_runs {name : String} (hn : IsName name) :
    Runs identifier (ofName name :: ws) name ws := by
  rw [ofName_of_isName hn]
  exact .consume rfl .pure

theorem Runs.identifier {name : String} {f : String → Parser (List Word) β} (hn : IsName name)
    (h : Runs (f name) ws b rest) :
    Runs (Grammar.identifier >>= f) (ofName name :: ws) b rest := (identifier_runs hn).bind h

theorem Runs.memberName {name : String} {f : String → Parser (List Word) β}
    (h : Runs (f name) ws b rest) :
    Runs (Grammar.memberName >>= f) (ofName name :: ws) b rest := by
  have hm : Runs Grammar.memberName (ofName name :: ws) name ws := by
    unfold ofName
    cases Keyword.lookup? name <;> rfl
  exact hm.bind h

theorem skip_runs : Runs (skip : Parser (List Word) (List α)) (w :: ws) [] ws := .advance .pure

theorem Runs.sequence_nil {step : TokenKind → Option (Parser (List Word) (List α))} {n : Nat}
    (h : step (front ws).kind = none) : Runs (sequence step n) ws [] ws := by
  cases n with
  | zero => rfl
  | succ n =>
    refine .kind ?_
    rw [h]
    exact .pure

theorem Runs.sequence_cons {step : TokenKind → Option (Parser (List Word) (List α))} {n : Nat}
    {item : Parser (List Word) (List α)} {xs ys : List α} (hs : step (front ws).kind = some item)
    (hi : Runs item ws xs ws') (h : Runs (sequence step n) ws' ys rest) :
    Runs (sequence step (n + 1)) ws (xs ++ ys) rest := by
  refine .kind ?_
  rw [hs]
  exact hi.bind (h.bind .pure)

theorem Runs.one (h : Runs p ws a rest) : Runs (one p) ws [a] rest := h.bind .pure

end Runs

section Expressions

def EndsName (k : TokenKind) : Prop :=
  k ≠ .identifier ∧ k ≠ .dot ∧ k ≠ .colon ∧ k ≠ .leftParen

/-- No token that goes on with operators of the levels. -/
def EndsLevels (ls : List (TokenKind → Option Operator)) (k : TokenKind) : Prop :=
  ∀ level ∈ ls, level k = none

def EndsExpression (k : TokenKind) : Prop :=
  k = .comma ∨ k = .rightParen ∨ k = .semicolon ∨ k = .leftBrace

variable {k : TokenKind} {ws rest : List Word} {w : Word} {n m : Nat}

theorem EndsExpression.endsName (h : EndsExpression k) : EndsName k := by
  obtain rfl | rfl | rfl | rfl := h <;> exact ⟨by decide, by decide, by decide, by decide⟩

theorem EndsExpression.endsLevels (h : EndsExpression k) : EndsLevels levels k := by
  obtain rfl | rfl | rfl | rfl := h <;> unfold EndsLevels <;> decide

theorem EndsExpression.not_assignment (h : EndsExpression k) : assignment? k = none := by
  obtain rfl | rfl | rfl | rfl := h <;> rfl

theorem endsName_of_assignment {op : Option Operator} (h : assignment? k = some op) :
    EndsName k ∧ EndsLevels levels k := by
  unfold assignment? at h
  unfold EndsName EndsLevels
  split at h <;> first | decide | cases h

theorem ends_of_operator {level : TokenKind → Option Operator}
    {ls : List (TokenKind → Option Operator)} (hls : level :: ls <:+ levels) {op : Operator}
    (h : level k = some op) : EndsName k ∧ EndsLevels ls k := by
  unfold levels at hls
  simp only [List.suffix_cons_iff, List.cons.injEq, List.suffix_nil, reduceCtorEq, or_false] at hls
  unfold EndsName EndsLevels
  obtain ⟨rfl, rfl⟩ | ⟨rfl, rfl⟩ | ⟨rfl, rfl⟩ | ⟨rfl, rfl⟩ | ⟨rfl, rfl⟩ := hls
  · unfold comparison? at h
    split at h <;> first | decide | cases h
  · unfold logical? at h
    split at h <;> first | decide | cases h
  · unfold shift? at h
    split at h <;> first | decide | cases h
  · unfold additive? at h
    split at h <;> first | decide | cases h
  · unfold multiplicative? at h
    split at h <;> first | decide | cases h

theorem ExprPhrase.suffix_front {name : String} {e : Expr} (h : ExprPhrase ws (.suffix name e))
    (hr : EndsName (front rest).kind) : (front (ws ++ rest)).kind ≠ .identifier := by
  cases h with
  | alone => exact hr.1
  | freeCall h => cases h <;> simp [front, sym]
  | _ => simp [front, sym]

/-- The parser of binary operators stops behind the words, with the expression as the left
operand of what may follow on the loosest level. -/
def AcceptsBinary (ws : List Word) (e : Expr) : List (TokenKind → Option Operator) → Prop
  | [] => ∀ n rest, ws.length ≤ n + 1 → EndsName (front rest).kind →
    Runs (primary (n + 1) (expression n)) (ws ++ rest) e rest
  | level :: ls => ∀ n rest, ws.length ≤ n + 1 → EndsName (front rest).kind →
    EndsLevels ls (front rest).kind → ∃ c, n + 1 ≤ c + ws.length ∧
      binary (n + 1) (primary (n + 1) (expression n)) (level :: ls) (ws ++ rest) =
        chain level (binary (n + 1) (primary (n + 1) (expression n)) ls) c e rest

/-- The parsers read a phrase to its end, with as many rounds as it has words. -/
def ExprNode.Accepts (ws : List Word) : ExprNode → Prop
  | .items es => ∀ n m rest, ws.length ≤ n → ws.length ≤ m → (front rest).kind = .rightParen →
    Runs (commaSeparated (Grammar.expression n) m) (ws ++ rest) es rest
  | .arguments es => ∀ n m rest, ws.length ≤ n + 1 → ws.length ≤ m + 1 →
    Runs (parenthesized (Grammar.expression n) m) (ws ++ rest) es rest
  | .suffix name e => ∀ n rest, ws.length ≤ n → EndsName (front rest).kind →
    Runs (named (n + 1) (Grammar.expression n) name) (ws ++ rest) e rest
  | .primary e => AcceptsBinary ws e []
  | .binary ls e => ls <:+ levels → AcceptsBinary ws e ls
  | .expression e => ∀ n rest, ws.length ≤ n → EndsExpression (front rest).kind →
    Runs (Grammar.expression n) (ws ++ rest) e rest

theorem chain_stops {level : TokenKind → Option Operator} {operand : Parser (List Word) Expr}
    {e : Expr} (c : Nat) (h : level (front rest).kind = none) :
    Runs (chain level operand c e) rest e rest := by
  cases c with
  | zero => exact .pure
  | succ c =>
    refine .kind ?_
    rw [h]
    exact .pure

theorem chain_goes_on {level : TokenKind → Option Operator} {operand : Parser (List Word) Expr}
    {left right : Expr} {op : Operator} {c : Nat} (ho : level w.kind = some op)
    (h : Runs operand ws right rest) :
    chain level operand (c + 1) left (w :: ws) =
      chain level operand c (.binary op left right) rest := by
  have hk (f : TokenKind → Parser (List Word) Expr) :
      (Grammar.kind >>= f) (w :: ws) = f w.kind (w :: ws) := rfl
  rw [chain, hk, ho]
  exact Runs.bind_eq (f := fun right => chain level operand c (.binary op left right)) h

theorem AcceptsBinary.runs {ls : List (TokenKind → Option Operator)} {e : Expr}
    (h : AcceptsBinary ws e ls) (hn : ws.length ≤ n + 1) (hname : EndsName (front rest).kind)
    (hls : EndsLevels ls (front rest).kind) :
    Runs (binary (n + 1) (primary (n + 1) (expression n)) ls) (ws ++ rest) e rest := by
  cases ls with
  | nil => exact h n rest hn hname
  | cons level ls =>
    obtain ⟨hlevel, hls⟩ := List.forall_mem_cons.1 hls
    obtain ⟨c, -, hc⟩ := h n rest hn hname hls
    exact hc.trans (chain_stops c hlevel)

theorem AcceptsBinary.tighter {level : TokenKind → Option Operator}
    {ls : List (TokenKind → Option Operator)} {e : Expr} (h : AcceptsBinary ws e ls) :
    AcceptsBinary ws e (level :: ls) := by
  intro n rest hn hname hls
  exact ⟨n + 1, by omega, (h.runs hn hname hls).bind_eq⟩

theorem AcceptsBinary.operation {level : TokenKind → Option Operator}
    {ls : List (TokenKind → Option Operator)} {ws' : List Word} {left right : Expr} {op : Operator}
    (hsuffix : level :: ls <:+ levels) (h : AcceptsBinary ws left (level :: ls))
    (ho : level w.kind = some op) (h' : AcceptsBinary ws' right ls) :
    AcceptsBinary (ws ++ w :: ws') (.binary op left right) (level :: ls) := by
  intro n rest hn hname hls
  rw [List.length_append, List.length_cons] at hn
  obtain ⟨hname', hls'⟩ := ends_of_operator hsuffix ho
  obtain ⟨c, hc, heq⟩ := h n (w :: (ws' ++ rest)) (by omega) hname' hls'
  obtain ⟨c, rfl⟩ : ∃ d, c = d + 1 := ⟨c - 1, by omega⟩
  have hright : Runs (binary (n + 1) (primary (n + 1) (expression n)) ls) (ws' ++ rest) right rest :=
    h'.runs (by omega) hname hls
  refine ⟨c, by rw [List.length_append, List.length_cons]; omega, ?_⟩
  rw [List.append_assoc, List.cons_append, heq, chain_goes_on ho hright]

theorem AcceptsBinary.runs_target {e : Expr} {op : Option Operator} (h : AcceptsBinary ws e levels)
    (hn : ws.length ≤ n + 1) (ho : assignment? w.kind = some op) (rest : List Word) :
    Runs (binary (n + 1) (primary (n + 1) (expression n)) levels) (ws ++ w :: rest) e (w :: rest) := by
  obtain ⟨hname, hlevels⟩ := endsName_of_assignment ho
  exact h.runs hn hname hlevels

theorem arguments_runs {es : List Expr} (h : ExprNode.Accepts ws (.arguments es))
    (hn : ws.length ≤ n + 1) : Runs (arguments (n + 1) (expression n)) (ws ++ rest) es rest :=
  h n (n + 1) rest hn (by omega)

theorem memberOrCall_access {k : TokenKind} {receiver : Receiver} {access : String → Expr}
    {name : String} (hr : EndsName (front rest).kind) :
    Runs (memberOrCall (n + 1) (expression n) receiver access) (sym k :: ofName name :: rest)
      (access name) rest :=
  .advance (.memberName (.check_ne hr.2.2.2 .pure))

theorem arguments_front {es : List Expr} (h : ExprPhrase ws (.arguments es)) (rest : List Word) :
    (front (ws ++ rest)).kind = .leftParen := by
  cases h <;> rfl

theorem memberOrCall_call {k : TokenKind} {receiver : Receiver} {access : String → Expr}
    {name : String} {es : List Expr} (h : ExprPhrase ws (.arguments es))
    (ha : ExprNode.Accepts ws (.arguments es)) (hn : ws.length ≤ n + 1) :
    Runs (memberOrCall (n + 1) (expression n) receiver access) (sym k :: ofName name :: (ws ++ rest))
      (.call receiver name es) rest :=
  .advance (.memberName (.check (arguments_front h rest) ((arguments_runs ha hn).bind .pure)))

theorem named_alone {name : String} (hr : EndsName (front rest).kind) :
    Runs (named (n + 1) (expression n) name) rest (.identifier name) rest := by
  refine .kind ?_
  split
  · next h => exact absurd h hr.2.2.1
  · next h => exact absurd h hr.2.1
  · next h => exact absurd h hr.2.2.2
  · exact .pure

theorem named_freeCall {name : String} {es : List Expr} (h : ExprPhrase ws (.arguments es))
    (ha : ExprNode.Accepts ws (.arguments es)) (hn : ws.length ≤ n + 1) :
    Runs (named (n + 1) (expression n) name) (ws ++ rest) (.call .free name es) rest := by
  refine .kind ?_
  rw [arguments_front h rest]
  exact (arguments_runs ha hn).bind .pure

theorem primary_literal {e : Expr} (h : literal? w.kind w.lexeme = some e) :
    Runs (primary (n + 1) (expression n)) (w :: rest) e rest := by
  have hl : Runs literal (w :: rest) e rest := by
    refine .advance ?_
    have hl : literal? w.token.kind w.token.lexeme = some e := h
    rw [hl]
    exact .pure
  obtain ⟨kind, lexeme⟩ := w
  cases kind with
  | integer | float | double | char | string => exact .kind hl
  | _ => cases h

theorem primary_named {name : String} {e : Expr} (hn : IsUsable name)
    (h : ExprPhrase ws (.suffix name e))
    (hs : Runs (named (n + 1) (expression n) name) (ws ++ rest) e rest)
    (hr : EndsName (front rest).kind) :
    Runs (primary (n + 1) (expression n)) (ofName name :: (ws ++ rest)) e rest := by
  obtain hn | rfl := hn
  · rw [ofName_of_isName hn]
    exact .kind (.advance hs)
  · have hfront := h.suffix_front hr
    exact .kind (.word (.check_ne hfront hs))

theorem parenthesized_items {α : Type} {item : Parser (List Word) α} {es : List α}
    (hfront : (front (ws ++ sym .rightParen :: rest)).kind ≠ .rightParen)
    (h : Runs (commaSeparated item n) (ws ++ sym .rightParen :: rest) es
      (sym .rightParen :: rest)) :
    Runs (parenthesized item n) (sym .leftParen :: (ws ++ sym .rightParen :: rest)) es rest :=
  .sym (.check_ne hfront (h.bind (.sym .pure)))

def StartsExpression (k : TokenKind) : Prop :=
  k = .integer ∨ k = .float ∨ k = .double ∨ k = .char ∨ k = .string ∨ k = .keyword .trueWord ∨
    k = .keyword .falseWord ∨ k = .keyword .instanceWord ∨ k = .keyword .classWord ∨ k = .identifier

theorem StartsExpression.ne_rightParen (h : StartsExpression k) : k ≠ .rightParen := by
  rintro rfl
  revert h
  unfold StartsExpression
  decide

theorem StartsExpression.ne_semicolon (h : StartsExpression k) : k ≠ .semicolon := by
  rintro rfl
  revert h
  unfold StartsExpression
  decide

theorem startsExpression_of_literal {e : Expr} {text : String} (h : literal? k text = some e) :
    StartsExpression k := by
  unfold literal? at h
  unfold StartsExpression
  split at h <;> first | decide | cases h

theorem startsExpression_of_usable {name : String} (h : IsUsable name) :
    StartsExpression (ofName name).kind := by
  unfold StartsExpression
  obtain h | rfl := h
  · simp [ofName_of_isName h]
  · decide

theorem ExprPhrase.starts {node : ExprNode} (h : ExprPhrase ws node) (rest : List Word) :
    StartsExpression (front (ws ++ rest)).kind ∨ (∃ es, node = .arguments es) ∨
      ∃ name e, node = .suffix name e := by
  induction h generalizing rest with
  | literal hs hl => exact Or.inl (startsExpression_of_literal hl)
  | named hn h => exact Or.inl (startsExpression_of_usable hn)
  | true | false | create | createIn | classCall =>
    exact Or.inl (by simp [StartsExpression, front, key, sym])
  | item h rest ih ih' =>
    rw [List.append_assoc]
    exact Or.inl ((ih _).resolve_right (by simp))
  | operation h hw ho h' ih ih' | assign h hw ho h' ih ih' | assignMember h hw ho h' ih ih' =>
    rw [List.append_assoc]
    exact Or.inl ((ih _).resolve_right (by simp))
  | lastItem h ih | operand h ih | tighter h ih | value h ih =>
    exact Or.inl ((ih _).resolve_right (by simp))
  | _ => simp

section Arguments

variable {e : Expr} {es : List Expr}

theorem accepts_lastItem (h : ExprNode.Accepts ws (.expression e)) :
    ExprNode.Accepts ws (.items [e]) := by
  intro n m rest hn hm hr
  have he := h n rest hn (Or.inr (Or.inl hr))
  cases m with
  | zero => exact he.bind .pure
  | succ m => exact he.bind (.check_ne (by rw [hr]; decide) .pure)

theorem accepts_item {ws' : List Word} (h : ExprNode.Accepts ws (.expression e))
    (rest : ExprNode.Accepts ws' (.items es)) :
    ExprNode.Accepts (ws ++ sym .comma :: ws') (.items (e :: es)) := by
  intro n m rest' hn hm hr
  rw [List.length_append, List.length_cons] at hn hm
  obtain ⟨m, rfl⟩ : ∃ d, m = d + 1 := ⟨m - 1, by omega⟩
  rw [List.append_assoc, List.cons_append]
  refine (h n _ (by omega) (Or.inl rfl)).bind (.check rfl (.advance ?_))
  exact (rest n m rest' (by omega) (by omega) hr).bind .pure

theorem accepts_noArguments : ExprNode.Accepts [sym .leftParen, sym .rightParen] (.arguments []) :=
  fun _ _ _ _ _ => .sym (.check rfl (.bind .pure (.sym .pure)))

theorem accepts_arguments (h : ExprPhrase ws (.items es)) (hes : ExprNode.Accepts ws (.items es)) :
    ExprNode.Accepts (sym .leftParen :: ws ++ [sym .rightParen]) (.arguments es) := by
  intro n m rest hn hm
  simp only [List.cons_append, List.length_cons, List.length_append, List.length_nil] at hn hm
  rw [List.cons_append, List.cons_append, List.append_assoc, List.singleton_append]
  have hstart := (h.starts (sym .rightParen :: rest)).resolve_right (by simp)
  refine parenthesized_items ?_ (hes n m _ (by omega) (by omega) rfl)
  exact hstart.ne_rightParen

end Arguments

section Primaries

variable {type m : String} {es : List Expr}

theorem accepts_create (ht : IsName type) (h : ExprPhrase ws (.arguments es))
    (ha : ExprNode.Accepts ws (.arguments es)) :
    ExprNode.Accepts (key .instanceWord :: ofName type :: ws) (.primary (.create none type es)) := by
  intro n rest hlen hr
  simp only [List.length_cons] at hlen
  refine .kind (.word (.check (by rw [ofName_of_isName ht]; rfl) (.identifier ht ?_)))
  refine .check_ne (fun hc => ?_) ((arguments_runs ha (by omega)).bind .pure)
  cases (arguments_front h rest).symm.trans hc

theorem accepts_createIn {space : String} (hs : IsName space) (ht : IsName type)
    (ha : ExprNode.Accepts ws (.arguments es)) :
    ExprNode.Accepts (key .instanceWord :: ofName space :: sym .colon :: ofName type :: ws)
      (.primary (.create (some space) type es)) := by
  intro n rest hlen hr
  simp only [List.length_cons] at hlen
  refine .kind (.word (.check (by rw [ofName_of_isName hs]; rfl) (.identifier hs ?_)))
  refine .check rfl (.advance (.identifier ht ?_))
  exact (arguments_runs ha (by omega)).bind .pure

theorem accepts_classCall (ha : ExprNode.Accepts ws (.arguments es)) :
    ExprNode.Accepts (key .classWord :: sym .dot :: ofName m :: ws)
      (.primary (.call (.named className) m es)) := by
  intro n rest hlen hr
  simp only [List.length_cons] at hlen
  refine .kind (.advance (.sym (.memberName ?_)))
  exact (arguments_runs ha (by omega)).bind .pure

end Primaries

theorem accepts_value {e : Expr} (hne : ws ≠ []) (h : AcceptsBinary ws e levels) :
    ExprNode.Accepts ws (.expression e) := by
  intro n rest hn hr
  have hpos := List.length_pos_iff.2 hne
  obtain ⟨n, rfl⟩ : ∃ d, n = d + 1 := ⟨n - 1, by omega⟩
  refine (h.runs hn hr.endsName hr.endsLevels).bind (.kind ?_)
  rw [hr.not_assignment]
  exact .pure

theorem accepts_assignment {ws' : List Word} {op : Option Operator} {target value e : Expr}
    (h : AcceptsBinary ws target levels) (ho : assignment? w.kind = some op)
    (hv : ExprNode.Accepts ws' (.expression value))
    (he : (∃ name, target = .identifier name ∧ e = .assign name (compound op target value)) ∨
      ∃ object m, target = .member object m ∧
        e = .assignMember object m (compound op target value)) :
    ExprNode.Accepts (ws ++ w :: ws') (.expression e) := by
  intro n rest hn hr
  rw [List.length_append, List.length_cons] at hn
  obtain ⟨n, rfl⟩ : ∃ d, n = d + 1 := ⟨n - 1, by omega⟩
  rw [List.append_assoc, List.cons_append]
  have hvalue := hv n rest (by omega) hr
  have hk : assignment? (front (w :: (ws' ++ rest))).kind = some op := ho
  refine (h.runs_target (n := n) (by omega) ho (ws' ++ rest)).bind (.kind ?_)
  rw [hk]
  obtain ⟨name, rfl, rfl⟩ | ⟨object, m, rfl, rfl⟩ := he
  · exact .place fun place => .advance (hvalue.bind .pure)
  · exact .place fun place => .advance (hvalue.bind .pure)

/-- The parser reads every phrase of the grammar to its end. -/
theorem ExprPhrase.accepts {node : ExprNode} (h : ExprPhrase ws node) : node.Accepts ws := by
  induction h with
  | lastItem h ih => exact accepts_lastItem ih
  | item h rest ih ih' => exact accepts_item ih ih'
  | noArguments => exact accepts_noArguments
  | arguments h ih => exact accepts_arguments h ih
  | alone => exact fun n rest hn hr => named_alone hr
  | freeCall h ih => exact fun n rest hn hr => named_freeCall h ih (by omega)
  | member hm => exact fun n rest hn hr => memberOrCall_access hr
  | memberCall hm h ih =>
    intro n rest hn hr
    exact memberOrCall_call h ih (by simp at hn; omega)
  | spaceMember hm => exact fun n rest hn hr => memberOrCall_access hr
  | spaceCall hm h ih =>
    intro n rest hn hr
    exact memberOrCall_call h ih (by simp at hn; omega)
  | literal hs hl => exact fun n rest hn hr => primary_literal hl
  | true => exact fun n rest hn hr => rfl
  | false => exact fun n rest hn hr => rfl
  | named hn h ih =>
    intro n rest hlen hr
    rw [List.length_cons] at hlen
    exact primary_named hn h (ih n rest (by omega) hr) hr
  | create ht h ih => exact accepts_create ht h ih
  | createIn hs ht h ih => exact accepts_createIn hs ht ih
  | classCall hm h ih => exact accepts_classCall ih
  -- On each level the operands are those of the tighter ones.
  | operand h ih => exact fun _ => ih
  | tighter h ih => exact fun hs => (ih ((List.suffix_cons _ _).trans hs)).tighter
  | operation h hw ho h' ih ih' =>
    exact fun hs => (ih hs).operation hs ho (ih' ((List.suffix_cons _ _).trans hs))
  | value h ih => exact accepts_value (Expr.Phrase.ne_nil (.value h)) (ih List.suffix_rfl)
  | assign h hw ho h' ih ih' =>
    exact accepts_assignment (ih List.suffix_rfl) ho ih' (Or.inl ⟨_, rfl, rfl⟩)
  | assignMember h hw ho h' ih ih' =>
    exact accepts_assignment (ih List.suffix_rfl) ho ih' (Or.inr ⟨_, _, rfl, rfl⟩)

end Expressions

section Statements

variable {k : TokenKind} {ws ws' rest : List Word} {w : Word} {e : Expr} {n m : Nat}

theorem Expr.Phrase.runs (h : e.Phrase ws) (hn : ws.length ≤ n)
    (hr : EndsExpression (front rest).kind) :
    Runs (Grammar.expression n) (ws ++ rest) e rest := h.accepts n rest hn hr

/-- What can stand behind a statement: nothing that would go on with it. -/
def EndsStatement (k : TokenKind) : Prop :=
  k ≠ .keyword .elseWord ∧ k ≠ .keyword .elseIfWord ∧ k ≠ .semicolon

def StartsStatement (k : TokenKind) : Prop :=
  StartsExpression k ∨ (variableType? k).isSome ∨ k ∈ [.comment, .keyword .ifWord,
    .keyword .forWord, .keyword .whileWord, .keyword .doWord, .keyword .switchWord,
    .keyword .returnWord, .keyword .tryWord]

theorem StartsStatement.ends (h : StartsStatement k) :
    EndsStatement k ∧ k ≠ .rightBrace ∧ k ≠ .endOfFile := by
  unfold EndsStatement
  refine ⟨⟨?_, ?_, ?_⟩, ?_, ?_⟩
  all_goals
    rintro rfl
    revert h
    unfold StartsStatement StartsExpression
    decide

theorem StmtPhrase.starts {s : Stmt} (h : StmtPhrase ws (.statement s)) (rest : List Word) :
    StartsStatement (front (ws ++ rest)).kind := by
  unfold StartsStatement
  cases h with
  | comment hs hw => exact Or.inr (Or.inr (by simp [front, hw]))
  | declare ht => exact Or.inr (Or.inl (Option.isSome_of_eq_some ht))
  | expr he =>
    rw [List.append_assoc]
    exact Or.inl ((ExprPhrase.starts he _).resolve_right (by simp))
  | _ => exact Or.inr (Or.inr (by simp [front, key, sym]))

theorem StmtPhrase.length_pos {s : Stmt} (h : StmtPhrase ws (.statement s)) : 0 < ws.length := by
  refine List.length_pos_iff.2 ?_
  rintro rfl
  exact (h.starts []).ends.2.2 rfl

theorem StmtPhrase.statements_front {ss : List Stmt} (h : StmtPhrase ws (.statements ss))
    (hr : (front rest).kind = .rightBrace) : EndsStatement (front (ws ++ rest)).kind := by
  cases h with
  | nil =>
    rw [List.nil_append, hr]
    unfold EndsStatement
    decide
  | cons h rest' =>
    rw [List.append_assoc]
    exact (h.starts _).ends.1

/-- The parsers read a phrase to its end, with as many rounds as it has words. -/
def StmtNode.Accepts (ws : List Word) : StmtNode → Prop
  | .statement s => ∀ n rest, ws.length ≤ n → EndsStatement (front rest).kind →
    Runs (Grammar.statement n) (ws ++ rest) s rest
  | .statements ss => ∀ n m rest, ws.length ≤ n → ws.length ≤ m → (front rest).kind = .rightBrace →
    Runs (sequence (blockItem (Grammar.statement n)) m) (ws ++ rest) ss rest
  | .block ss => ∀ n m rest, ws.length ≤ n + 1 → ws.length ≤ m + 1 →
    Runs (Grammar.block m (Grammar.statement n)) (ws ++ rest) ss rest
  | .clause e b => ∀ n rest, ws.length ≤ n + 1 → ∃ ws',
    Runs (condition (expression (n + 1))) (ws ++ rest) e ws' ∧
      Runs (Grammar.block (n + 1) (Grammar.statement n)) ws' b rest
  | .further cs orElse => ∀ n m rest, ws.length ≤ n + 1 → ws.length ≤ m →
    EndsStatement (front rest).kind →
    Runs (furtherClauses (n + 1) (expression (n + 1)) (Grammar.statement n) m) (ws ++ rest)
      (cs, orElse) rest
  | .initial s => ∀ n rest a rest', ws.length ≤ n + 1 → (front rest).kind = .semicolon →
    Runs (forClauses (n + 1) (expression (n + 1)) (Grammar.statement n) s) rest a rest' →
    Runs (forLoop (n + 1) (expression (n + 1)) (Grammar.statement n))
      (key .forWord :: sym .leftParen :: (ws ++ rest)) a rest'
  | .cases cs => ∀ n m rest, ws.length ≤ n + 1 → ws.length ≤ m → (front rest).kind = .rightBrace →
    Runs (sequence (caseItem (n + 1) (expression (n + 1)) (Grammar.statement n)) m) (ws ++ rest)
      cs rest

theorem condition_runs (h : e.Phrase ws) (hn : ws.length ≤ n) :
    Runs (condition (expression n)) (sym .leftParen :: (ws ++ sym .rightParen :: rest)) e rest :=
  .sym ((h.runs hn (Or.inr (Or.inl rfl))).bind (.sym .pure))

theorem declaredValue_runs {value : Option Expr} (h : ValuePhrase ws value) (hn : ws.length ≤ n)
    (hr : (front rest).kind = .semicolon) :
    Runs (declaredValue (expression n)) (ws ++ rest) value rest := by
  cases h with
  | none => exact .check_ne (by rw [List.nil_append, hr]; decide) .pure
  | some h =>
    rw [List.length_cons] at hn
    have he := h.runs (n := n) (by omega) (Or.inr (Or.inr (Or.inl hr)))
    exact .check rfl (.advance (he.bind .pure))

theorem statementStep_expression {s : Stmt} {expr : Parser (List Word) Expr}
    {self : Parser (List Word) Stmt} (hk : StartsExpression (front ws).kind)
    (h : Runs (plainStatement expr) ws s rest) : Runs (statementStep n expr self) ws s rest := by
  refine .kind ?_
  obtain hk | hk | hk | hk | hk | hk | hk | hk | hk | hk := hk <;> rw [hk] <;> exact h

theorem statementStep_declare {s : Stmt} {expr : Parser (List Word) Expr}
    {self : Parser (List Word) Stmt} {type : VariableType} (hk : variableType? k = some type)
    (h : Runs (declare expr type) (sym k :: ws) s rest) :
    Runs (statementStep n expr self) (sym k :: ws) s rest := by
  refine .kind ?_
  unfold variableType? at hk
  split at hk
  · obtain rfl := Option.some.inj hk
    exact h
  · obtain rfl := Option.some.inj hk
    exact h
  · obtain rfl := Option.some.inj hk
    exact h
  · cases hk

theorem forClauses_runs {e₁ e₂ : Expr} {ws₁ ws₂ : List Word} {b : List Stmt} (initial : Stmt)
    (h₁ : e₁.Phrase ws₁) (h₂ : e₂.Phrase ws₂) (hn₁ : ws₁.length ≤ n + 1) (hn₂ : ws₂.length ≤ n + 1)
    (hb : Runs (block (n + 1) (statement n)) ws b rest) :
    Runs (forClauses (n + 1) (expression (n + 1)) (statement n) initial)
      (sym .semicolon :: (ws₁ ++ sym .semicolon :: (ws₂ ++ sym .rightParen :: ws)))
      (.forLoop initial e₁ e₂ b) rest := by
  refine .sym ((h₁.runs hn₁ (Or.inr (Or.inr (Or.inl rfl)))).bind (.sym ?_))
  exact (h₂.runs hn₂ (Or.inr (Or.inl rfl))).bind (.sym (hb.bind .pure))

theorem forIn_runs (name : String) (type : Option TypeName) {b : List Stmt} (h : e.Phrase ws)
    (hn : ws.length ≤ n + 1) (hb : Runs (block (n + 1) (statement n)) ws' b rest) :
    Runs (forIn (n + 1) (expression (n + 1)) (statement n) name type)
      (key .inWord :: (ws ++ sym .rightParen :: ws')) (.forIn name type e b) rest :=
  .word ((h.runs hn (Or.inr (Or.inl rfl))).bind (.sym (hb.bind .pure)))

theorem forLoop_identifier {a : Stmt} (hw : w.kind = .identifier)
    (h : Runs (if (front ws).kind = .keyword .inWord then do
        let name ← identifier
        forIn (n + 1) (expression (n + 1)) (statement n) name none
      else do
        let initial ← initialAssignment (expression (n + 1))
        forClauses (n + 1) (expression (n + 1)) (statement n) initial) (w :: ws) a rest) :
    Runs (forLoop (n + 1) (expression (n + 1)) (statement n))
      (key .forWord :: sym .leftParen :: w :: ws) a rest := by
  obtain ⟨kind, lexeme⟩ := w
  obtain rfl : kind = .identifier := hw
  exact .word (.sym (.kind (.ite_pos rfl (.peek h))))

theorem initialAssignment_runs (h : e.Phrase ws) (ha : e.IsAssignment) (hn : ws.length ≤ n)
    (hr : (front rest).kind = .semicolon) :
    Runs (initialAssignment (expression n)) (ws ++ rest) (.expr e) rest := by
  refine .place fun place => (h.runs hn (Or.inr (Or.inr (Or.inl hr)))).bind ?_
  cases e with
  | assign name value => exact .pure
  | assignMember object member value => exact .pure
  | _ => exact ha.elim

theorem clause_runs {b : List Stmt} (h : StmtNode.Accepts ws (.clause e b))
    (hn : ws.length ≤ n + 1) :
    Runs (clause (n + 1) (expression (n + 1)) (statement n)) (ws ++ rest) (.mk e b [] none) rest := by
  obtain ⟨u, hc, hb⟩ := h n rest hn
  exact hc.bind (hb.bind .pure)

theorem furtherClauses_runs {b : List Stmt} {cs : List Conditional} {orElse : Option (List Stmt)}
    (h : StmtNode.Accepts ws (.clause e b)) (hn : ws.length ≤ n + 1)
    (hf : Runs (furtherClauses (n + 1) (expression (n + 1)) (statement n) m) ws' (cs, orElse) rest) :
    Runs (do
      let c ← clause (n + 1) (expression (n + 1)) (statement n)
      let (elseIfs, orElse) ← furtherClauses (n + 1) (expression (n + 1)) (statement n) m
      return (c :: elseIfs, orElse)) (ws ++ ws') (.mk e b [] none :: cs, orElse) rest :=
  (clause_runs h hn).bind (hf.bind .pure)

theorem conditional_runs {b : List Stmt} {cs : List Conditional} {orElse : Option (List Stmt)}
    (h : StmtNode.Accepts ws (.clause e b)) (hn : ws.length ≤ n + 1)
    (hf : Runs (furtherClauses (n + 1) (expression (n + 1)) (statement n) (n + 1)) ws' (cs, orElse)
      rest) :
    Runs (conditional (n + 1) (expression (n + 1)) (statement n)) (key .ifWord :: (ws ++ ws'))
      (.conditional (.mk e b cs orElse)) rest := by
  obtain ⟨u, hc, hb⟩ := h n ws' hn
  exact .word (hc.bind (hb.bind (hf.bind .pure)))

theorem StmtPhrase.block_front {b : List Stmt} (h : StmtPhrase ws (.block b)) (rest : List Word) :
    (front (ws ++ rest)).kind = .leftBrace := by
  cases h
  rfl

theorem accepts_noStatements : StmtNode.Accepts [] (.statements []) := by
  intro n m rest hn hm hr
  exact .sequence_nil (by rw [List.nil_append, hr]; rfl)

theorem accepts_statements {s : Stmt} {ss : List Stmt} (h : StmtPhrase ws (.statement s))
    (hs : StmtNode.Accepts ws (.statement s)) (h' : StmtPhrase ws' (.statements ss))
    (hss : StmtNode.Accepts ws' (.statements ss)) :
    StmtNode.Accepts (ws ++ ws') (.statements (s :: ss)) := by
  intro n m rest hn hm hr
  rw [List.length_append] at hn hm
  have hstart := (h.starts (ws' ++ rest)).ends.2
  have hpos := h.length_pos
  obtain ⟨m, rfl⟩ : ∃ d, m = d + 1 := ⟨m - 1, by omega⟩
  rw [List.append_assoc]
  -- What stands behind the first statement is another one, or the end of the block.
  have hitem := hs n (ws' ++ rest) (by omega) (h'.statements_front hr)
  refine .sequence_cons ?_ hitem.one (hss n m rest (by omega) (by omega) hr)
  unfold blockItem
  rw [if_neg (by simpa [not_or] using hstart)]

theorem accepts_block {ss : List Stmt} (h : StmtNode.Accepts ws (.statements ss)) :
    StmtNode.Accepts (sym .leftBrace :: ws ++ [sym .rightBrace]) (.block ss) := by
  intro n m rest hn hm
  simp only [List.cons_append, List.length_cons, List.length_append, List.length_nil] at hn hm
  rw [List.cons_append, List.cons_append, List.append_assoc]
  exact .sym ((h n m _ (by omega) (by omega) rfl).bind (.sym .pure))

theorem accepts_clause {b : List Stmt} (he : e.Phrase ws) (hb : StmtNode.Accepts ws' (.block b)) :
    StmtNode.Accepts (sym .leftParen :: ws ++ sym .rightParen :: ws') (.clause e b) := by
  intro n rest hn
  simp only [List.cons_append, List.length_cons, List.length_append] at hn
  rw [List.cons_append, List.cons_append, List.append_assoc]
  exact ⟨ws' ++ rest, condition_runs he (by omega), hb n (n + 1) rest (by omega) (by omega)⟩

section Clauses

variable {b : List Stmt} {cs : List Conditional} {orElse : Option (List Stmt)}

theorem accepts_noFurther : StmtNode.Accepts [] (.further [] none) := by
  intro n m rest hn hm hr
  cases m with
  | zero => exact .pure
  | succ m =>
    refine .kind ?_
    split
    · next h => exact absurd h hr.2.1
    · next h => exact absurd h hr.1
    · exact .pure

theorem accepts_elseIf (h : StmtNode.Accepts ws (.clause e b))
    (rest : StmtNode.Accepts ws' (.further cs orElse)) :
    StmtNode.Accepts (key .elseIfWord :: ws ++ ws') (.further (.mk e b [] none :: cs) orElse) := by
  intro n m rest' hn hm hr
  simp only [List.cons_append, List.length_cons, List.length_append] at hn hm
  obtain ⟨m, rfl⟩ : ∃ d, m = d + 1 := ⟨m - 1, by omega⟩
  rw [List.cons_append, List.cons_append, List.append_assoc]
  have hf := rest n m rest' (by omega) (by omega) hr
  exact .kind (.advance (furtherClauses_runs h (by omega) hf))

theorem accepts_elseThenIf (h : StmtNode.Accepts ws (.clause e b))
    (rest : StmtNode.Accepts ws' (.further cs orElse)) :
    StmtNode.Accepts (key .elseWord :: key .ifWord :: ws ++ ws')
      (.further (.mk e b [] none :: cs) orElse) := by
  intro n m rest' hn hm hr
  simp only [List.cons_append, List.length_cons, List.length_append] at hn hm
  obtain ⟨m, rfl⟩ : ∃ d, m = d + 1 := ⟨m - 1, by omega⟩
  simp only [List.cons_append, List.append_assoc]
  have hf := rest n m rest' (by omega) (by omega) hr
  exact .kind (.advance (.check rfl (.advance (furtherClauses_runs h (by omega) hf))))

theorem accepts_orElse (h : StmtPhrase ws (.block b)) (hb : StmtNode.Accepts ws (.block b)) :
    StmtNode.Accepts (key .elseWord :: ws) (.further [] (some b)) := by
  intro n m rest hn hm hr
  rw [List.length_cons] at hn hm
  obtain ⟨m, rfl⟩ : ∃ d, m = d + 1 := ⟨m - 1, by omega⟩
  have hfront := h.block_front rest
  have hblock := hb n (n + 1) rest (by omega) (by omega)
  exact .kind (.advance (.check_ne (fun hc => by cases hfront.symm.trans hc) (hblock.bind .pure)))

end Clauses

section Initials

theorem accepts_declareInitial {type : VariableType} {name : String} {value : Option Expr}
    (ht : variableType? k = some type) (hn : IsName name) (hv : ValuePhrase ws value) :
    StmtNode.Accepts (sym k :: ofName name :: ws) (.initial (.declare type name value)) := by
  intro n rest a rest' hlen hr hrun
  rw [List.length_cons, List.length_cons] at hlen
  refine .word (.sym (.kind ?_))
  have hk : variableType? (front (sym k :: ofName name :: ws ++ rest)).kind = some type := ht
  rw [hk]
  refine .advance (.identifier hn (.check_ne ?_ ?_))
  · cases hv with
    | none => exact fun hc => by cases hr.symm.trans hc
    | some h => nofun
  · exact (declaredValue_runs hv (by omega) hr).bind hrun

/-- The sign or the point behind the name tells the assignment from a loop over items. -/
theorem accepts_assignInitial (hw : w.kind = .identifier) (he : e.Phrase (w :: ws))
    (ha : e.IsAssignment) : StmtNode.Accepts (w :: ws) (.initial (.expr e)) := by
  intro n rest a rest' hlen hr hrun
  obtain ⟨name, w', u, value, hwords, hw', -⟩ := he.initial ha
  obtain ⟨rfl, rfl⟩ := List.cons.inj hwords
  refine forLoop_identifier hw (.ite_neg (fun hc => ?_) ?_)
  · obtain ho | rfl := hw'
    · change w'.kind = _ at hc
      rw [hc] at ho
      cases ho
    · cases hc
  · exact (initialAssignment_runs he ha hlen hr).bind hrun

end Initials

section Cases

variable {cs : List Case}

theorem accepts_noCases : StmtNode.Accepts [] (.cases []) := by
  intro n m rest hn hm hr
  exact .sequence_nil (by rw [List.nil_append, hr]; rfl)

theorem accepts_caseComment (hw : w.kind = .comment) (rest : StmtNode.Accepts ws (.cases cs)) :
    StmtNode.Accepts (w :: ws) (.cases cs) := by
  intro n m rest' hn hm hr
  rw [List.length_cons] at hn hm
  obtain ⟨m, rfl⟩ : ∃ d, m = d + 1 := ⟨m - 1, by omega⟩
  obtain ⟨kind, lexeme⟩ := w
  obtain rfl : kind = .comment := hw
  exact .sequence_cons rfl skip_runs (rest n m rest' (by omega) (by omega) hr)

theorem accepts_case {ws'' : List Word} {b : List Stmt} (he : e.Phrase ws)
    (h : StmtPhrase ws' (.block b)) (hb : StmtNode.Accepts ws' (.block b))
    (rest : StmtNode.Accepts ws'' (.cases cs)) :
    StmtNode.Accepts (key .caseWord :: ws ++ ws' ++ ws'') (.cases (.mk e b :: cs)) := by
  intro n m rest' hn hm hr
  simp only [List.cons_append, List.length_cons, List.length_append] at hn hm
  obtain ⟨m, rfl⟩ : ∃ d, m = d + 1 := ⟨m - 1, by omega⟩
  simp only [List.cons_append, List.append_assoc]
  have hblock := hb n (n + 1) (ws'' ++ rest') (by omega) (by omega)
  have hvalue := he.runs (n := n + 1) (by omega) (Or.inr (Or.inr (Or.inr
    (h.block_front (ws'' ++ rest')))))
  have hc : Runs (Grammar.case (n + 1) (expression (n + 1)) (statement n))
      (key .caseWord :: (ws ++ (ws' ++ (ws'' ++ rest')))) (.mk e b) (ws'' ++ rest') :=
    .advance (hvalue.bind (hblock.bind .pure))
  exact .sequence_cons rfl hc.one (rest n m rest' (by omega) (by omega) hr)

end Cases

/-- A statement has a word, so the round that it takes itself is among as many as it has words. -/
theorem accepts_of_step {s : Stmt} (hpos : 0 < ws.length)
    (h : ∀ n rest, ws.length ≤ n + 1 → EndsStatement (front rest).kind →
      Runs (statementStep (n + 1) (expression (n + 1)) (statement n)) (ws ++ rest) s rest) :
    StmtNode.Accepts ws (.statement s) := by
  intro n rest hn hr
  obtain ⟨n, rfl⟩ : ∃ d, n = d + 1 := ⟨n - 1, by omega⟩
  exact h n rest hn hr

theorem accepts_comment (hw : w.kind = .comment) :
    StmtNode.Accepts [w] (.statement (.comment (Text.trim w.lexeme))) := by
  refine accepts_of_step (by simp) fun n rest hn hr => ?_
  obtain ⟨kind, lexeme⟩ := w
  obtain rfl : kind = .comment := hw
  exact .kind (.advance .pure)

theorem accepts_declare {type : VariableType} {name : String} {value : Option Expr}
    (ht : variableType? k = some type) (hn : IsName name) (hv : ValuePhrase ws value) :
    StmtNode.Accepts (sym k :: ofName name :: ws ++ [sym .semicolon])
      (.statement (.declare type name value)) := by
  refine accepts_of_step (by simp) fun n rest hlen hr => ?_
  simp only [List.cons_append, List.length_cons, List.length_append, List.length_nil] at hlen
  simp only [List.cons_append, List.append_assoc, List.nil_append]
  refine statementStep_declare ht (.advance (.identifier hn ?_))
  exact (declaredValue_runs hv (by omega) rfl).bind (.sym .pure)

theorem accepts_expr (he : e.Phrase ws) :
    StmtNode.Accepts (ws ++ [sym .semicolon]) (.statement (.expr e)) := by
  refine accepts_of_step (by simp) fun n rest hn hr => ?_
  rw [List.length_append, List.length_singleton] at hn
  rw [List.append_assoc, List.singleton_append]
  have hstart := (ExprPhrase.starts he (sym .semicolon :: rest)).resolve_right (by simp)
  refine statementStep_expression hstart ?_
  exact (he.runs (by omega) (Or.inr (Or.inr (Or.inl rfl)))).bind (.sym .pure)

theorem accepts_ret :
    StmtNode.Accepts [key .returnWord, sym .semicolon] (.statement (.ret none)) :=
  accepts_of_step (by simp) fun _ _ _ _ => .kind (.word (.check rfl (.bind .pure (.sym .pure))))

theorem accepts_retValue (he : e.Phrase ws) :
    StmtNode.Accepts (key .returnWord :: ws ++ [sym .semicolon]) (.statement (.ret (some e))) := by
  refine accepts_of_step (by simp) fun n rest hn hr => ?_
  simp only [List.cons_append, List.length_cons, List.length_append, List.length_nil] at hn
  simp only [List.cons_append, List.append_assoc, List.nil_append]
  have hstart := (ExprPhrase.starts he (sym .semicolon :: rest)).resolve_right (by simp)
  refine .kind (.word (.check_ne hstart.ne_semicolon ?_))
  exact (he.runs (by omega) (Or.inr (Or.inr (Or.inl rfl)))).map.bind (.sym .pure)

theorem accepts_conditional {b : List Stmt} {cs : List Conditional} {orElse : Option (List Stmt)}
    (h : StmtNode.Accepts ws (.clause e b)) (rest : StmtNode.Accepts ws' (.further cs orElse)) :
    StmtNode.Accepts (key .ifWord :: ws ++ ws')
      (.statement (.conditional (.mk e b cs orElse))) := by
  refine accepts_of_step (by simp) fun n rest' hn hr => ?_
  simp only [List.cons_append, List.length_cons, List.length_append] at hn
  simp only [List.cons_append, List.append_assoc]
  have hf := rest n (n + 1) rest' (by omega) (by omega) hr
  exact .kind (conditional_runs h (by omega) hf)

section Loops

variable {b : List Stmt}

theorem accepts_forLoop {ws₁ ws₂ ws₃ : List Word} {initial : Stmt} {e₁ e₂ : Expr}
    (hi : StmtNode.Accepts ws (.initial initial)) (h₁ : e₁.Phrase ws₁) (h₂ : e₂.Phrase ws₂)
    (hb : StmtNode.Accepts ws₃ (.block b)) :
    StmtNode.Accepts (key .forWord :: sym .leftParen :: ws ++ sym .semicolon :: ws₁ ++
        sym .semicolon :: ws₂ ++ sym .rightParen :: ws₃)
      (.statement (.forLoop initial e₁ e₂ b)) := by
  refine accepts_of_step (by simp) fun n rest hn hr => ?_
  simp only [List.cons_append, List.length_cons, List.length_append] at hn
  simp only [List.cons_append, List.append_assoc]
  have hblock := hb n (n + 1) rest (by omega) (by omega)
  have hclauses := forClauses_runs initial h₁ h₂ (by omega) (by omega) hblock
  exact .kind (hi n _ _ rest (by omega) rfl hclauses)

theorem accepts_forIn {name : String} (hn : IsName name) (he : e.Phrase ws)
    (hb : StmtNode.Accepts ws' (.block b)) :
    StmtNode.Accepts (key .forWord :: sym .leftParen :: ofName name :: key .inWord :: ws ++
        sym .rightParen :: ws')
      (.statement (.forIn name none e b)) := by
  refine accepts_of_step (by simp) fun n rest hlen hr => ?_
  simp only [List.cons_append, List.length_cons, List.length_append] at hlen
  simp only [List.cons_append, List.append_assoc]
  have hblock := hb n (n + 1) rest (by omega) (by omega)
  have hk : (ofName name).kind = .identifier := by rw [ofName_of_isName hn]
  have hin := forIn_runs name none he (by omega) hblock
  exact .kind (forLoop_identifier hk (.ite_pos rfl (.identifier hn hin)))

theorem accepts_typedForIn {type : VariableType} {name : String} (ht : variableType? k = some type)
    (hn : IsName name) (he : e.Phrase ws) (hb : StmtNode.Accepts ws' (.block b)) :
    StmtNode.Accepts (key .forWord :: sym .leftParen :: sym k :: ofName name :: key .inWord :: ws ++
        sym .rightParen :: ws')
      (.statement (.forIn name (boundType type) e b)) := by
  refine accepts_of_step (by simp) fun n rest hlen hr => ?_
  simp only [List.cons_append, List.length_cons, List.length_append] at hlen
  simp only [List.cons_append, List.append_assoc]
  have hblock := hb n (n + 1) rest (by omega) (by omega)
  refine .kind (.word (.sym (.kind ?_)))
  have hk (ws : List Word) : variableType? (front (sym k :: ws)).kind = some type := ht
  rw [hk]
  refine .advance (.identifier hn (.check rfl ?_))
  exact forIn_runs name _ he (by omega) hblock

theorem accepts_whileLoop (h : StmtNode.Accepts ws (.clause e b)) :
    StmtNode.Accepts (key .whileWord :: ws) (.statement (.whileLoop e b)) := by
  refine accepts_of_step (by simp) fun n rest hn hr => ?_
  rw [List.length_cons] at hn
  obtain ⟨u, hc, hb⟩ := h n rest (by omega)
  exact .kind (.word (hc.bind (hb.bind .pure)))

theorem accepts_doWhile {tail : List Word} (hb : StmtNode.Accepts ws (.block b))
    (he : e.Phrase ws') (ht : tail = [] ∨ tail = [sym .semicolon]) :
    StmtNode.Accepts (key .doWord :: ws ++ key .whileWord :: sym .leftParen :: ws' ++
        sym .rightParen :: tail)
      (.statement (.doWhile b e)) := by
  refine accepts_of_step (by simp) fun n rest hn hr => ?_
  simp only [List.cons_append, List.length_cons, List.length_append] at hn
  simp only [List.cons_append, List.append_assoc]
  refine .kind (.word ((hb n (n + 1) _ (by omega) (by omega)).bind (.word ?_)))
  refine (condition_runs he (by omega)).bind ?_
  obtain rfl | rfl := ht
  · exact .check_ne hr.2.2 .pure
  · exact .check rfl (.advance .pure)

end Loops

theorem accepts_switch {cs : List Case} (he : e.Phrase ws) (hc : StmtNode.Accepts ws' (.cases cs)) :
    StmtNode.Accepts (key .switchWord :: sym .leftParen :: ws ++ sym .rightParen ::
        sym .leftBrace :: ws' ++ [sym .rightBrace])
      (.statement (.switch e cs)) := by
  refine accepts_of_step (by simp) fun n rest hn hr => ?_
  simp only [List.cons_append, List.length_cons, List.length_append, List.length_nil] at hn
  simp only [List.cons_append, List.append_assoc, List.nil_append]
  refine .kind (.word ((condition_runs he (by omega)).bind (.sym ?_)))
  exact (hc n (n + 1) _ (by omega) (by omega) rfl).bind (.sym .pure)

theorem accepts_attempt {errorType binding : String} {b handler : List Stmt}
    (hb : StmtNode.Accepts ws (.block b)) (ht : IsName errorType) (hn : IsName binding)
    (hh : StmtNode.Accepts ws' (.block handler)) :
    StmtNode.Accepts (key .tryWord :: ws ++ key .happenWord :: sym .leftParen ::
        ofName errorType :: sym .rightParen :: key .asWord :: ofName binding :: ws')
      (.statement (.attempt b errorType binding handler)) := by
  refine accepts_of_step (by simp) fun n rest hlen hr => ?_
  simp only [List.cons_append, List.length_cons, List.length_append] at hlen
  simp only [List.cons_append, List.append_assoc]
  refine .kind (.word ((hb n (n + 1) _ (by omega) (by omega)).bind (.word (.sym ?_))))
  refine .identifier ht (.sym (.word (.identifier hn ?_)))
  exact (hh n (n + 1) rest (by omega) (by omega)).bind .pure

theorem StmtPhrase.accepts {node : StmtNode} (h : StmtPhrase ws node) : node.Accepts ws := by
  induction h with
  | nil => exact accepts_noStatements
  | cons h rest ih ih' => exact accepts_statements h ih rest ih'
  | block h ih => exact accepts_block ih
  | clause he hb ih => exact accepts_clause he ih
  | noFurther => exact accepts_noFurther
  | elseIf h rest ih ih' => exact accepts_elseIf ih ih'
  | elseThenIf h rest ih ih' => exact accepts_elseThenIf ih ih'
  | orElse h ih => exact accepts_orElse h ih
  | declareInitial ht hn hv => exact accepts_declareInitial ht hn hv
  | assignInitial hw he ha => exact accepts_assignInitial hw he ha
  | noCases => exact accepts_noCases
  | caseComment hs hw rest ih => exact accepts_caseComment hw ih
  | case he hb rest ih ih' => exact accepts_case he hb ih ih'
  | comment hs hw => exact accepts_comment hw
  | declare ht hn hv => exact accepts_declare ht hn hv
  | expr he => exact accepts_expr he
  | ret => exact accepts_ret
  | retValue he => exact accepts_retValue he
  | conditional h rest ih ih' => exact accepts_conditional ih ih'
  | forLoop hi he hs hb ih ih' => exact accepts_forLoop ih he hs ih'
  | forIn hn he hb ih => exact accepts_forIn hn he ih
  | typedForIn ht hn he hb ih => exact accepts_typedForIn ht hn he ih
  | whileLoop h ih => exact accepts_whileLoop ih
  | doWhile hb he ht ih => exact accepts_doWhile ih he ht
  | switch he hc ih => exact accepts_switch he ih
  | attempt hb ht hn hh ih ih' => exact accepts_attempt ih ht hn ih'

end Statements

section Declarations

variable {α : Type} {ws ws' rest : List Word} {n m : Nat}

theorem Separated.runs {P : List Word → α → Prop} {item : Parser (List Word) α} {as : List α}
    (hitem : ∀ ws a rest, P ws a → Runs item (ws ++ rest) a rest)
    (h : Separated P ws as) (hm : ws.length ≤ m)
    (hr : (front rest).kind = .rightParen) : Runs (commaSeparated item m) (ws ++ rest) as rest := by
  induction h generalizing m with
  | last h =>
    have hi := hitem _ _ rest h
    cases m with
    | zero => exact hi.bind .pure
    | succ m => exact hi.bind (.check_ne (by rw [hr]; decide) .pure)
  | @cons ws ws' a as h _ ih =>
    rw [List.length_append, List.length_cons] at hm
    obtain ⟨m, rfl⟩ : ∃ d, m = d + 1 := ⟨m - 1, by omega⟩
    rw [List.append_assoc, List.cons_append]
    refine (hitem _ _ _ h).bind (.check rfl (.advance ?_))
    exact (ih (by omega)).bind .pure

theorem ParameterPhrase.runs {p : Parameter} (h : ParameterPhrase ws p) :
    Runs parameter (ws ++ rest) p rest := by
  -- The receiver may stand in for a name, whatever type is in front of it.
  have hname {name : String} (type : Option TypeName) (hn : IsUsable name) : Runs (do
      if ← check (.keyword .instanceWord) then
        let _ ← advance
        return ⟨instanceName, type⟩
      else return ⟨← identifier, type⟩ : Parser (List Word) Parameter)
      (ofName name :: rest) ⟨name, type⟩ rest := by
    obtain hn | rfl := hn
    · refine .check_ne ?_ (.identifier hn .pure)
      rw [ofName_of_isName hn]
      nofun
    · exact .check rfl (.advance .pure)
  cases h with
  | @untyped name hn =>
    have htype : Runs parameterType (ofName name :: rest) none (ofName name :: rest) := by
      obtain hn | rfl := hn
      · rw [ofName_of_isName hn]
        rfl
      · rfl
    exact htype.bind (hname none hn)
  | @auto name hn =>
    have htype : Runs parameterType (key .autoWord :: ofName name :: rest) none
      (ofName name :: rest) := .kind (.advance .pure)
    exact htype.bind (hname none hn)
  | @typed name type hn =>
    have htype : Runs parameterType (key (.type type) :: ofName name :: rest) (some type)
      (ofName name :: rest) := .kind (.advance .pure)
    exact htype.bind (hname (some type) hn)

theorem ParameterPhrase.front {p : Parameter} (h : ParameterPhrase ws p) :
    (Word.front (ws ++ rest)).kind ≠ .rightParen := by
  cases h with
  | @untyped name hn =>
    obtain hn | rfl := hn
    · simp [Word.front, ofName_of_isName hn]
    · nofun
  | _ => nofun

theorem parameters_runs {ps : List Parameter} (h : Enclosed ParameterPhrase ws ps)
    (hn : ws.length ≤ n + 1) : Runs (parameters n) (ws ++ rest) ps rest := by
  cases h with
  | empty => exact .sym (.check rfl (.bind .pure (.sym .pure)))
  | @items ws _ h =>
    simp only [List.cons_append, List.length_cons, List.length_append, List.length_nil] at hn
    simp only [List.cons_append, List.append_assoc, List.nil_append]
    refine parenthesized_items ?_ (h.runs (fun _ _ _ => ParameterPhrase.runs) (by omega) rfl)
    cases h with
    | last h => exact h.front
    | cons h =>
      rw [List.append_assoc]
      exact h.front

theorem body_runs {b : List Stmt} (h : StmtPhrase ws (.block b)) (hn : ws.length ≤ n) :
    Runs (body n) (ws ++ rest) b rest := h.accepts n n rest (by omega) (by omega)

theorem SignaturePhrase.runs {ps : List Parameter} {b : List Stmt}
    {f : List Parameter → List Stmt → α} (h : SignaturePhrase ws ps b) (hn : ws.length ≤ n)
    (rest : List Word) : Runs (do
      let ps ← parameters n
      return f ps (← body n)) (ws ++ rest) (f ps b) rest := by
  cases h with
  | mk hp hb =>
    rw [List.length_append] at hn
    rw [List.append_assoc]
    exact (parameters_runs hp (by omega)).bind ((body_runs hb (by omega)).bind .pure)

theorem MemberPhrase.runs {mem : Member} (h : MemberPhrase ws mem) (hn : ws.length ≤ n)
    (rest : List Word) :
    ∃ item, memberItem n (front (ws ++ rest)).kind = some item ∧
      Runs item (ws ++ rest) [mem] rest := by
  cases h with
  | initializer h =>
    simp only [List.length_cons] at hn
    have hm : Runs (method n initializerName) _ _ rest := h.runs (by omega) rest
    exact ⟨_, rfl, .one (.advance (.sym (.check rfl (.advance (hm.bind .pure)))))⟩
  | @instanceMethod name ws ps b hname h =>
    simp only [List.length_cons] at hn
    have hm : Runs (method n name) _ _ rest := h.runs (by omega) rest
    have hk : (ofName name).kind ≠ .keyword .initWord := by
      rw [ofName_of_isName hname]
      nofun
    exact ⟨_, rfl, .one (.advance (.sym (.check_ne hk (.identifier hname (hm.bind .pure)))))⟩
  | @classMethod name ws ps b hname h =>
    simp only [List.length_cons] at hn
    have hm : Runs (method n name) _ _ rest := h.runs (by omega) rest
    exact ⟨_, rfl, .one (.advance (.sym (.identifier hname (hm.bind .pure))))⟩

theorem members_runs {ms : List Member} (h : Commented MemberPhrase ws ms) (hn : ws.length ≤ n)
    (hm : ws.length ≤ m) (hr : (front rest).kind = .rightBrace) :
    Runs (sequence (memberItem n) m) (ws ++ rest) ms rest := by
  induction h generalizing m with
  | nil => exact .sequence_nil (by rw [List.nil_append, hr]; rfl)
  | @comment w ws ms hs hw _ ih =>
    rw [List.length_cons] at hn hm
    obtain ⟨m, rfl⟩ : ∃ d, m = d + 1 := ⟨m - 1, by omega⟩
    obtain ⟨kind, lexeme⟩ := w
    obtain rfl : kind = .comment := hw
    exact .sequence_cons rfl skip_runs (ih (by omega) (by omega))
  | @cons ws ws' mem ms h _ ih =>
    have hpos : 0 < ws.length := by cases h <;> simp
    rw [List.length_append] at hn hm
    obtain ⟨m, rfl⟩ : ∃ d, m = d + 1 := ⟨m - 1, by omega⟩
    obtain ⟨item, hitem, hrun⟩ := h.runs (n := n) (by omega) (ws' ++ rest)
    rw [List.append_assoc]
    exact .sequence_cons hitem hrun (ih (by omega) (by omega))

theorem ClassPhrase.runs {c : ClassDecl} (h : ClassPhrase ws c) (hn : ws.length ≤ n) :
    Runs (classDecl n) (ws ++ rest) c rest := by
  cases h with
  | @mk name ws ws' base members hname hb hm =>
    simp only [List.cons_append, List.length_cons, List.length_append] at hn
    simp only [List.cons_append, List.append_assoc, List.nil_append]
    have hmembers : Runs (sequence (memberItem n) n) (ws' ++ sym .rightBrace :: rest) members
      (sym .rightBrace :: rest) := members_runs hm (by omega) (by omega) rfl
    refine .word (.identifier hname (.sym ?_))
    cases hb with
    | none => exact .check_ne (by nofun) (.bind .pure (.sym (.sym (hmembers.bind (.sym .pure)))))
    | @some base hbase =>
      have hk : (ofName base).kind = .identifier := by rw [ofName_of_isName hbase]
      exact .check hk ((identifier_runs hbase).map.bind (.sym (.sym (hmembers.bind (.sym .pure)))))

theorem PartsPhrase.runs {name : String} (h : PartsPhrase ws name) (hn : ws.length ≤ n)
    (hr : (front rest).kind = .semicolon) : Runs (moduleParts n) (ws ++ rest) name rest := by
  induction h generalizing n with
  | nil =>
    cases n with
    | zero => exact .pure
    | succ n => exact .check_ne (by rw [List.nil_append, hr]; decide) .pure
  | cons hname h ih =>
    simp only [List.length_cons] at hn
    obtain ⟨n, rfl⟩ : ∃ d, n = d + 1 := ⟨n - 1, by omega⟩
    exact .check rfl (.advance (.identifier hname ((ih (by omega)).bind .pure)))

def DeclNode.Accepts (ws : List Word) : DeclNode → Prop
  | .declaration d => ∀ n rest, ws.length ≤ n → Runs (Grammar.declaration n) (ws ++ rest) d rest
  | .declarations ds => ∀ n m rest stop, ws.length ≤ n → ws.length ≤ m →
    stop (front rest).kind = true → (∀ k, stop k = true → k = .rightBrace ∨ k = .endOfFile) →
    Runs (Grammar.declarations m (Grammar.declaration n) stop) (ws ++ rest) ds rest

theorem DeclPhrase.starts {d : Declaration} (h : DeclPhrase ws (.declaration d)) (rest : List Word) :
    (front (ws ++ rest)).kind ∉ [.comment, .rightBrace, .endOfFile] := by
  cases h with
  | classDecl h =>
    cases h
    simp [front, key, sym]
  | _ => simp [front, key, sym]

theorem accepts_noDeclarations : DeclNode.Accepts [] (.declarations []) := by
  intro n m rest stop hn hm hr hstop
  refine .sequence_nil ?_
  unfold declarationItem
  rw [List.nil_append, if_pos hr]

theorem accepts_skipped {w : Word} {ds : List Declaration} (hw : w.kind = .comment)
    (h : DeclNode.Accepts ws (.declarations ds)) :
    DeclNode.Accepts (w :: ws) (.declarations ds) := by
  intro n m rest stop hn hm hr hstop
  rw [List.length_cons] at hn hm
  obtain ⟨m, rfl⟩ : ∃ d, m = d + 1 := ⟨m - 1, by omega⟩
  refine .sequence_cons ?_ skip_runs (h n m rest stop (by omega) (by omega) hr hstop)
  obtain ⟨kind, lexeme⟩ := w
  obtain rfl : kind = .comment := hw
  have hno : stop .comment ≠ true := fun hc => by
    obtain hc | hc := hstop _ hc <;> cases hc
  change (if stop .comment then none else some skip) = _
  rw [if_neg hno]

theorem accepts_declarations {d : Declaration} {ds : List Declaration}
    (h : DeclPhrase ws (.declaration d)) (hd : DeclNode.Accepts ws (.declaration d))
    (hds : DeclNode.Accepts ws' (.declarations ds)) :
    DeclNode.Accepts (ws ++ ws') (.declarations (d :: ds)) := by
  intro n m rest stop hn hm hr hstop
  have hstart := h.starts (ws' ++ rest)
  have hpos := List.length_pos_iff.2 h.ne_nil
  rw [List.length_append] at hn hm
  obtain ⟨m, rfl⟩ : ∃ d, m = d + 1 := ⟨m - 1, by omega⟩
  rw [List.append_assoc]
  have hitem := hd n (ws' ++ rest) (by omega)
  refine .sequence_cons ?_ hitem.one (hds n m rest stop (by omega) (by omega) hr hstop)
  simp only [List.mem_cons, List.not_mem_nil, or_false, not_or] at hstart
  unfold declarationItem
  rw [if_neg fun hc => (hstop _ hc).elim hstart.2.1 hstart.2.2, if_neg hstart.1]

theorem accepts_function {name : String} {ps : List Parameter} {b : List Stmt} (hn : IsName name)
    (h : SignaturePhrase ws ps b) :
    DeclNode.Accepts (key .funcWord :: ofName name :: ws)
      (.declaration (.function ⟨none, name, ps, b⟩)) := by
  intro n rest hlen
  simp only [List.length_cons] at hlen
  obtain ⟨n, rfl⟩ : ∃ d, n = d + 1 := ⟨n - 1, by omega⟩
  have hs := h.runs (f := fun ps b => Function.mk none name ps b) (n := n + 1) (by omega) rest
  have hf : Runs (Grammar.function (n + 1)) (key .funcWord :: ofName name :: (ws ++ rest))
    ⟨none, name, ps, b⟩ rest := .word (.identifier hn hs)
  exact .kind hf.map

theorem accepts_namespace {name : String} {ds : List Declaration} (hn : IsName name)
    (h : DeclNode.Accepts ws (.declarations ds)) :
    DeclNode.Accepts (key .namespaceWord :: ofName name :: sym .leftBrace :: ws ++
        [sym .rightBrace])
      (.declaration (.namespaceDecl name ds)) := by
  intro n rest hlen
  simp only [List.cons_append, List.length_cons, List.length_append, List.length_nil] at hlen
  obtain ⟨n, rfl⟩ : ∃ d, n = d + 1 := ⟨n - 1, by omega⟩
  simp only [List.cons_append, List.append_assoc, List.nil_append]
  refine .kind (.word (.identifier hn (.sym ?_)))
  refine (h n (n + 1) _ _ (by omega) (by omega) rfl ?_).bind (.sym .pure)
  intro k hk
  simpa using hk

theorem accepts_class {c : ClassDecl} (h : ClassPhrase ws c) :
    DeclNode.Accepts ws (.declaration (.classDecl c)) := by
  intro n rest hlen
  have hpos : 0 < ws.length := by cases h; simp
  obtain ⟨n, rfl⟩ : ∃ d, n = d + 1 := ⟨n - 1, by omega⟩
  have hc : Runs (Grammar.classDecl (n + 1)) (ws ++ rest) c rest := h.runs hlen
  cases h
  exact .kind hc.map

theorem accepts_import {first rest : String} (hn : IsName first) (h : PartsPhrase ws rest) :
    DeclNode.Accepts (key .importWord :: ofName first :: ws ++ [sym .semicolon])
      (.declaration (.importDecl (first ++ rest))) := by
  intro n rest' hlen
  simp only [List.cons_append, List.length_cons, List.length_append, List.length_nil] at hlen
  obtain ⟨n, rfl⟩ : ∃ d, n = d + 1 := ⟨n - 1, by omega⟩
  simp only [List.cons_append, List.append_assoc, List.nil_append]
  have hp : Runs (moduleParts (n + 1)) (ws ++ sym .semicolon :: rest') rest
    (sym .semicolon :: rest') := h.runs (by omega) rfl
  have hi : Runs (Grammar.importDecl (n + 1))
    (key .importWord :: ofName first :: (ws ++ sym .semicolon :: rest')) (first ++ rest) rest' :=
    .word (.identifier hn (hp.bind (.sym .pure)))
  exact .kind hi.map

theorem DeclPhrase.accepts {node : DeclNode} (h : DeclPhrase ws node) : node.Accepts ws := by
  induction h with
  | nil => exact accepts_noDeclarations
  | comment hs hw rest ih => exact accepts_skipped hw ih
  | cons h rest ih ih' => exact accepts_declarations h ih ih'
  | function hn h => exact accepts_function hn h
  | namespaceDecl hn h ih => exact accepts_namespace hn ih
  | classDecl h => exact accepts_class h
  | importDecl hn h => exact accepts_import hn h

/-- With as many rounds as it has words, the parser reads a whole phrase as its program. -/
theorem Program.Phrase.runs {p : Program} (h : p.Phrase ws) (hn : ws.length ≤ n) :
    Runs (program n) ws p [] := by
  have hds := (DeclPhrase.accepts h) n n [] (· == .endOfFile) hn hn rfl fun k hk =>
    Or.inr (by simpa using hk)
  rw [List.append_nil] at hds
  exact hds.map

end Declarations

end VnScript
