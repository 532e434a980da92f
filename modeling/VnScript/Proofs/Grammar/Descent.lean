import VnScript.Proofs.Grammar.Consumption
import VnScript.Tree.Equality

namespace VnScript

open Grammar

namespace Cursor

variable {source : String} {c c' : Cursor}

theorem left_eq_nil_iff : c.left = [] ↔ c.current.kind = .endOfFile := by
  simp [left]

theorem Reached.left_eq_cons (h : c.Reached source) (hk : c.current.kind ≠ .endOfFile)
    (hn : c.next = .ok c') : c.left = c.current :: c'.left := by
  obtain ⟨t, hf, ht⟩ := h.tape
  obtain ⟨t', hn', hf'⟩ := hf.next_eq_ok hn
  rw [hf.left_eq, hf'.left_eq, hf.current]
  exact ht.left_eq_cons (hf.current ▸ hk) hn'

theorem length_left (hc : ofString source = .ok c) :
    c.left.length = (Scan.ofString source).tokens.length := by
  have hr := ofString_related source
  rw [hc] at hr
  obtain ⟨t, ht, hf⟩ := hr.of_ok
  have hwords := (Tape.lexed_ofScan (Scan.lexed_ofString source) ht).2.2
  rw [hf.left_eq, ← List.length_map Token.word, ← Tape.words_eq, hwords, Scan.words,
    List.length_map]

/-- The tokens of a text, as its parser finds them. -/
def supply (source : String) (refusal : LexError) : Supply Cursor where
  Valid := Reached source
  left := left
  refusal := refusal
  left_eq_nil_iff _ := left_eq_nil_iff
  next_left h hk hn := ⟨h.next hn, h.left_eq_cons hk hn⟩
  peek_left h hp := ⟨h.peek hp, h.peek_left hp⟩

end Cursor

section Productions

variable {α : Type}

/-- A production, with a bound for its loops and its depth. -/
abbrev Production (α : Type) := (σ : Type) → [TokenStream σ] → Nat → Parser σ α

/-- What a production comes to in any state of the parser of a text, as long as its bound is not
less than the number of tokens left. -/
structure Production.Consumes (p : Production α) : Prop where
  /-- It passes some token whenever it succeeds. -/
  passes {source : String} {c c' : Cursor} {n : Nat} {a : α} (h : c.Reached source)
    (hn : c.left.length ≤ n) (hp : p Cursor n c = .ok (a, c')) :
    c'.Reached source ∧ ∃ passed, passed ≠ [] ∧ c.left = passed ++ c'.left
  /-- It does not move past the end of the text, and makes no more moves than there are tokens,
  also where it fails: it comes to the same on a stream that refuses any other move. -/
  rationed {source : String} {c : Cursor} {n : Nat} (h : c.Reached source) (hn : c.left.length ≤ n)
    (refusal : LexError) :
    p (Rationed Cursor) n ⟨c, c.left.length, refusal⟩ =
      (p Cursor n c).map fun x => (x.1, ⟨x.2, x.2.left.length, refusal⟩)
  /-- The bound decides nothing. -/
  bounded {source : String} {c : Cursor} {n m : Nat} (h : c.Reached source)
    (hn : c.left.length ≤ n) (hm : c.left.length ≤ m) : p Cursor n c = p Cursor m c

/-- Both streams lead to the same with any bounds that are not less than what is left. -/
def Production.Lasts (p : Production α) (strict : Bool) : Prop :=
  ∀ {S : Supply Cursor} {t : TokenKind} {k n m : Nat}, k ≤ min n m →
    S.Lasts t k strict (p Cursor n) (p (Rationed Cursor) m)

namespace Production.Lasts

variable {p : Production α} {strict : Bool} {source : String} {c : Cursor} {n m : Nat}

theorem eq_map (h : p.Lasts strict) (hc : c.Reached source) (hn : c.left.length ≤ n)
    (hm : c.left.length ≤ m) (refusal : LexError) :
    p (Rationed Cursor) m ⟨c, c.left.length, refusal⟩ =
      (p Cursor n c).map fun x => (x.1, ⟨x.2, x.2.left.length, refusal⟩) :=
  Supply.Lasts.eq_map (S := Cursor.supply source refusal) (h (le_min hn hm)) hc rfl (Nat.le_refl _)

theorem consumes (h : p.Lasts true) : p.Consumes where
  passes {source c c' n a} hc hn hp := by
    let S := Cursor.supply source (.unterminatedString c.current.start.toPlace)
    have hr : Except.Related Eq (S.Spent true c) (p Cursor n c) (p (Rationed Cursor) n (S.ration c)) :=
      h (le_min hn hn) c hc rfl (Nat.le_refl _)
    rw [hp] at hr
    obtain ⟨y, -, hspent⟩ := hr.of_ok
    obtain ⟨passed, hpassed⟩ := hspent.suffix
    refine ⟨hspent.valid, passed, ?_, hpassed.symm⟩
    rintro rfl
    have hfewer := hspent.fewer
    rw [← hpassed] at hfewer
    exact Nat.not_succ_le_self _ hfewer
  rationed hc hn refusal := h.eq_map hc hn hn refusal
  bounded {source c n m} hc hn hm :=
    Supply.Lasts.unique (S := Cursor.supply source (.unterminatedString c.current.start.toPlace))
      (h (le_min hn hm)) (h (le_min hm hm)) hc rfl (Nat.le_refl _)

end Production.Lasts

/-- A parser that is refused unless fewer tokens are left than here. -/
def Cursor.fewer (c : Cursor) (refusal : LexError) (p : Parser Cursor α) : Parser Cursor α :=
  fun c' => if c'.left.length < c.left.length then p c' else .error (.lexical refusal)

/-- A parser that comes back to itself only where fewer tokens are left: it is its own next round,
in which a call to come back in any other state is refused. -/
def Descends (p : Nat → Parser Cursor α)
    (round : Nat → (Parser Cursor α → Parser Cursor α) → Parser Cursor α) : Prop :=
  ∀ (source : String) (c : Cursor) (n : Nat) (refusal : LexError), c.Reached source →
    c.left.length ≤ n → p n c = round n (c.fewer refusal) c

namespace Descends

theorem of_lasts {p : Nat → Parser Cursor α}
    {round : Nat → (Parser Cursor α → Parser Cursor α) → Parser Cursor α} (strict : Bool)
    (q : Nat → Parser (Rationed Cursor) α)
    (hp : ∀ {S : Supply Cursor} {t k n}, k ≤ n → S.Lasts t k strict (p n) (q n))
    (hround : ∀ {S : Supply Cursor} {t k n}, k ≤ n →
      S.Lasts t k strict (round n (S.fewer k)) (q n)) : Descends p round := by
  intro source c n refusal hc hn
  have h := hp (S := Cursor.supply source refusal) (t := c.current.kind) hn
  exact h.unique (hround hn) hc rfl (Nat.le_refl _)

theorem sequence {step : Nat → TokenKind → Option (Parser Cursor (List α))}
    {step' : Nat → TokenKind → Option (Parser (Rationed Cursor) (List α))}
    (hstep : ∀ {S : Supply Cursor} {k n}, k ≤ n →
      ∀ u, Option.Rel (S.Lasts u k true) (step n u) (step' n u))
    (hend : ∀ n, step n .endOfFile = none) :
    Descends (fun n => sequence (step n) n)
      fun n call => sequenceRound (step n) (call (sequence (step n) n)) := by
  refine of_lasts false (fun n => sequenceRound (step' n) (Grammar.sequence (step' n) n)) ?_ ?_
  · exact fun h => Supply.Lasts.sequence (m := _ + 1) (hstep h) (hend _) (by omega)
  · exact fun h => .sequenceRound (hstep h)
      (Supply.Lasts.below fun u => .sequence (hstep h) (hend _) (by omega)).fewer

theorem commaSeparated {item : Nat → Parser Cursor α} {item' : Nat → Parser (Rationed Cursor) α}
    (hitem : ∀ {S : Supply Cursor} {k n}, k ≤ n → ∀ u, S.Lasts u k true (item n) (item' n)) :
    Descends (fun n => commaSeparated (item n) n)
      fun n call => commaRound (item n) (call (commaSeparated (item n) n)) := by
  refine of_lasts true (fun n => commaRound (item' n) (Grammar.commaSeparated (item' n) n)) ?_ ?_
  · exact fun h => Supply.Lasts.commaSeparated (m := _ + 1) (hitem h) (by omega)
  · exact fun h => .commaRound (hitem h)
      (Supply.Lasts.below fun u => .commaSeparated (hitem h) (by omega)).fewer

end Descends

end Productions

/-- The recursion of the grammar and its loops come to another round only behind a token. -/
structure GrammarDescends : Prop where
  ofExpression : Descends (fun n => expression n) fun n call => assignment n (call (expression n))
  ofStatement : Descends (fun n => statement n) fun n call =>
    statementStep n (expression n) (call (statement n))
  ofDeclaration : Descends (fun n => declaration n) fun n call =>
    declarationStep n (call (declaration n))
  inDeclarations (stop : TokenKind → Bool) (hstop : stop .endOfFile) :
    Descends (fun n => declarations n (declaration n) stop) fun n call =>
      sequenceRound (declarationItem (declaration n) stop) (call (declarations n (declaration n) stop))
  inClass : Descends (fun n => sequence (memberItem n) n) fun n call =>
    sequenceRound (memberItem n) (call (sequence (memberItem n) n))
  inBlock : Descends (fun n => sequence (blockItem (statement n)) n) fun n call =>
    sequenceRound (blockItem (statement n)) (call (sequence (blockItem (statement n)) n))
  inSwitch : Descends (fun n => sequence (caseItem n (expression n) (statement n)) n) fun n call =>
    sequenceRound (caseItem n (expression n) (statement n))
      (call (sequence (caseItem n (expression n) (statement n)) n))
  inClauses : Descends (fun n => furtherClauses n (expression n) (statement n) n) fun n call =>
    clauseRound n (expression n) (statement n) (call (furtherClauses n (expression n) (statement n) n))
  inArguments : Descends (fun n => commaSeparated (expression n) n) fun n call =>
    commaRound (expression n) (call (commaSeparated (expression n) n))
  inParameters : Descends (fun n => commaSeparated parameter n) fun n call =>
    commaRound parameter (call (commaSeparated parameter n))
  inLevel {operator? : TokenKind → Option Operator} {tighter : List (TokenKind → Option Operator)}
    (h : operator? :: tighter <:+ levels) (left : Expr) :
    Descends (fun n => chain operator? (binary n (primary n (expression n)) tighter) n left)
      fun n call => chainRound operator? (binary n (primary n (expression n)) tighter)
        (fun left => call (chain operator? (binary n (primary n (expression n)) tighter) n left)) left
  inModuleName : Descends (fun n => moduleParts n) fun n call => partRound (call (moduleParts n))

theorem clauses_descend :
    Descends (fun n => furtherClauses n (expression n) (statement n) n) fun n call =>
      clauseRound n (expression n) (statement n)
        (call (furtherClauses n (expression n) (statement n) n)) := by
  refine .of_lasts false (fun n => clauseRound n (expression n) (statement n)
    (furtherClauses n (expression n) (statement n) n)) ?_ ?_
  · exact fun h => Supply.Lasts.furtherClauses (j := _ + 1) (Supply.expression_below h)
      (Supply.statement_below h) (by omega) (by omega)
  · exact fun h => .clauseRound (Supply.expression_below h) (Supply.statement_below h) (by omega)
      (Supply.Lasts.below fun u => .furtherClauses (Supply.expression_below h)
        (Supply.statement_below h) (le_min h h) (le_min h h)).fewer

theorem level_descends {operator? : TokenKind → Option Operator}
    {tighter : List (TokenKind → Option Operator)} (h : operator? :: tighter <:+ levels)
    (left : Expr) :
    Descends (fun n => chain operator? (binary n (primary n (expression n)) tighter) n left)
      fun n call => chainRound operator? (binary n (primary n (expression n)) tighter)
        (fun left => call (chain operator? (binary n (primary n (expression n)) tighter) n left))
        left := by
  -- The end of the text is no operator, so another round comes only behind a token.
  have hends := fun o ho => levels_ended o (h.subset ho)
  obtain ⟨hend, htighter⟩ := List.forall_mem_cons.1 hends
  have hoperand {S : Supply Cursor} {k n : Nat} (h : k ≤ n) :
      S.LastsBelow k true (binary n (primary n (expression n)) tighter)
        (binary n (primary n (expression n)) tighter) :=
    Supply.Lasts.below fun _ => .binary
      (fun _ => .primary (Supply.expression_below h) ((Nat.sub_le _ 1).trans (le_min h h)))
      (le_min h h) htighter
  refine .of_lasts false (fun n => chainRound operator? (binary n (primary n (expression n)) tighter)
    (chain operator? (binary n (primary n (expression n)) tighter) n) left) ?_ ?_
  · exact fun h => Supply.Lasts.chain (m := _ + 1) hend (hoperand h) (by omega) left
  · exact fun h => .chainRound hend (hoperand h) (fun l =>
      (Supply.Lasts.below fun u => .chain hend (hoperand h) (le_min h h) l).fewer) left

theorem grammar_descends : GrammarDescends where
  ofExpression := by
    refine .of_lasts true (fun n => assignment (n + 1) (expression n)) ?_ ?_
    · exact fun h => Supply.Lasts.expression (m := _ + 1) (by omega)
    · exact fun h => .assignment (Supply.expression_below h).fewer (by omega)
  ofStatement := by
    refine .of_lasts true (fun n => statementStep (n + 1) (expression (n + 1)) (statement n)) ?_ ?_
    · exact fun h => Supply.Lasts.statement (m := _ + 1) (by omega)
    · exact fun h => .statementStep (fun u => .expression (by omega)) (Supply.statement_below h).fewer
        (by omega)
  ofDeclaration := by
    refine .of_lasts true (fun n => declarationStep (n + 1) (declaration n)) ?_ ?_
    · exact fun h => Supply.Lasts.declaration (m := _ + 1) (by omega)
    · exact fun h => .declarationStep (Supply.declaration_below h).fewer (by omega)
  inDeclarations stop hstop := Descends.sequence (fun h =>
    Supply.Lasts.declarationItem (fun _ => .declaration (le_min h h)) stop) fun _ => if_pos hstop
  inClass := .sequence (fun h => Supply.Lasts.memberItem (le_min h h)) fun _ => rfl
  inBlock := .sequence (fun h =>
    Supply.Lasts.blockItem fun _ => .statement (le_min h h)) fun _ => rfl
  inSwitch := .sequence (fun h => Supply.Lasts.caseItem (Supply.expression_below h)
    (Supply.statement_below h) ((Nat.sub_le _ 1).trans (le_min h h))) fun _ => rfl
  inClauses := clauses_descend
  inArguments := .commaSeparated fun h _ => .expression (le_min h h)
  inParameters := .commaSeparated fun _ _ => .parameter
  inLevel h left := level_descends h left
  inModuleName := by
    refine .of_lasts false (fun n => partRound (moduleParts n)) ?_ ?_
    · exact fun h => Supply.Lasts.moduleParts (m := _ + 1) (by omega)
    · exact fun h => .partRound (Supply.Lasts.below fun u => .moduleParts (le_min h h)).fewer

/-- Parse with a bound and a number of moves of one's own. -/
def parseRationed (source : String) (bound moves : Nat) (refusal : LexError) :
    Except ParseError Program :=
  match Cursor.ofString source with
  | .error e => .error (.lexical e)
  | .ok c => ((program bound).run (⟨c, moves, refusal⟩ : Rationed Cursor)).map Prod.fst

/-- Every production passes a token or fails, and none moves past the end of a text. So a parse makes
at most as many moves as the text has tokens, and comes to an end: no loop and no recursion goes on
without a token less. That many rounds are enough for the parser, and more of them make no
difference, whatever the text. -/
theorem productions_consume :
    (Production.Consumes (fun _ _ n => declaration n) ∧
      Production.Consumes (fun _ _ n => statement n) ∧
      Production.Consumes (fun _ _ n => body n) ∧
      Production.Consumes (fun _ _ n => expression n) ∧
      Production.Consumes (fun _ _ n => arguments n (expression n)) ∧
      Production.Consumes (fun _ _ n => parameters n)) ∧
    GrammarDescends ∧
    ∀ source bound refusal, (Scan.ofString source).tokens.length ≤ bound →
      parseRationed source bound (Scan.ofString source).tokens.length refusal = parse source := by
  have harguments : Production.Lasts (fun _ _ n => arguments n (expression n)) true :=
    fun h => .parenthesized (fun _ => .expression h) h
  have hprogram : Production.Lasts (fun _ _ n => program n) false := Supply.Lasts.program
  refine ⟨⟨Production.Lasts.consumes .declaration, Production.Lasts.consumes .statement,
    Production.Lasts.consumes .body, Production.Lasts.consumes .expression, harguments.consumes,
    Production.Lasts.consumes .parameters⟩, grammar_descends, fun source bound refusal hbound => ?_⟩
  rw [parseRationed, parse]
  cases hc : Cursor.ofString source with
  | error e => rfl
  | ok c =>
    rw [← Cursor.length_left hc] at hbound ⊢
    change (program bound (⟨c, c.left.length, refusal⟩ : Rationed Cursor)).map Prod.fst =
      (program c.left.length c).map Prod.fst
    rw [hprogram.eq_map (.start hc) (Nat.le_refl _) hbound refusal]
    cases program c.left.length c <;> rfl

/-- A text that ends within the parameters of a function. -/
theorem productions_consume_truncated :
    (Scan.ofString "func main(a").tokens.length = 4 ∧ ∀ refusal,
      parseRationed "func main(a" 9 4 refusal =
        .error (.grammar (.unexpected (.token .rightParen) .endOfFile ⟨1, 12⟩)) := by
  have htokens : (Scan.ofString "func main(a").tokens.length = 4 := by decide +kernel
  have hparse : parse "func main(a" =
      .error (.grammar (.unexpected (.token .rightParen) .endOfFile ⟨1, 12⟩)) := by decide +kernel
  refine ⟨htokens, fun refusal => ?_⟩
  rw [← hparse, ← productions_consume.2.2 "func main(a" 9 refusal (by rw [htokens]; decide), htokens]

end VnScript
