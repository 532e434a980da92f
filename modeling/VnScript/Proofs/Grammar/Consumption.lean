import VnScript.Proofs.Grammar.Ration

namespace VnScript

namespace Grammar

variable {σ : Type} [TokenStream σ] {s : σ}

section Rounds

def chainRound (operator? : TokenKind → Option Operator) (operand : Parser σ Expr)
    (rest : Expr → Parser σ Expr) (left : Expr) : Parser σ Expr := do
  match operator? (← kind) with
  | none => return left
  | some op =>
    let _ ← advance
    let right ← operand
    rest (.binary op left right)

theorem chain_succ (operator? : TokenKind → Option Operator) (operand : Parser σ Expr) (n : Nat)
    (left : Expr) : chain operator? operand (n + 1) left =
      chainRound operator? operand (chain operator? operand n) left := rfl

/-- The next clause and those behind it, or the last body. -/
def clauseRound (count : Nat) (expr : Parser σ Expr) (self : Parser σ Stmt)
    (rest : Parser σ (List Conditional × Option (List Stmt))) :
    Parser σ (List Conditional × Option (List Stmt)) := do
  match ← kind with
  | .keyword .elseIfWord =>
    let _ ← advance
    let c ← clause count expr self
    let (elseIfs, orElse) ← rest
    return (c :: elseIfs, orElse)
  | .keyword .elseWord =>
    let _ ← advance
    if ← check (.keyword .ifWord) then
      let _ ← advance
      let c ← clause count expr self
      let (elseIfs, orElse) ← rest
      return (c :: elseIfs, orElse)
    else return ([], some (← block count self))
  | _ => return ([], none)

theorem furtherClauses_succ (count : Nat) (expr : Parser σ Expr) (self : Parser σ Stmt) (n : Nat) :
    furtherClauses count expr self (n + 1) =
      clauseRound count expr self (furtherClauses count expr self n) := rfl

/-- The next part of a module's name and those behind it. -/
def partRound (rest : Parser σ String) : Parser σ String := do
  if ← check .dot then
    let _ ← advance
    let part ← identifier
    return "." ++ part ++ (← rest)
  else return ""

theorem moduleParts_succ (n : Nat) :
    (moduleParts (n + 1) : Parser σ String) = partRound (moduleParts n) := rfl

end Rounds

section Ended

variable (hs : (TokenStream.current s).kind = .endOfFile)

include hs

theorem chain_ended {operator? : TokenKind → Option Operator} (hend : operator? .endOfFile = none)
    (operand : Parser σ Expr) (n : Nat) (left : Expr) :
    chain operator? operand n left s = .ok (left, s) := by
  cases n with
  | zero => rfl
  | succ n =>
    rw [chain, kind_bind_apply, hs, hend]
    rfl

omit hs in
/-- The failure of an expression at the end of a text. -/
def noExpression (token : Token) : ParseError :=
  .grammar (.unexpected .expression .endOfFile token.start.toPlace)

theorem unexpected_ended : (unexpected .expression : Parser σ Expr) s =
    .error (noExpression (TokenStream.current s)) := by
  rw [noExpression, ← hs]
  rfl

theorem binary_ended (n : Nat) (e : Parser σ Expr) (ls : List (TokenKind → Option Operator)) :
    binary n (primary n e) ls s = .error (noExpression (TokenStream.current s)) := by
  induction ls with
  | nil =>
    rw [binary, primary, kind_bind_apply, hs]
    exact unexpected_ended hs
  | cons operator? tighter ih =>
    rw [binary]
    change (binary n (primary n e) tighter s).bind _ = _
    rw [ih]
    rfl

theorem expression_ended (n : Nat) :
    expression n s = .error (noExpression (TokenStream.current s)) := by
  cases n with
  | zero => exact unexpected_ended hs
  | succ n =>
    change (binary (n + 1) (primary (n + 1) (expression n)) levels s).bind _ = _
    rw [binary_ended hs]
    rfl

theorem furtherClauses_ended (count : Nat) (e : Parser σ Expr) (p : Parser σ Stmt) (n : Nat) :
    furtherClauses count e p n s = .ok (([], none), s) := by
  cases n with
  | zero => rfl
  | succ n =>
    rw [furtherClauses, kind_bind_apply, hs]
    rfl

theorem statement_ended (n : Nat) :
    statement n s = .error (noExpression (TokenStream.current s)) := by
  cases n with
  | zero =>
    rw [noExpression, ← hs]
    rfl
  | succ n =>
    rw [statement, statementStep, kind_bind_apply, hs]
    change (expression (n + 1) s).bind _ = _
    rw [expression_ended hs]
    rfl

theorem moduleParts_ended (n : Nat) : moduleParts n s = .ok ("", s) := by
  cases n with
  | zero => rfl
  | succ n =>
    rw [moduleParts]
    change (if ((TokenStream.current s).kind == .dot) = true then _ else Pure.pure "" : Parser σ _) s = _
    rw [hs]
    rfl

theorem declaration_ended (n : Nat) : declaration n s =
    .error (.grammar (.expectedFunction (TokenStream.current s).start.toPlace)) := by
  cases n with
  | zero => rfl
  | succ n =>
    rw [declaration, declarationStep, kind_bind_apply, hs]
    rfl

end Ended

theorem levels_ended : ∀ operator? ∈ levels, operator? .endOfFile = none := by
  simp [levels, comparison?, logical?, shift?, additive?, multiplicative?]

end Grammar

namespace Supply

open Grammar

variable {σ : Type} [TokenStream σ] {S : Supply σ} {t : TokenKind} {k n m : Nat}

section Expressions

variable {e : Parser σ Expr} {e' : Parser (Rationed σ) Expr}

theorem Lasts.chainRound {operator? : TokenKind → Option Operator}
    (hend : operator? .endOfFile = none) (he : S.LastsBelow k true e e')
    {rest : Expr → Parser σ Expr} {rest' : Expr → Parser (Rationed σ) Expr}
    (hrest : ∀ left, S.LastsBelow k false (rest left) (rest' left)) (left : Expr) :
    S.Lasts t k false (chainRound operator? e rest left) (chainRound operator? e' rest' left) := by
  refine .kind_bind ?_
  cases hop : operator? t with
  | none => exact .pure left
  | some op =>
    have ht : t ≠ .endOfFile := by
      rintro rfl
      rw [hend] at hop
      cases hop
    refine .step (.advance ht) fun h _ u => .bind (he.pred h u) fun right u => ?_
    exact (hrest _).pred h u

theorem Lasts.chain {operator? : TokenKind → Option Operator} (hend : operator? .endOfFile = none)
    (he : S.LastsBelow k true e e') (hk : k ≤ min n m) (left : Expr) :
    S.Lasts t k false (chain operator? e n left) (chain operator? e' m left) := by
  induction k generalizing n m t left with
  | zero =>
    exact .ended (fun _ hs => chain_ended hs hend e n left) fun _ hs => chain_ended hs hend e' m left
  | succ k ih =>
    obtain ⟨n, rfl⟩ : ∃ n', n = n' + 1 := Nat.exists_eq_succ_of_ne_zero (by omega)
    obtain ⟨m, rfl⟩ : ∃ m', m = m' + 1 := Nat.exists_eq_succ_of_ne_zero (by omega)
    have hfewer := he.mono (Nat.le_succ k)
    rw [chain_succ, chain_succ]
    exact .chainRound hend he (fun l => .below_succ fun u => ih hfewer (by omega) l) left

theorem Lasts.binary (he : ∀ t, S.Lasts t k true e e') (hk : k ≤ min n m)
    {ls : List (TokenKind → Option Operator)} (hls : ∀ operator? ∈ ls, operator? .endOfFile = none) :
    S.Lasts t k true (binary n e ls) (binary m e' ls) := by
  induction ls generalizing t with
  | nil => exact he t
  | cons operator? tighter ih =>
    obtain ⟨hend, hls⟩ := List.forall_mem_cons.1 hls
    refine .bind_le (ih hls) (fun _ left u => .chain hend ?_ (by omega) left) (Nat.le_refl _)
    exact .below fun u => (ih hls).mono (Nat.sub_le k 1)

theorem Lasts.literal (ht : t ≠ .endOfFile) : S.Lasts t k true (literal : Parser σ Expr) literal := by
  refine .step (.advance ht) fun _ token u => ?_
  split
  · exact .pure _
  · exact .fail _

theorem Lasts.memberOrCall (ht : t ≠ .endOfFile) (he : ∀ t, S.Lasts t k true e e')
    (hk : k ≤ min n m) (receiver : Receiver) (access : String → Expr) :
    S.Lasts t k false (memberOrCall n e receiver access) (memberOrCall m e' receiver access) := by
  refine .bind (.advance ht) fun _ u => .bind .memberName fun member u => ?_
  exact .check_bind (fun _ => .bind (.parenthesized he hk) fun args u => .pure _) (.pure _)

theorem Lasts.named (he : ∀ t, S.Lasts t k true e e') (hk : k ≤ min n m) (name : String) :
    S.Lasts t k false (named n e name) (named m e' name) := by
  refine .kind_bind ?_
  split
  · exact .memberOrCall (by nofun) he hk _ _
  · exact .memberOrCall (by nofun) he hk _ _
  · exact .bind (.parenthesized he hk) fun args u => .pure _
  · exact .pure _

theorem Lasts.instanceExpression (he : S.LastsBelow k true e e') (hk : k - 1 ≤ min n m) :
    S.Lasts t k true (instanceExpression n e) (instanceExpression m e') := by
  refine .step (.word _) fun h _ u => .check_bind (fun _ => ?_) (.named (he.pred h) hk _)
  refine .bind .identifier fun first u => .check_bind (fun hu => ?_) ?_
  · refine .bind (.advance (hu ▸ nofun)) fun _ u => .bind .identifier fun type u => ?_
    exact .bind (.parenthesized (he.pred h) hk) fun args u => .pure _
  · exact .bind (.parenthesized (he.pred h) hk) fun args u => .pure _

theorem Lasts.classCall (ht : t ≠ .endOfFile) (he : S.LastsBelow k true e e')
    (hk : k - 1 ≤ min n m) : S.Lasts t k true (classCall n e) (classCall m e') := by
  refine .step (.advance ht) fun h _ u => .bind (.consume nofun) fun _ u => ?_
  exact .bind .memberName fun name u => .bind (.parenthesized (he.pred h) hk) fun args u => .pure _

theorem Lasts.primary (he : S.LastsBelow k true e e') (hk : k - 1 ≤ min n m) :
    S.Lasts t k true (primary n e) (primary m e') := by
  refine .kind_bind ?_
  split
  any_goals exact .literal nofun
  · exact .step (.advance nofun) fun _ _ u => .pure _
  · exact .step (.advance nofun) fun _ _ u => .pure _
  · exact .instanceExpression he hk
  · exact .classCall nofun he hk
  · exact .step (.advance nofun) fun h token u => .named (he.pred h) hk _
  · exact .unexpected _

theorem Lasts.assignment (he : S.LastsBelow k true e e') (hk : k ≤ min n m) :
    S.Lasts t k true (assignment n e) (assignment m e') := by
  have hprimary (u : TokenKind) := Lasts.primary (t := u) he ((Nat.sub_le k 1).trans hk)
  refine .step (.binary hprimary hk levels_ended) fun h target u => .kind_bind ?_
  cases hop : assignment? u with
  | none => exact .pure _
  | some op =>
    have hu : u ≠ .endOfFile := by
      rintro rfl
      cases hop
    refine .place_bind fun place => ?_
    split
    · exact .bind (.advance hu) fun _ u => .bind (he.pred h u) fun value u => .pure _
    · exact .bind (.advance hu) fun _ u => .bind (he.pred h u) fun value u => .pure _
    · exact .fail _

theorem Lasts.expression (hk : k ≤ min n m) :
    S.Lasts t k true (expression n : Parser σ Expr) (expression m) := by
  -- Every way back to an expression lies behind a token, and at the end of the text there is none.
  induction k generalizing n m t with
  | zero => exact .ended_error (fun _ hs => expression_ended hs n) fun _ hs => expression_ended hs m
  | succ k ih =>
    obtain ⟨n, rfl⟩ : ∃ n', n = n' + 1 := Nat.exists_eq_succ_of_ne_zero (by omega)
    obtain ⟨m, rfl⟩ : ∃ m', m = m' + 1 := Nat.exists_eq_succ_of_ne_zero (by omega)
    exact .assignment (.below_succ fun u => ih (by omega)) hk

end Expressions

section Statements

variable {e : Parser σ Expr} {e' : Parser (Rationed σ) Expr}
variable {p : Parser σ Stmt} {p' : Parser (Rationed σ) Stmt}

theorem Lasts.declaredValue (he : ∀ t, S.Lasts t k true e e') :
    S.Lasts t k false (declaredValue e) (declaredValue e') := by
  refine .check_bind (fun ht => .bind (.advance (ht ▸ nofun)) fun _ u => ?_) (.pure _)
  exact .bind (he u) fun value u => .pure _

theorem Lasts.condition (he : ∀ t, S.Lasts t k true e e') :
    S.Lasts t k false (condition e) (condition e') :=
  .bind (.consume nofun) fun _ u => .bind (he u) fun _ _ => .bind (.consume nofun) fun _ _ => .pure _

theorem Lasts.blockItem (hp : ∀ t, S.Lasts t k true p p') (u : TokenKind) :
    Option.Rel (S.Lasts u k true) (blockItem p u) (blockItem p' u) := by
  unfold Grammar.blockItem
  split
  · exact .none
  · exact .some (hp u).one

theorem Lasts.block (hp : ∀ t, S.Lasts t k true p p') (hk : k ≤ min n m) :
    S.Lasts t k true (block n p) (block m p') := by
  have hitem := Lasts.blockItem fun u => (hp u).mono (Nat.sub_le k 1)
  refine .step (.consume nofun) fun _ _ u => .bind (.sequence hitem rfl (by omega)) fun body u => ?_
  exact .bind (.consume nofun) fun _ u => .pure _

theorem Lasts.clause (he : ∀ t, S.Lasts t k true e e') (hp : ∀ t, S.Lasts t k true p p')
    (hk : k ≤ min n m) : S.Lasts t k false (clause n e p) (clause m e' p') :=
  .bind (.condition he) fun _ _ => .bind (.block hp hk) fun _ _ => .pure _

theorem Lasts.clauseRound (he : S.LastsBelow k true e e') (hp : S.LastsBelow k true p p')
    (hk : k - 1 ≤ min n m) {rest : Parser σ (List Conditional × Option (List Stmt))}
    {rest' : Parser (Rationed σ) (List Conditional × Option (List Stmt))}
    (hrest : S.LastsBelow k false rest rest') :
    S.Lasts t k false (clauseRound n e p rest) (clauseRound m e' p' rest') := by
  have hclause (h : 0 < k) (u : TokenKind) : S.Lasts u (k - 1) false (do
      let c ← Grammar.clause n e p
      let further ← rest
      return (c :: further.1, further.2)) (do
      let c ← Grammar.clause m e' p'
      let further ← rest'
      return (c :: further.1, further.2)) :=
    .bind (.clause (he.pred h) (hp.pred h) hk) fun c u =>
      .bind (hrest.pred h u) fun further u => .pure _
  refine .kind_bind ?_
  split
  · exact .step (.advance nofun) fun h _ u => hclause h u
  · refine .step (.advance nofun) fun h _ u => .check_bind (fun hu => ?_) ?_
    · exact .bind (.advance (hu ▸ nofun)) fun _ u => hclause h u
    · exact .bind (.block (hp.pred h) hk) fun body u => .pure _
  · exact .pure _

theorem Lasts.furtherClauses (he : S.LastsBelow k true e e') (hp : S.LastsBelow k true p p')
    (hk : k ≤ min n m) {i j : Nat} (hij : k ≤ min i j) :
    S.Lasts t k false (furtherClauses n e p i) (furtherClauses m e' p' j) := by
  induction k generalizing i j t with
  | zero =>
    exact .ended (fun _ hs => furtherClauses_ended hs n e p i) fun _ hs =>
      furtherClauses_ended hs m e' p' j
  | succ k ih =>
    obtain ⟨i, rfl⟩ : ∃ i', i = i' + 1 := Nat.exists_eq_succ_of_ne_zero (by omega)
    obtain ⟨j, rfl⟩ : ∃ j', j = j' + 1 := Nat.exists_eq_succ_of_ne_zero (by omega)
    rw [furtherClauses_succ, furtherClauses_succ]
    refine .clauseRound he hp (by omega) (.below_succ fun u => ?_)
    exact ih (he.mono (Nat.le_succ k)) (hp.mono (Nat.le_succ k)) (by omega) (by omega)

theorem Lasts.conditional (he : S.LastsBelow k true e e') (hp : S.LastsBelow k true p p')
    (hk : k - 1 ≤ min n m) : S.Lasts t k true (conditional n e p) (conditional m e' p') := by
  refine .step (.word _) fun h _ u => .bind (.condition (he.pred h)) fun value u => ?_
  have hfurther (u : TokenKind) := Lasts.furtherClauses (t := u) (he.mono (Nat.sub_le k 1))
    (hp.mono (Nat.sub_le k 1)) hk hk
  exact .bind (.block (hp.pred h) hk) fun body u => .bind (hfurther u) fun further u => .pure _

theorem Lasts.forIn (he : ∀ t, S.Lasts t k true e e') (hp : ∀ t, S.Lasts t k true p p')
    (hk : k ≤ min n m) (name : String) (type : Option TypeName) :
    S.Lasts t k false (forIn n e p name type) (forIn m e' p' name type) := by
  refine .bind (.word _) fun _ u => .bind (he u) fun collection u => ?_
  exact .bind (.consume nofun) fun _ u => .bind (.block hp hk) fun body u => .pure _

theorem Lasts.forClauses (he : ∀ t, S.Lasts t k true e e') (hp : ∀ t, S.Lasts t k true p p')
    (hk : k ≤ min n m) (initial : Stmt) :
    S.Lasts t k false (forClauses n e p initial) (forClauses m e' p' initial) := by
  refine .bind (.consume nofun) fun _ u => .bind (he u) fun value u => ?_
  refine .bind (.consume nofun) fun _ u => .bind (he u) fun increment u => ?_
  exact .bind (.consume nofun) fun _ u => .bind (.block hp hk) fun body u => .pure _

theorem Lasts.initialAssignment (he : ∀ t, S.Lasts t k true e e') :
    S.Lasts t k false (initialAssignment e) (initialAssignment e') := by
  refine .place_bind fun place => .bind (he t) fun value u => ?_
  split
  · exact .pure _
  · exact .pure _
  · exact .fail _

theorem Lasts.forLoop (he : S.LastsBelow k true e e')
    (hp : S.LastsBelow k true p p') (hk : k - 1 ≤ min n m) :
    S.Lasts t k true (forLoop n e p) (forLoop m e' p') := by
  refine .step (.word _) fun h _ u => .bind (.consume nofun) fun _ u => .kind_bind ?_
  cases htype : variableType? u with
  | some type =>
    have hu : u ≠ .endOfFile := by
      rintro rfl
      cases htype
    refine .bind (.advance hu) fun _ u => .bind .identifier fun name u => ?_
    refine .check_bind (fun _ => .forIn (he.pred h) (hp.pred h) hk _ _) ?_
    exact .bind (.declaredValue (he.pred h)) fun value u => .forClauses (he.pred h) (hp.pred h) hk _
  | none =>
    refine .ite (fun hu => .bind (.peek (hu ▸ nofun)) fun next u => .ite (fun _ => ?_) fun _ => ?_)
      fun _ => .place_bind fun place => .fail _
    · exact .bind .identifier fun name u => .forIn (he.pred h) (hp.pred h) hk _ _
    · exact .bind (.initialAssignment (he.pred h)) fun initial u => .forClauses (he.pred h) (hp.pred h) hk _

theorem Lasts.whileLoop (he : S.LastsBelow k true e e')
    (hp : S.LastsBelow k true p p') (hk : k - 1 ≤ min n m) :
    S.Lasts t k true (whileLoop n e p) (whileLoop m e' p') := by
  refine .step (.word _) fun h _ u => .bind (.condition (he.pred h)) fun value u => ?_
  exact .bind (.block (hp.pred h) hk) fun body u => .pure _

theorem Lasts.doWhile (he : S.LastsBelow k true e e')
    (hp : S.LastsBelow k true p p') (hk : k - 1 ≤ min n m) :
    S.Lasts t k true (doWhile n e p) (doWhile m e' p') := by
  refine .step (.word _) fun h _ u => .bind (.block (hp.pred h) hk) fun body u => ?_
  refine .bind (.word _) fun _ u => .bind (.condition (he.pred h)) fun value u => ?_
  refine .check_bind (fun hu => ?_) (.bind (.pure _) fun _ u => .pure _)
  exact .bind (.advance (hu ▸ nofun)) fun _ u => .bind (.pure _) fun _ u => .pure _

theorem Lasts.case (ht : t ≠ .endOfFile) (he : S.LastsBelow k true e e')
    (hp : S.LastsBelow k true p p') (hk : k - 1 ≤ min n m) :
    S.Lasts t k true (case n e p) (case m e' p') := by
  refine .step (.advance ht) fun h _ u => .bind (he.pred h u) fun value u => ?_
  exact .bind (.block (hp.pred h) hk) fun body u => .pure _

theorem Lasts.caseItem (he : S.LastsBelow k true e e') (hp : S.LastsBelow k true p p')
    (hk : k - 1 ≤ min n m) (u : TokenKind) :
    Option.Rel (S.Lasts u k true) (caseItem n e p u) (caseItem m e' p' u) := by
  unfold Grammar.caseItem
  split
  · exact .some (.skip nofun)
  · exact .some (.one (.case nofun he hp hk))
  · exact .none

theorem Lasts.switch (he : S.LastsBelow k true e e') (hp : S.LastsBelow k true p p')
    (hk : k - 1 ≤ min n m) : S.Lasts t k true (switch n e p) (switch m e' p') := by
  have hitem := Lasts.caseItem (he.mono (Nat.sub_le k 1)) (hp.mono (Nat.sub_le k 1))
    ((Nat.sub_le _ 1).trans hk)
  refine .step (.word _) fun h _ u => .bind (.condition (he.pred h)) fun subject u => ?_
  refine .bind (.consume nofun) fun _ u => .bind (.sequence hitem rfl hk) fun cases u => ?_
  exact .bind (.consume nofun) fun _ u => .pure _

theorem Lasts.ret (he : S.LastsBelow k true e e') :
    S.Lasts t k true (ret e) (ret e') := by
  have hclose (value : Option Expr) (u : TokenKind) : S.Lasts u (k - 1) false
      (do let _ ← Grammar.consume .semicolon; return Stmt.ret value)
      (do let _ ← Grammar.consume .semicolon; return Stmt.ret value) :=
    .bind (.consume nofun) fun _ u => .pure _
  refine .step (.word _) fun h _ u => .check_bind (fun _ => .bind (.pure none) hclose) ?_
  exact .bind ((he.pred h u).map some) hclose

theorem Lasts.attempt (hp : S.LastsBelow k true p p') (hk : k - 1 ≤ min n m) :
    S.Lasts t k true (attempt n p) (attempt m p') := by
  refine .step (.word _) fun h _ u => .bind (.block (hp.pred h) hk) fun body u => ?_
  refine .bind (.word _) fun _ u => .bind (.consume nofun) fun _ u => ?_
  refine .bind .identifier fun errorType u => .bind (.consume nofun) fun _ u => ?_
  refine .bind (.word _) fun _ u => .bind .identifier fun binding u => ?_
  exact .bind (.block (hp.pred h) hk) fun handler u => .pure _

theorem Lasts.declare (ht : t ≠ .endOfFile) (he : S.LastsBelow k true e e')
    (type : VariableType) : S.Lasts t k true (declare e type) (declare e' type) := by
  refine .step (.advance ht) fun h _ u => .bind .identifier fun name u => ?_
  exact .bind (.declaredValue (he.pred h)) fun value u => .bind (.consume nofun) fun _ u => .pure _

theorem Lasts.plainStatement (he : ∀ t, S.Lasts t k true e e') :
    S.Lasts t k true (plainStatement e) (plainStatement e') :=
  .step (he t) fun _ _ _ => .bind (.consume nofun) fun _ _ => .pure _

theorem Lasts.statementStep (he : ∀ t, S.Lasts t k true e e')
    (hp : S.LastsBelow k true p p') (hk : k ≤ min n m) :
    S.Lasts t k true (statementStep n e p) (statementStep m e' p') := by
  have he' := Lasts.below he
  have hk' : k - 1 ≤ min n m := (Nat.sub_le k 1).trans hk
  refine .kind_bind ?_
  split
  · exact .step (.advance nofun) fun _ _ u => .pure _
  · exact .declare (by nofun) he' _
  · exact .declare (by nofun) he' _
  · exact .declare (by nofun) he' _
  · exact .conditional he' hp hk'
  · exact .forLoop he' hp hk'
  · exact .whileLoop he' hp hk'
  · exact .doWhile he' hp hk'
  · exact .switch he' hp hk'
  · exact .ret he'
  · exact .attempt hp hk'
  · exact .plainStatement he

theorem Lasts.statement (hk : k ≤ min n m) :
    S.Lasts t k true (statement n : Parser σ Stmt) (statement m) := by
  induction k generalizing n m t with
  | zero => exact .ended_error (fun _ hs => statement_ended hs n) fun _ hs => statement_ended hs m
  | succ k ih =>
    obtain ⟨n, rfl⟩ : ∃ n', n = n' + 1 := Nat.exists_eq_succ_of_ne_zero (by omega)
    obtain ⟨m, rfl⟩ : ∃ m', m = m' + 1 := Nat.exists_eq_succ_of_ne_zero (by omega)
    exact .statementStep (fun u => .expression hk) (.below_succ fun u => ih (by omega)) hk

theorem Lasts.body (hk : k ≤ min n m) :
    S.Lasts t k true (body n : Parser σ (List Stmt)) (body m) :=
  .block (fun _ => .statement hk) hk

end Statements

section Declarations

variable {p : Parser σ Declaration} {p' : Parser (Rationed σ) Declaration}

theorem Lasts.parameterType : S.Lasts t k false (parameterType : Parser σ _) parameterType := by
  refine .kind_bind ?_
  split
  · exact .bind (.advance nofun) fun _ u => .pure _
  · exact .bind (.advance nofun) fun _ u => .pure _
  · exact .pure _

theorem Lasts.parameter : S.Lasts t k true (parameter : Parser σ Parameter) parameter := by
  refine .bind .parameterType fun type u => .check_bind (fun hu => ?_) ?_
  · exact .step (.advance (hu ▸ nofun)) fun _ _ u => .pure _
  · exact .step .identifier fun _ name u => .pure _

theorem Lasts.parameters (hk : k ≤ min n m) :
    S.Lasts t k true (parameters n : Parser σ _) (parameters m) :=
  .parenthesized (fun _ => .parameter) hk

theorem Lasts.function (hk : k ≤ min n m) :
    S.Lasts t k true (function n : Parser σ Function) (function m) := by
  have hk' : k - 1 ≤ min n m := (Nat.sub_le k 1).trans hk
  refine .step (.word _) fun _ _ u => .bind .identifier fun name u => ?_
  exact .bind (.parameters hk') fun params u => .bind (.body hk') fun body u => .pure _

theorem Lasts.method (hk : k ≤ min n m) (name : String) :
    S.Lasts t k false (method n name : Parser σ Function) (method m name) :=
  .bind (.parameters hk) fun _ _ => .bind (.body hk) fun _ _ => .pure _

theorem Lasts.instanceMember (ht : t ≠ .endOfFile) (hk : k - 1 ≤ min n m) :
    S.Lasts t k true (instanceMember n : Parser σ _) (instanceMember m) := by
  refine .step (.advance ht) fun _ _ u => .bind (.consume nofun) fun _ u => ?_
  refine .check_bind (fun hu => .bind (.advance (hu ▸ nofun)) fun _ u => ?_) ?_
  · exact .bind (.method hk _) fun f u => .pure _
  · exact .bind .identifier fun name u => .bind (.method hk name) fun f u => .pure _

theorem Lasts.classMember (ht : t ≠ .endOfFile) (hk : k - 1 ≤ min n m) :
    S.Lasts t k true (classMember n : Parser σ _) (classMember m) := by
  refine .step (.advance ht) fun _ _ u => .bind (.consume nofun) fun _ u => ?_
  exact .bind .identifier fun name u => .bind (.method hk name) fun f u => .pure _

theorem Lasts.memberItem (hk : k ≤ min n m) (u : TokenKind) :
    Option.Rel (S.Lasts u k true) (memberItem n u : Option (Parser σ _)) (memberItem m u) := by
  have hk' : k - 1 ≤ min n m := (Nat.sub_le k 1).trans hk
  unfold Grammar.memberItem
  split
  · exact .none
  · exact .none
  · exact .some (.skip nofun)
  · exact .some (.one (.instanceMember nofun hk'))
  · exact .some (.one (.classMember nofun hk'))
  · exact .some (.unexpected _)

theorem Lasts.classDecl (hk : k ≤ min n m) :
    S.Lasts t k true (classDecl n : Parser σ ClassDecl) (classDecl m) := by
  have hk' : k - 1 ≤ min n m := (Nat.sub_le k 1).trans hk
  have hrest (name : String) (base : Option String) (u : TokenKind) : S.Lasts u (k - 1) false (do
      let _ ← Grammar.consume .rightParen
      let _ ← Grammar.consume .leftBrace
      let members ← Grammar.sequence (Grammar.memberItem n) n
      let _ ← Grammar.consume .rightBrace
      return classOfMembers name base members) (do
      let _ ← Grammar.consume .rightParen
      let _ ← Grammar.consume .leftBrace
      let members ← Grammar.sequence (Grammar.memberItem m) m
      let _ ← Grammar.consume .rightBrace
      return classOfMembers name base members) := by
    refine .bind (.consume nofun) fun _ u => .bind (.consume nofun) fun _ u => ?_
    refine .bind (.sequence (Lasts.memberItem hk') rfl hk') fun members u => ?_
    exact .bind (.consume nofun) fun _ u => .pure _
  refine .step (.word _) fun _ _ u => .bind .identifier fun name u => ?_
  refine .bind (.consume nofun) fun _ u => .check_bind (fun _ => ?_) ?_
  · exact .bind (Lasts.identifier.map some) (hrest name)
  · exact .bind (.pure none) (hrest name)

theorem Lasts.partRound {rest : Parser σ String} {rest' : Parser (Rationed σ) String}
    (hrest : S.LastsBelow k false rest rest') :
    S.Lasts t k false (partRound rest) (partRound rest') := by
  refine .check_bind (fun ht => .step (.advance (ht ▸ nofun)) fun h _ u => ?_) (.pure _)
  exact .bind .identifier fun part u => .bind (hrest.pred h u) fun parts u => .pure _

theorem Lasts.moduleParts (hk : k ≤ min n m) :
    S.Lasts t k false (moduleParts n : Parser σ String) (moduleParts m) := by
  induction k generalizing n m t with
  | zero => exact .ended (fun _ hs => moduleParts_ended hs n) fun _ hs => moduleParts_ended hs m
  | succ k ih =>
    obtain ⟨n, rfl⟩ : ∃ n', n = n' + 1 := Nat.exists_eq_succ_of_ne_zero (by omega)
    obtain ⟨m, rfl⟩ : ∃ m', m = m' + 1 := Nat.exists_eq_succ_of_ne_zero (by omega)
    rw [moduleParts_succ, moduleParts_succ]
    exact .partRound (.below_succ fun u => ih (by omega))

theorem Lasts.importDecl (hk : k ≤ min n m) :
    S.Lasts t k true (importDecl n : Parser σ String) (importDecl m) := by
  refine .step (.word _) fun _ _ u => .bind .identifier fun first u => ?_
  exact .bind (.moduleParts (by omega)) fun rest u => .bind (.consume nofun) fun _ u => .pure _

theorem Lasts.declarationItem (hp : ∀ t, S.Lasts t k true p p') (stop : TokenKind → Bool)
    (u : TokenKind) : Option.Rel (S.Lasts u k true) (declarationItem p stop u) (declarationItem p' stop u) := by
  unfold Grammar.declarationItem
  split
  · exact .none
  · split
    · next hu => exact .some (.skip (hu ▸ nofun))
    · exact .some (hp u).one

theorem Lasts.declarations (hp : ∀ t, S.Lasts t k true p p') (hk : k ≤ min n m)
    {stop : TokenKind → Bool} (hstop : stop .endOfFile) :
    S.Lasts t k false (declarations n p stop) (declarations m p' stop) :=
  .sequence (Lasts.declarationItem hp stop) (if_pos hstop) hk

theorem Lasts.namespaceDecl (hp : S.LastsBelow k true p p') (hk : k - 1 ≤ min n m) :
    S.Lasts t k true (namespaceDecl n p) (namespaceDecl m p') := by
  refine .step (.word _) fun h _ u => .bind .identifier fun name u => ?_
  refine .bind (.consume nofun) fun _ u => .bind (.declarations (hp.pred h) hk rfl) fun ds u => ?_
  exact .bind (.consume nofun) fun _ u => .pure _

theorem Lasts.declarationStep (hp : S.LastsBelow k true p p') (hk : k ≤ min n m) :
    S.Lasts t k true (declarationStep n p) (declarationStep m p') := by
  refine .kind_bind ?_
  split
  · exact (Lasts.function hk).map _
  · exact .namespaceDecl hp ((Nat.sub_le k 1).trans hk)
  · exact (Lasts.classDecl hk).map _
  · exact (Lasts.importDecl hk).map _
  · exact .place_bind fun place => .fail _

theorem Lasts.declaration (hk : k ≤ min n m) :
    S.Lasts t k true (declaration n : Parser σ Declaration) (declaration m) := by
  induction k generalizing n m t with
  | zero =>
    exact .ended_error (e := fun token => .grammar (.expectedFunction token.start.toPlace))
      (fun _ hs => declaration_ended hs n) fun _ hs => declaration_ended hs m
  | succ k ih =>
    obtain ⟨n, rfl⟩ : ∃ n', n = n' + 1 := Nat.exists_eq_succ_of_ne_zero (by omega)
    obtain ⟨m, rfl⟩ : ∃ m', m = m' + 1 := Nat.exists_eq_succ_of_ne_zero (by omega)
    exact .declarationStep (.below_succ fun u => ih (by omega)) hk

theorem Lasts.program (hk : k ≤ min n m) :
    S.Lasts t k false (program n : Parser σ Program) (program m) :=
  (Lasts.declarations (fun _ => .declaration hk) hk rfl).map _

end Declarations

section Below

variable (h : k ≤ n)

include h

theorem expression_below : S.LastsBelow k true (expression n : Parser σ Expr) (expression n) :=
  .below fun _ => .expression (le_min h h)

theorem statement_below : S.LastsBelow k true (statement n : Parser σ Stmt) (statement n) :=
  .below fun _ => .statement (le_min h h)

theorem declaration_below :
    S.LastsBelow k true (declaration n : Parser σ Declaration) (declaration n) :=
  .below fun _ => .declaration (le_min h h)

end Below

end Supply

end VnScript
