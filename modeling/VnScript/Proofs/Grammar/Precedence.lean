import VnScript.Proofs.Grammar.Reached
import VnScript.Proofs.Grammar.RoundTrip
import VnScript.Tree.Equality

namespace VnScript

open Grammar Word

/-- Operands in the order in which the tree has them, and each operator between its own. This
does not say how they are grouped. -/
inductive Expr.InOrder : List Word → Expr → Prop
  | operand {ws : List Word} {e : Expr} (h : ExprPhrase ws (.primary e)) : InOrder ws e
  | operation {ws ws' : List Word} {op : Operator} {left right : Expr} (h : InOrder ws left)
      (h' : InOrder ws' right) : InOrder (ws ++ sym op.kind :: ws') (.binary op left right)

/-- Operators outside parentheses have operands that bind at least as tight to the left, and
tighter to the right. What is no operation binds tightest. -/
def Expr.Graded : Expr → Prop
  | .binary op left right =>
    (op.rank ≤ left.rank ∧ op.rank < right.rank) ∧ left.Graded ∧ right.Graded
  | _ => True

section Phrases

variable {ws : List Word} {e e' : Expr} {level : TokenKind → Option Operator}
  {ls : List (TokenKind → Option Operator)} {k : TokenKind} {op : Operator}

theorem Operator.of_level (hls : level :: ls <:+ levels) (h : level k = some op) :
    k = op.kind ∧ op.rank + ls.length = levels.length := by
  unfold levels at hls
  simp only [List.suffix_cons_iff, List.cons.injEq, List.suffix_nil, reduceCtorEq, or_false] at hls
  obtain ⟨rfl, rfl⟩ | ⟨rfl, rfl⟩ | ⟨rfl, rfl⟩ | ⟨rfl, rfl⟩ | ⟨rfl, rfl⟩ := hls
  all_goals
    dsimp only [comparison?, logical?, shift?, additive?, multiplicative?] at h
    split at h <;> cases h <;> decide

theorem Operator.text?_kind (op : Operator) : op.kind.text?.isSome := by
  cases op <;> rfl

theorem literal_rank {text : String} (h : literal? k text = some e) : e.rank = 6 := by
  unfold literal? at h
  split at h
  any_goals obtain ⟨v, -, rfl⟩ := Option.map_eq_some_iff.1 h; rfl
  · cases h
    rfl
  · cases h

theorem ExprPhrase.rank_eq {node : ExprNode} (h : ExprPhrase ws node) :
    match node with
    | .suffix _ e => e.rank = 6
    | .primary e => e.rank = 6
    | _ => True := by
  induction h with
  | literal hs hl => exact literal_rank hl
  | named hn h ih => exact ih
  | alone | freeCall | member | memberCall | spaceMember | spaceCall => rfl
  | true | false | create | createIn | classCall => rfl
  | _ => trivial

theorem Expr.graded_of_rank (h : e.rank = 6) : e.Graded := by
  cases e with
  | binary op left right => cases op <;> cases h
  | _ => trivial

/-- What the levels read is in order, and they group it by the ranks of its operators. -/
theorem ExprPhrase.graded {node : ExprNode} (h : ExprPhrase ws node) :
    match node with
    | .binary ls e => ls <:+ levels → e.InOrder ws ∧ e.Graded ∧ levels.length < e.rank + ls.length
    | _ => True := by
  -- The rank of what a level reads stays above the levels that are not left to it.
  induction h with
  | operand h =>
    have hrank := h.rank_eq
    exact fun _ => ⟨.operand h, Expr.graded_of_rank hrank, hrank ▸ Nat.lt_succ_self 5⟩
  | tighter h ih =>
    intro hs
    obtain ⟨ho, hg, hr⟩ := ih ((List.suffix_cons _ _).trans hs)
    exact ⟨ho, hg, Nat.lt_succ_of_lt hr⟩
  | @operation level ls ws ws' w op left right h hw ho h' ih ih' =>
    intro hs
    obtain ⟨hl, hgl, hrl⟩ := ih hs
    obtain ⟨hr, hgr, hrr⟩ := ih' ((List.suffix_cons _ _).trans hs)
    obtain ⟨hk, hop⟩ := Operator.of_level hs ho
    rw [List.length_cons] at hrl
    obtain rfl : w = sym op.kind := hw.eq_sym hk op.text?_kind
    refine ⟨.operation hl hr, ⟨⟨by omega, by omega⟩, hgl, hgr⟩, ?_⟩
    change _ < op.rank + (ls.length + 1)
    omega
  | _ => trivial

theorem Expr.InOrder.phrase (h : e.InOrder ws) (hg : e.Graded) : ExprPhrase ws e.node := by
  induction h with
  | @operand ws e h =>
    have hrank : e.rank = 6 := h.rank_eq
    cases e with
    | assign | assignMember => cases hrank
    | binary op left right => cases op <;> cases hrank
    | _ => exact h
  | @operation ws ws' op left right h h' ih ih' =>
    obtain ⟨⟨hleft, hright⟩, hgl, hgr⟩ := hg
    obtain ⟨level, hlevel, hop⟩ := op.level
    have hpos := op.rank_pos
    have hl := (ih hgl).at_level (k := op.rank - 1) (by omega)
    change ExprPhrase _ (.binary (levels.drop (op.rank - 1)) _)
    rw [hlevel] at hl ⊢
    exact .operation hl op.spelled_kind hop ((ih' hgr).at_level hright)

theorem Expr.InOrder.phrase_levels (h : e.InOrder ws) (hg : e.Graded) :
    ExprPhrase ws (.binary levels e) := by
  have hphrase := h.phrase hg
  cases h with
  | operand h => exact h.of_primary
  | operation h h' => exact hphrase.looser

theorem endsName_ending : EndsName (front []).kind := by
  unfold EndsName
  decide

theorem endsLevels_ending : EndsLevels levels (front []).kind := by
  unfold EndsLevels
  decide

/-- The parser reads a phrase of the levels up to the end of the text, and to one tree. -/
theorem ExprPhrase.binary_unique (h : ExprPhrase ws (.binary levels e))
    (h' : ExprPhrase ws (.binary levels e')) : e = e' := by
  have hruns {e : Expr} (h : ExprPhrase ws (.binary levels e)) :
      Runs (comparison (ws.length + 1) (Grammar.expression ws.length)) (ws ++ []) e [] :=
    (h.accepts List.suffix_rfl).runs (Nat.le_succ _) endsName_ending endsLevels_ending
  exact congrArg Prod.fst (Except.ok.inj ((hruns h).symm.trans (hruns h')))

theorem Expr.InOrder.unique (h : e.InOrder ws) (hg : e.Graded) (h' : e'.InOrder ws)
    (hg' : e'.Graded) : e = e' :=
  (h.phrase_levels hg).binary_unique (h'.phrase_levels hg')

end Phrases

section Ends

variable {level : TokenKind → Option Operator} {ls : List (TokenKind → Option Operator)}
  {operand : Parser Tape Expr} {s s' : Tape} {left e : Expr} {count : Nat}

theorem Reads.words_le {α : Type} {p : Parser Tape α} {P : List Word → α → Prop} {a : α}
    (hp : Reads p P) (hs : s.Lexed) (h : p s = .ok (a, s')) :
    s'.Lexed ∧ s'.words.length ≤ s.words.length := by
  obtain ⟨hs', -, ws, hws, -⟩ := hp _ hs rfl h
  rw [hws, List.length_append]
  exact ⟨hs', Nat.le_add_left _ _⟩

/-- Behind what the parser reads no operator of the levels follows. -/
def StopsAt (ls : List (TokenKind → Option Operator)) (count : Nat) (p : Parser Tape Expr) : Prop :=
  ∀ ⦃s e s'⦄, s.Lexed → s.words.length ≤ count → p s = .ok (e, s') →
    EndsLevels ls s'.current.kind

/-- With as many rounds as there are words, only an operator that is not there ends a chain. -/
theorem chain_ends (hlevel : level .endOfFile = none)
    (hreads : Reads operand fun ws e => ExprPhrase ws (.binary ls e))
    (hstops : StopsAt ls count operand) {rounds : Nat} (hrounds : rounds ≤ count)
    (hs : s.Lexed) (hn : s.words.length ≤ rounds) (hls : EndsLevels ls s.current.kind)
    (h : chain level operand rounds left s = .ok (e, s')) :
    EndsLevels (level :: ls) s'.current.kind := by
  induction rounds generalizing s left with
  | zero =>
    -- No round is left, so nothing of the text is.
    obtain ⟨-, rfl⟩ := Prod.mk.inj (Except.ok.inj h)
    have hk : s.current.kind = .endOfFile := by
      by_contra hk
      rw [Tape.words_of_ne_end hk] at hn
      cases hn
    exact List.forall_mem_cons.2 ⟨hk ▸ hlevel, hls⟩
  | succ rounds ih =>
    obtain ⟨k, t, hk, h⟩ := bind_eq_ok h
    obtain ⟨rfl, rfl⟩ := Prod.mk.inj (Except.ok.inj hk)
    cases hop : level (TokenStream.current s).kind with
    | none =>
      rw [hop] at h
      obtain ⟨-, rfl⟩ := Prod.mk.inj (Except.ok.inj h)
      exact List.forall_mem_cons.2 ⟨hop, hls⟩
    | some op =>
      rw [hop] at h
      obtain ⟨token, t, ht, h⟩ := bind_eq_ok h
      obtain ⟨right, u, hu, h⟩ := bind_eq_ok h
      have hne : s.current.kind ≠ .endOfFile := by
        intro hk
        cases (hk ▸ hlevel).symm.trans hop
      obtain ⟨htl, -, ws, hws, rfl, -⟩ := advance_reads hne hs rfl ht
      obtain ⟨hul, hle⟩ := hreads.words_le htl hu
      -- The operator takes one word, which pays for the round.
      rw [hws, List.length_append, List.length_singleton] at hn
      exact ih (by omega) hul (by omega) (hstops htl (by omega) hu) h

theorem binary_ends (hls : ∀ level ∈ ls, level .endOfFile = none)
    (hreads : Reads operand fun ws e => ExprPhrase ws (.primary e)) :
    StopsAt ls count (binary count operand ls) := by
  induction ls with
  | nil => exact fun _ _ _ _ _ _ => nofun
  | cons level ls ih =>
    intro s e s' hs hn h
    obtain ⟨hlevel, hls⟩ := List.forall_mem_cons.1 hls
    obtain ⟨left, t, ht, h⟩ := bind_eq_ok h
    have hbinary := binary_reads hreads count ls hls
    obtain ⟨htl, hle⟩ := hbinary.words_le hs ht
    exact chain_ends hlevel hbinary (ih hls) le_rfl htl (hle.trans hn) (ih hls hs hn ht) h

theorem EndsLevels.ne_kind {k : TokenKind} (h : EndsLevels levels k) (op : Operator) :
    k ≠ op.kind := by
  rintro rfl
  obtain ⟨level, hlevel, hop⟩ := op.level
  have hmem : level ∈ levels := List.mem_of_mem_drop (hlevel ▸ List.mem_cons_self)
  cases (h level hmem).symm.trans hop

end Ends

section States

variable {source : String} {c c' : Cursor} {e : Expr} {n : Nat}

theorem Cursor.Reached.levels_phrase (hc : c.Reached source) (hn : c.left.length ≤ n + 1)
    (h : comparison (n + 1) (expression n) c = .ok (e, c')) :
    ∃ ts, c.left = ts ++ c'.left ∧ ExprPhrase (ts.map Token.word) (.binary levels e) ∧
      EndsLevels levels c'.current.kind := by
  obtain ⟨t, hf, ht⟩ := hc.tape
  -- The tape gives the words that are read, the cursor itself that its tokens only get fewer.
  have honward := (Simulation.expression_same (S := onward source c) n).comparison (n := n + 1) c c
    ⟨rfl, hc, List.suffix_rfl⟩
  have htape := (Simulation.expression_same (S := simulation _) n).comparison (n := n + 1) c t
    ⟨hf, ht.within⟩
  rw [h] at honward htape
  obtain ⟨x, hx, -, -, -, ts, hts⟩ := honward.of_ok
  obtain rfl := Except.ok.inj hx
  obtain ⟨⟨e', t'⟩, ht', rfl, hf', -⟩ := htape.of_ok
  obtain ⟨-, -, ws, hws, hphrase⟩ := comparison_reads (expression_reads n) _ ht.lexed rfl ht'
  rw [hf.left_eq] at hn hts ⊢
  rw [hf'.left_eq] at hts ⊢
  have hwords : ts.map Token.word = ws := by
    rw [Tape.words_eq, Tape.words_eq, ← hts, List.map_append] at hws
    exact List.append_cancel_right hws
  refine ⟨ts, hts.symm, hwords ▸ hphrase, ?_⟩
  rw [hf'.current]
  refine binary_ends (by decide) (primary_reads (expression_reads n)) ht.lexed ?_ ht'
  rwa [Tape.words_eq, List.length_map]

/-- How tight operators bind fixes how they are grouped. From every state of the parser, with a
round for every token that is left, the tokens consumed are the operands and operators of the
tree in their order, and no operator follows. The tree is graded, and no other tree with the same
operands and operators is. -/
theorem comparison_groups (hc : c.Reached source) (hn : c.left.length ≤ n + 1)
    (h : comparison (n + 1) (expression n) c = .ok (e, c')) :
    ∃ ts, c.left = ts ++ c'.left ∧ e.InOrder (ts.map Token.word) ∧
      (∀ op : Operator, c'.current.kind ≠ op.kind) ∧ e.Graded ∧
      ∀ e' : Expr, e'.InOrder (ts.map Token.word) → e'.Graded → e' = e := by
  obtain ⟨ts, hts, hphrase, hends⟩ := hc.levels_phrase hn h
  obtain ⟨horder, hgraded, -⟩ := hphrase.graded List.suffix_rfl
  exact ⟨ts, hts, horder, hends.ne_kind, hgraded, fun e' h' hg' => h'.unique hg' horder hgraded⟩

theorem comparison_groups_mixed :
    let c : Cursor := ⟨⟨.identifier, "a", ⟨⟨1, 1⟩, 0⟩, 1⟩, none,
      ⟨" - b * c - d < e;".toList, ⟨⟨1, 2⟩, 1⟩⟩⟩
    let c' : Cursor := ⟨⟨.semicolon, ";", ⟨⟨1, 18⟩, 17⟩, 18⟩, none, ⟨[], ⟨⟨1, 19⟩, 18⟩⟩⟩
    let e : Expr := .binary .less (.binary .sub (.binary .sub (.identifier "a")
      (.binary .mul (.identifier "b") (.identifier "c"))) (.identifier "d")) (.identifier "e")
    Cursor.ofString "a - b * c - d < e;" = .ok c ∧ c.left.length ≤ 10 ∧
      comparison 10 (expression 9) c = .ok (e, c') ∧
      ∃ ts, c.left = ts ++ c'.left ∧ e.InOrder (ts.map Token.word) ∧
        (∀ op : Operator, c'.current.kind ≠ op.kind) ∧ e.Graded ∧
        ∀ e' : Expr, e'.InOrder (ts.map Token.word) → e'.Graded → e' = e := by
  intro c c' e
  have hc : Cursor.ofString "a - b * c - d < e;" = .ok c := by decide +kernel
  have hn : c.left.length ≤ 10 := by decide +kernel
  have h : comparison 10 (expression 9) c = .ok (e, c') := by decide +kernel
  exact ⟨hc, hn, h, comparison_groups (.start hc) hn h⟩

end States

end VnScript
