import VnScript.Proofs.Grammar.Reached

namespace VnScript

/-- A stream that may be moved a number of times, and not past the end of a text. Beyond that it
fails, with an error of its own. -/
structure Rationed (σ : Type) where
  stream : σ
  moves : Nat
  refusal : LexError

namespace Rationed

variable {σ : Type} [TokenStream σ]

def current (r : Rationed σ) : Token := TokenStream.current r.stream

def next (r : Rationed σ) : Except LexError (Rationed σ) :=
  if r.moves = 0 ∨ r.current.kind = .endOfFile then .error r.refusal
  else (TokenStream.next r.stream).map fun s => { r with stream := s, moves := r.moves - 1 }

/-- To look at the next token is no move, but there is none behind the end. -/
def peek (r : Rationed σ) : Except LexError (TokenKind × Rationed σ) :=
  if r.current.kind = .endOfFile then .error r.refusal
  else (TokenStream.peek r.stream).map fun x => (x.1, { r with stream := x.2 })

instance : TokenStream (Rationed σ) := ⟨current, next, peek⟩

end Rationed

/-- Streams that come to an end: in every valid state some tokens are left, none at the end of the
text, and a move takes the current one of them. -/
structure Supply (σ : Type) [TokenStream σ] where
  Valid : σ → Prop
  left : σ → List Token
  refusal : LexError
  left_eq_nil_iff {s : σ} (h : Valid s) :
    left s = [] ↔ (TokenStream.current s).kind = .endOfFile
  next_left {s s' : σ} (h : Valid s) (hk : (TokenStream.current s).kind ≠ .endOfFile)
    (hn : TokenStream.next s = .ok s') : Valid s' ∧ left s = TokenStream.current s :: left s'
  peek_left {s s' : σ} {k : TokenKind} (h : Valid s) (hp : TokenStream.peek s = .ok (k, s')) :
    Valid s' ∧ left s' = left s

namespace Supply

open Grammar

variable {σ α β : Type} [TokenStream σ] (S : Supply σ)

def ration (s : σ) : Rationed σ := ⟨s, (S.left s).length, S.refusal⟩

/-- The same value, in a state behind `s` with as many moves as it has tokens left. Some token has
been passed if `strict` holds. -/
structure Spent (strict : Bool) (s : σ) (x : α × σ) (y : α × Rationed σ) : Prop where
  value : x.1 = y.1
  state : y.2 = S.ration x.2
  valid : S.Valid x.2
  suffix : S.left x.2 <:+ S.left s
  fewer : (S.left x.2).length + strict.toNat ≤ (S.left s).length

/-- From a token of kind `t` with at most `k` tokens left the parsers come to the same, although the
second one has no more moves than there are tokens. -/
def Lasts (t : TokenKind) (k : Nat) (strict : Bool) (p : Parser σ α) (q : Parser (Rationed σ) α) :
    Prop :=
  ∀ s, S.Valid s → (TokenStream.current s).kind = t → (S.left s).length ≤ k →
    Except.Related Eq (S.Spent strict s) (p s) (q (S.ration s))

variable {S} {t : TokenKind} {j k : Nat} {strict strict' : Bool}
variable {p p' : Parser σ α} {q q' : Parser (Rationed σ) α}

theorem Spent.start {s : σ} (hs : S.Valid s) (a : α) : S.Spent false s (a, s) (a, S.ration s) :=
  ⟨rfl, rfl, hs, List.suffix_rfl, Nat.le_refl _⟩

/-- What the second parser comes to is what the first one comes to, with the moves that are left. -/
theorem Lasts.eq_map (h : S.Lasts t k strict p q) {s : σ} (hs : S.Valid s)
    (ht : (TokenStream.current s).kind = t) (hk : (S.left s).length ≤ k) :
    q (S.ration s) = (p s).map fun x => (x.1, S.ration x.2) := by
  have hr := h s hs ht hk
  generalize p s = x, q (S.ration s) = y at hr
  cases hr with
  | error he => rw [he]; rfl
  | ok hv => exact congrArg Except.ok (Prod.ext hv.value.symm hv.state)

theorem Lasts.unique (h : S.Lasts t k strict p q) (h' : S.Lasts t k strict' p' q) {s : σ}
    (hs : S.Valid s) (ht : (TokenStream.current s).kind = t) (hk : (S.left s).length ≤ k) :
    p s = p' s := by
  have forget (x : Except ParseError (α × σ)) :
      (x.map fun x => (x.1, S.ration x.2)).map (fun x => (x.1, x.2.stream)) = x := by
    cases x <;> rfl
  rw [← forget (p s), ← h.eq_map hs ht hk, h'.eq_map hs ht hk, forget]

theorem Lasts.mono (h : S.Lasts t k strict p q) (hj : j ≤ k) : S.Lasts t j strict p q :=
  fun s hs ht hk => h s hs ht (hk.trans hj)

theorem Lasts.pure (a : α) : S.Lasts t k false (Pure.pure a) (Pure.pure a) :=
  fun _ hs _ _ => .ok (.start hs a)

theorem Lasts.fail (e : SyntaxError) : S.Lasts t k strict (Grammar.fail e : Parser σ α)
    (Grammar.fail e) :=
  fun _ _ _ _ => .error rfl

/-- The results in a sequence, where a parser that passes a token leaves fewer to the next one. -/
theorem Lasts.bind_le {f : α → Parser σ β} {g : α → Parser (Rationed σ) β}
    (hp : S.Lasts t k strict p q)
    (hf : strict.toNat ≤ k → ∀ a u, S.Lasts u (k - strict.toNat) strict' (f a) (g a)) {total : Bool}
    (htotal : total.toNat ≤ strict.toNat + strict'.toNat) :
    S.Lasts t k total (p >>= f) (q >>= g) := by
  intro s hs ht hk
  have h := hp s hs ht hk
  change Except.Related _ _ ((p s).bind fun x => f x.1 x.2)
    ((q (S.ration s)).bind fun y => g y.1 y.2)
  generalize p s = x, q (S.ration s) = y at h
  cases h with
  | error he => exact .error he
  | @ok x y hv =>
    obtain ⟨a, s'⟩ := x
    obtain ⟨b, r⟩ := y
    obtain ⟨rfl, rfl, hs', hsuffix, hfewer⟩ := hv
    dsimp only at hs' hsuffix hfewer
    have hnext := hf (by omega) a _ s' hs' rfl (by omega)
    change Except.Related _ _ (f a s') (g a (S.ration s'))
    generalize f a s' = x, g a (S.ration s') = y at hnext
    cases hnext with
    | error he => exact .error he
    | ok hv =>
      have hfewer' := hv.fewer
      refine .ok ⟨hv.value, hv.state, hv.valid, hv.suffix.trans hsuffix, ?_⟩
      omega

theorem Lasts.step {f : α → Parser σ β} {g : α → Parser (Rationed σ) β} (hp : S.Lasts t k true p q)
    (hf : 0 < k → ∀ a u, S.Lasts u (k - 1) false (f a) (g a)) :
    S.Lasts t k strict (p >>= f) (q >>= g) :=
  hp.bind_le hf strict.toNat_le

theorem Lasts.bind {f : α → Parser σ β} {g : α → Parser (Rationed σ) β}
    (hp : S.Lasts t k strict p q) (hf : ∀ a u, S.Lasts u k strict' (f a) (g a)) :
    S.Lasts t k strict' (p >>= f) (q >>= g) :=
  hp.bind_le (fun _ a u => (hf a u).mono (Nat.sub_le _ _)) (Nat.le_add_left _ _)

theorem Lasts.map (f : α → β) (h : S.Lasts t k strict p q) :
    S.Lasts t k strict (f <$> p) (f <$> q) := by
  simp only [map_eq_pure_bind]
  exact h.bind_le (fun _ a u => .pure (f a)) (Nat.le_refl _)

theorem Lasts.of_ended (h : t = .endOfFile → S.Lasts t 0 strict p q) : S.Lasts t 0 strict p q :=
  fun s hs ht hk =>
    h (ht ▸ (S.left_eq_nil_iff hs).1 (List.length_eq_zero_iff.1 (Nat.le_zero.1 hk))) s hs ht hk

theorem Lasts.current_bind {f : Token → Parser σ α} {g : Token → Parser (Rationed σ) α}
    (h : ∀ token : Token, token.kind = t → S.Lasts t k strict (f token) (g token)) :
    S.Lasts t k strict (current >>= f) (current >>= g) :=
  fun s hs ht hk => h _ ht s hs ht hk

theorem Lasts.kind_bind {f : TokenKind → Parser σ α} {g : TokenKind → Parser (Rationed σ) α}
    (h : S.Lasts t k strict (f t) (g t)) : S.Lasts t k strict (kind >>= f) (kind >>= g) := by
  intro s hs ht hk
  have := h s hs ht hk
  subst ht
  exact this

theorem Lasts.place_bind {f : Place → Parser σ α} {g : Place → Parser (Rationed σ) α}
    (h : ∀ place, S.Lasts t k strict (f place) (g place)) :
    S.Lasts t k strict (place >>= f) (place >>= g) :=
  fun s hs ht hk => h _ s hs ht hk

theorem Lasts.ite {c : Prop} [Decidable c] (h : c → S.Lasts t k strict p q)
    (h' : ¬ c → S.Lasts t k strict p' q') :
    S.Lasts t k strict (if c then p else p') (if c then q else q') := by
  split
  · exact h ‹c›
  · exact h' ‹¬ c›

theorem Lasts.check_bind {c : TokenKind} (hc : t = c → S.Lasts t k strict p q)
    (h : S.Lasts t k strict p' q') :
    S.Lasts t k strict (check c >>= fun b => if b then p else p')
      (check c >>= fun b => if b then q else q') := by
  refine Lasts.kind_bind (f := fun k => if (k == c) = true then p else p')
    (g := fun k => if (k == c) = true then q else q') ?_
  exact .ite (fun ht => hc (beq_iff_eq.1 ht)) fun _ => h

theorem Lasts.unexpected (expected : Expectation) :
    S.Lasts t k strict (unexpected expected : Parser σ α) (unexpected expected) :=
  .current_bind fun _ _ => .fail _

theorem Lasts.advance (ht : t ≠ .endOfFile) :
    S.Lasts t k true (advance : Parser σ Token) advance := by
  rintro s hs rfl hk
  have hmoves : ¬ ((S.left s).length = 0 ∨ (TokenStream.current s).kind = .endOfFile) := by
    rw [List.length_eq_zero_iff, S.left_eq_nil_iff hs, or_self]
    exact ht
  have hnext : TokenStream.next (S.ration s) =
      (TokenStream.next s).map fun s' => ⟨s', (S.left s).length - 1, S.refusal⟩ := if_neg hmoves
  unfold Grammar.advance
  rw [hnext]
  cases hn : TokenStream.next s with
  | error e => exact .error rfl
  | ok s' =>
    obtain ⟨hs', hleft⟩ := S.next_left hs ht hn
    have hration : (⟨s', (S.left s).length - 1, S.refusal⟩ : Rationed σ) = S.ration s' := by
      rw [ration, hleft, List.length_cons, Nat.add_sub_cancel]
    exact .ok ⟨rfl, hration, hs', hleft ▸ List.suffix_cons _ _, hleft ▸ Nat.le_refl _⟩

theorem Lasts.peek (ht : t ≠ .endOfFile) :
    S.Lasts t k false (peek : Parser σ TokenKind) peek := by
  rintro s hs rfl hk
  have hpeek : TokenStream.peek (S.ration s) =
      (TokenStream.peek s).map fun x => (x.1, ⟨x.2, (S.left s).length, S.refusal⟩) := if_neg ht
  unfold Grammar.peek
  rw [hpeek]
  cases hp : TokenStream.peek s with
  | error e => exact .error rfl
  | ok x =>
    obtain ⟨hs', hleft⟩ := S.peek_left hs hp
    have hration : (⟨x.2, (S.left s).length, S.refusal⟩ : Rationed σ) = S.ration x.2 := by
      rw [ration, hleft]
    exact .ok ⟨rfl, hration, hs', hleft ▸ List.suffix_rfl, hleft ▸ Nat.le_refl _⟩

section Tokens

theorem Lasts.consume {c : TokenKind} (hc : c ≠ .endOfFile) :
    S.Lasts t k true (consume c : Parser σ Token) (consume c) :=
  .check_bind (fun ht => .advance (ht ▸ hc)) (.unexpected _)

theorem Lasts.word (w : Keyword) : S.Lasts t k true (word w : Parser σ Unit) (word w) :=
  .step (.consume nofun) fun _ _ _ => .pure _

theorem Lasts.identifier : S.Lasts t k true (identifier : Parser σ String) identifier :=
  .step (.consume nofun) fun _ _ _ => .pure _

theorem Lasts.memberName : S.Lasts t k true (memberName : Parser σ String) memberName := by
  refine .kind_bind ?_
  split
  · exact .step (.advance nofun) fun _ _ _ => .pure _
  · exact .step (.advance nofun) fun _ _ _ => .pure _
  · exact .unexpected _

theorem Lasts.skip (ht : t ≠ .endOfFile) :
    S.Lasts t k true (skip : Parser σ (List α)) skip :=
  .step (.advance ht) fun _ _ _ => .pure _

theorem Lasts.one (h : S.Lasts t k strict p q) : S.Lasts t k strict (one p) (one q) :=
  h.bind_le (fun _ a _ => .pure [a]) (Nat.le_refl _)

end Tokens

section Below

variable (S) in
/-- The parsers come to the same wherever fewer than `k` tokens are left. -/
def LastsBelow (k : Nat) (strict : Bool) (p : Parser σ α) (q : Parser (Rationed σ) α) : Prop :=
  ∀ t, ∀ j < k, S.Lasts t j strict p q

variable (S) in
/-- A parser that is refused unless fewer than `k` tokens are left. -/
def fewer (k : Nat) (p : Parser σ α) : Parser σ α := fun s =>
  if (S.left s).length < k then p s else .error (.lexical S.refusal)

theorem Lasts.below (h : ∀ t, S.Lasts t k strict p q) : S.LastsBelow k strict p q :=
  fun t _ hj => (h t).mono hj.le

theorem Lasts.below_succ (h : ∀ t, S.Lasts t k strict p q) : S.LastsBelow (k + 1) strict p q :=
  fun t _ hj => (h t).mono (Nat.le_of_lt_succ hj)

theorem LastsBelow.mono (h : S.LastsBelow k strict p q) (hj : j ≤ k) : S.LastsBelow j strict p q :=
  fun t _ hi => h t _ (Nat.lt_of_lt_of_le hi hj)

theorem LastsBelow.pred (h : S.LastsBelow k strict p q) (hk : 0 < k) (t : TokenKind) :
    S.Lasts t (k - 1) strict p q :=
  h t _ (Nat.sub_lt hk Nat.one_pos)

theorem LastsBelow.fewer (h : S.LastsBelow k strict p q) :
    S.LastsBelow k strict (S.fewer k p) q := by
  intro t j hj s hs ht hk
  rw [Supply.fewer, if_pos (Nat.lt_of_le_of_lt hk hj)]
  exact h t j hj s hs ht hk

end Below

end Supply

namespace Grammar

variable {σ α : Type} [TokenStream σ]

/-- A round of a sequence, and the rounds behind it. -/
def sequenceRound (step : TokenKind → Option (Parser σ (List α))) (rest : Parser σ (List α)) :
    Parser σ (List α) := do
  match step (← kind) with
  | none => return []
  | some item =>
    let xs ← item
    return xs ++ (← rest)

theorem sequence_succ (step : TokenKind → Option (Parser σ (List α))) (n : Nat) :
    sequence step (n + 1) = sequenceRound step (sequence step n) := rfl

def commaRound (item : Parser σ α) (rest : Parser σ (List α)) : Parser σ (List α) := do
  let x ← item
  if ← check .comma then
    let _ ← advance
    return x :: (← rest)
  else return [x]

theorem commaSeparated_succ (item : Parser σ α) (n : Nat) :
    commaSeparated item (n + 1) = commaRound item (commaSeparated item n) := rfl

theorem kind_bind_apply (f : TokenKind → Parser σ α) (s : σ) :
    (kind >>= f) s = f (TokenStream.current s).kind s := rfl

theorem sequence_ended {step : TokenKind → Option (Parser σ (List α))}
    (hend : step .endOfFile = none) (n : Nat) (s : σ)
    (hs : (TokenStream.current s).kind = .endOfFile) : sequence step n s = .ok ([], s) := by
  cases n with
  | zero => rfl
  | succ n =>
    rw [sequence, kind_bind_apply, hs, hend]
    rfl

end Grammar

namespace Supply

open Grammar

variable {σ α β : Type} [TokenStream σ] {S : Supply σ} {t : TokenKind} {j k n m : Nat}
variable {strict : Bool} {p : Parser σ α} {q : Parser (Rationed σ) α}

section Ends

/-- What gives a value at the end of a text without a move lasts when nothing is left. -/
theorem Lasts.ended {a : α} (h : ∀ s, (TokenStream.current s).kind = .endOfFile → p s = .ok (a, s))
    (h' : ∀ r, (TokenStream.current r).kind = .endOfFile → q r = .ok (a, r)) :
    S.Lasts t 0 false p q := by
  refine .of_ended ?_
  rintro rfl s hs ht -
  rw [h s ht, h' (S.ration s) ht]
  exact .ok (.start hs a)

theorem Lasts.ended_error {e : Token → ParseError}
    (h : ∀ s, (TokenStream.current s).kind = .endOfFile → p s = .error (e (TokenStream.current s)))
    (h' : ∀ r, (TokenStream.current r).kind = .endOfFile → q r = .error (e (TokenStream.current r))) :
    S.Lasts t 0 strict p q := by
  refine .of_ended ?_
  rintro rfl s hs ht -
  rw [h s ht, h' (S.ration s) ht]
  exact .error rfl

end Ends

section Loops

theorem Lasts.items_mono {x : Option (Parser σ α)} {y : Option (Parser (Rationed σ) α)}
    (h : Option.Rel (S.Lasts t k strict) x y) (hj : j ≤ k) :
    Option.Rel (S.Lasts t j strict) x y := by
  cases h with
  | none => exact .none
  | some h => exact .some (h.mono hj)

variable {step : TokenKind → Option (Parser σ (List α))}
variable {step' : TokenKind → Option (Parser (Rationed σ) (List α))}

theorem Lasts.sequenceRound (hstep : ∀ t, Option.Rel (S.Lasts t k true) (step t) (step' t))
    {rest : Parser σ (List α)} {rest' : Parser (Rationed σ) (List α)}
    (hrest : S.LastsBelow k false rest rest') :
    S.Lasts t k false (sequenceRound step rest) (sequenceRound step' rest') := by
  refine .kind_bind ?_
  have ht := hstep t
  generalize step t = x, step' t = y at ht
  cases ht with
  | none => exact .pure []
  | some hitem => exact .step hitem fun h xs u => .bind (hrest.pred h u) fun ys u => .pure _

theorem Lasts.sequence (hstep : ∀ t, Option.Rel (S.Lasts t k true) (step t) (step' t))
    (hend : step .endOfFile = none) (hk : k ≤ min n m) :
    S.Lasts t k false (sequence step n) (sequence step' m) := by
  have hend' : step' .endOfFile = none := by
    have hrel := hstep .endOfFile
    rw [hend] at hrel
    generalize step' .endOfFile = x at hrel ⊢
    cases hrel
    rfl
  -- By induction on the tokens that may be left, not on the rounds: each round takes one of them,
  -- and the rounds only have to be as many.
  induction k generalizing n m t with
  | zero => exact .ended (sequence_ended hend n) (sequence_ended hend' m)
  | succ k ih =>
    obtain ⟨n, rfl⟩ : ∃ n', n = n' + 1 := Nat.exists_eq_succ_of_ne_zero (by omega)
    obtain ⟨m, rfl⟩ : ∃ m', m = m' + 1 := Nat.exists_eq_succ_of_ne_zero (by omega)
    have hfewer := fun u => Lasts.items_mono (hstep u) (Nat.le_succ k)
    rw [sequence_succ, sequence_succ]
    exact .sequenceRound hstep (.below_succ fun u => ih hfewer (by omega))

theorem Lasts.commaRound (h : ∀ t, S.Lasts t k true p q)
    {rest : Parser σ (List α)} {rest' : Parser (Rationed σ) (List α)}
    (hrest : S.LastsBelow k true rest rest') :
    S.Lasts t k true (commaRound p rest) (commaRound q rest') := by
  refine .step (h t) fun hpos x u => .check_bind (fun hu => ?_) (.pure _)
  refine .bind (.advance (hu ▸ nofun)) fun _ u => ?_
  exact .bind (hrest.pred hpos u) fun xs u => .pure _

theorem Lasts.commaSeparated (h : ∀ t, S.Lasts t k true p q) (hk : k ≤ min n m) :
    S.Lasts t k true (commaSeparated p n) (commaSeparated q m) := by
  induction k generalizing n m t with
  | zero =>
    -- With nothing left the first item fails already.
    cases n <;> cases m <;> exact .step (h t) fun hpos => absurd hpos (Nat.lt_irrefl 0)
  | succ k ih =>
    obtain ⟨n, rfl⟩ : ∃ n', n = n' + 1 := Nat.exists_eq_succ_of_ne_zero (by omega)
    obtain ⟨m, rfl⟩ : ∃ m', m = m' + 1 := Nat.exists_eq_succ_of_ne_zero (by omega)
    have hfewer := fun u => (h u).mono (Nat.le_succ k)
    rw [commaSeparated_succ, commaSeparated_succ]
    exact .commaRound h (.below_succ fun u => ih hfewer (by omega))

theorem Lasts.parenthesized (h : ∀ t, S.Lasts t k true p q) (hk : k ≤ min n m) :
    S.Lasts t k true (parenthesized p n) (parenthesized q m) := by
  have hclose (xs : List α) (u : TokenKind) : S.Lasts u (k - 1) false
      (do let _ ← Grammar.consume .rightParen; return xs)
      (do let _ ← Grammar.consume .rightParen; return xs) :=
    .bind (.consume nofun) fun _ u => .pure _
  refine .step (.consume nofun) fun _ _ u => .check_bind (fun _ => ?_) ?_
  · exact .bind (.pure []) hclose
  · exact .bind (.commaSeparated (fun t => (h t).mono (Nat.sub_le k 1)) (by omega)) hclose

end Loops

end Supply

end VnScript
