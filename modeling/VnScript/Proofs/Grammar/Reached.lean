import VnScript.Proofs.Grammar.Lookahead

namespace VnScript

open Grammar

theorem Except.Related.of_ok {ε ε' α β : Type} {E : ε → ε' → Prop} {V : α → β → Prop} {a : α}
    {y : Except ε' β} (h : Except.Related E V (.ok a) y) : ∃ b, y = .ok b ∧ V a b := by
  cases h with
  | ok h => exact ⟨_, rfl, h⟩

section Streams

variable {σ : Type} [TokenStream σ] {P : σ → Prop}

/-- A stream goes along with itself, and what every move preserves is preserved by every
parser. -/
def Simulation.along (hnext : ∀ {s s'}, P s → TokenStream.next s = .ok s' → P s')
    (hpeek : ∀ {s k s'}, P s → TokenStream.peek s = .ok (k, s') → P s') : Simulation σ σ where
  states s t := s = t ∧ P s
  places := Eq
  errors := Eq
  current_similar h := h.1 ▸ ⟨rfl, rfl, rfl⟩
  next_related {s t} h := by
    obtain ⟨rfl, hs⟩ := h
    cases hn : TokenStream.next s with
    | error e => exact .error rfl
    | ok s' => exact .ok ⟨rfl, hnext hs hn⟩
  peek_related {s t} h := by
    obtain ⟨rfl, hs⟩ := h
    cases hp : TokenStream.peek s with
    | error e => exact .error rfl
    | ok x => exact .ok ⟨rfl, rfl, hpeek hs hp⟩

end Streams

/-- The states of the parser of a text: it starts at the first token, and then either moves to
the next one or looks at it. -/
inductive Cursor.Reached (source : String) : Cursor → Prop
  | start {c : Cursor} (h : ofString source = .ok c) : Reached source c
  | next {c c' : Cursor} (h : Reached source c) (hn : c.next = .ok c') : Reached source c'
  | peek {c c' : Cursor} {k : TokenKind} (h : Reached source c) (hp : c.peek = .ok (k, c')) :
    Reached source c'

def Cursor.behind (c : Cursor) : List Token :=
  match c.following with
  | (.ok token, lexer) => token :: lexer.scan.tokens
  | (.error _, _) => []

/-- The tokens that are left of a text but for its end. -/
def Cursor.left (c : Cursor) : List Token :=
  (c.current :: c.behind).takeWhile (·.kind ≠ .endOfFile)

/-- The tokens that are left of a text but for its end. -/
def Tape.left (t : Tape) : List Token :=
  (t.current :: t.pending).takeWhile (·.kind ≠ .endOfFile)

theorem Tape.words_eq (t : Tape) : t.words = t.left.map Token.word := rfl

/-- A tape with what is read from a text, at a token that has nothing behind it if it is
the end. -/
structure Tape.StandsIn (source : String) (t : Tape) : Prop where
  within : t.Within (Scan.ofString source).ending
  lexed : t.Lexed
  finished : t.current.kind = .endOfFile → t.pending = []

namespace Tape

variable {source : String} {t t' : Tape}

theorem finished_next (ht : ∀ token ∈ t.pending, token.word.Spelled) (h : t.next = .ok t')
    (hk : t'.current.kind = .endOfFile) : t'.pending = [] := by
  obtain ⟨token, rest, hpending, rfl⟩ | ⟨token, -, -, rfl⟩ := next_eq_ok h
  · have htoken := ht token (hpending ▸ List.mem_cons_self)
    exact absurd hk htoken.kind_ne_endOfFile
  · rfl

theorem standsIn_ofScan (h : ofScan (Scan.ofString source) = .ok t) : t.StandsIn source := by
  have hs := Scan.lexed_ofString source
  refine ⟨within_ofScan h, (lexed_ofScan hs h).1, fun hk => ?_⟩
  rw [ofScan_eq_next _ t.current] at h
  exact finished_next hs.tokens h hk

theorem StandsIn.next (h : t.StandsIn source) (hn : t.next = .ok t') :
    t'.StandsIn source ∧ t'.left <:+ t.left := by
  refine ⟨⟨h.within.next hn, (h.lexed.next hn).1, finished_next h.lexed.pending hn⟩, ?_⟩
  obtain ⟨token, rest, hpending, rfl⟩ | ⟨token, -, hending, rfl⟩ := next_eq_ok hn
  · have hk : t.current.kind ≠ .endOfFile := fun hk => by
      rw [h.finished hk] at hpending
      cases hpending
    rw [left, left, hpending, List.takeWhile_cons_of_pos (a := t.current) (by simpa using hk)]
    exact List.suffix_cons _ _
  · have hend := h.lexed.ending token hending
    simp [left, hend]

theorem StandsIn.left_eq_cons (h : t.StandsIn source) (hk : t.current.kind ≠ .endOfFile)
    (hn : t.next = .ok t') : t.left = t.current :: t'.left := by
  rw [left, List.takeWhile_cons_of_pos (a := t.current) (by simpa using hk)]
  obtain ⟨token, rest, hpending, rfl⟩ | ⟨token, hpending, hending, rfl⟩ := next_eq_ok hn
  · rw [hpending]
    rfl
  · have hend := h.lexed.ending token hending
    simp [left, hpending, hend]

end Tape

namespace Cursor

variable {source : String} {c c' : Cursor} {t : Tape} {k : TokenKind}

theorem Follows.left_eq (h : c.Follows t) : c.left = t.left := by
  obtain ⟨current, pending, ending⟩ := t
  obtain ⟨hc, l, hl, hscan⟩ := h
  unfold left behind Tape.left
  rcases hx : l.next with ⟨x, l'⟩
  rw [hc, hl, hx]
  -- One call of the lexer decides what is left behind the current token.
  cases x with
  | error e =>
    rw [Lexer.scan_fault hx] at hscan
    obtain ⟨rfl, -⟩ := Scan.mk.inj hscan
    rfl
  | ok token =>
    by_cases hk : token.kind = .endOfFile
    · rw [Lexer.scan_ending hx hk] at hscan
      obtain ⟨rfl, -⟩ := Scan.mk.inj hscan
      simp [List.takeWhile_cons, hk]
    · rw [Lexer.scan_token hx hk] at hscan
      obtain ⟨rfl, -⟩ := Scan.mk.inj hscan
      rfl

theorem Follows.next_eq_ok (h : c.Follows t) (hn : c.next = .ok c') :
    ∃ t', t.next = .ok t' ∧ c'.Follows t' := by
  have hr := h.next
  rw [hn] at hr
  exact hr.of_ok

theorem Follows.peek_eq_ok (h : c.Follows t) (hp : c.peek = .ok (k, c')) : c'.Follows t := by
  have hr := h.peek
  rw [hp] at hr
  obtain ⟨x, hx, -, hf⟩ := hr.of_ok
  cases hn : t.next with
  | error e =>
    rw [Tape.peek, hn] at hx
    cases hx
  | ok t' =>
    rw [Tape.peek, hn] at hx
    obtain rfl := Except.ok.inj hx
    exact hf

/-- In every state the parser stands where it would stand if all tokens had been read. -/
theorem Reached.tape (h : c.Reached source) : ∃ t, c.Follows t ∧ t.StandsIn source := by
  induction h with
  | @start c h =>
    have hr := ofString_related source
    rw [h] at hr
    obtain ⟨t, ht, hf⟩ := hr.of_ok
    exact ⟨t, hf, Tape.standsIn_ofScan ht⟩
  | next h hn ih =>
    obtain ⟨t, hf, ht⟩ := ih
    obtain ⟨t', hn', hf'⟩ := hf.next_eq_ok hn
    exact ⟨t', hf', (ht.next hn').1⟩
  | peek h hp ih =>
    obtain ⟨t, hf, ht⟩ := ih
    exact ⟨t, hf.peek_eq_ok hp, ht⟩

theorem Reached.next_left (h : c.Reached source) (hn : c.next = .ok c') : c'.left <:+ c.left := by
  obtain ⟨t, hf, ht⟩ := h.tape
  obtain ⟨t', hn', hf'⟩ := hf.next_eq_ok hn
  rw [hf.left_eq, hf'.left_eq]
  exact (ht.next hn').2

theorem Reached.peek_left (h : c.Reached source) (hp : c.peek = .ok (k, c')) :
    c'.left = c.left := by
  obtain ⟨t, hf, -⟩ := h.tape
  rw [hf.left_eq, (hf.peek_eq_ok hp).left_eq]

/-- What a parser preserves when it goes on from a state: it ends in a state, with no more
left of the text than before. -/
def onward (source : String) (c : Cursor) : Simulation Cursor Cursor :=
  .along (P := fun c' => c'.Reached source ∧ c'.left <:+ c.left)
    (fun h hn => ⟨h.1.next hn, (h.1.next_left hn).trans h.2⟩)
    (fun h hp => ⟨h.1.peek hp, h.1.peek_left hp ▸ h.2⟩)

end Cursor

end VnScript
