import VnScript.Proofs.Grammar.Phrase

namespace VnScript

open Grammar Word

namespace Tape

variable {s s' : Tape} {t : Token}

theorem words_of_end (h : s.current.kind = .endOfFile) : s.words = [] := by
  simp [words, h]

theorem words_of_ne_end (h : s.current.kind ≠ .endOfFile) :
    s.words = s.current.word :: (s.pending.takeWhile (·.kind ≠ .endOfFile)).map Token.word := by
  simp [words, h]

theorem advance_eq_ok (h : advance s = .ok (t, s')) : t = s.current ∧ s.next = .ok s' := by
  unfold advance at h
  split at h
  · next s'' hn =>
    obtain ⟨rfl, rfl⟩ := Prod.mk.inj (Except.ok.inj h)
    exact ⟨rfl, hn⟩
  · cases h

theorem Lexed.spelled (hs : s.Lexed) (hk : s.current.kind ≠ .endOfFile) :
    s.current.word.Spelled :=
  hs.current.resolve_left fun h => hk (hs.ending _ h)

/-- Whatever token comes before it, what is left behind it are the words of the next tape. -/
theorem lexed_next (hp : ∀ token ∈ s.pending, token.word.Spelled)
    (he : ∀ token, s.ending = .ok token → token.kind = .endOfFile) (hn : s.next = .ok s') :
    s'.Lexed ∧ s'.ending = s.ending ∧
      s'.words = (s.pending.takeWhile (·.kind ≠ .endOfFile)).map Token.word := by
  obtain ⟨token, rest, htokens, rfl⟩ | ⟨token, htokens, hend, rfl⟩ := next_eq_ok hn
  · rw [htokens] at hp ⊢
    have hrest (u : Token) (hu : u ∈ rest) := hp u (List.mem_cons_of_mem _ hu)
    exact ⟨⟨Or.inr (hp token List.mem_cons_self), hrest, he⟩, rfl, rfl⟩
  · rw [htokens]
    exact ⟨⟨Or.inl hend, nofun, he⟩, rfl, words_of_end (he token hend)⟩

theorem Lexed.next (hs : s.Lexed) (hn : s.next = .ok s') :
    s'.Lexed ∧ s'.ending = s.ending ∧
      (s.current.kind ≠ .endOfFile → s.words = s.current.word :: s'.words) := by
  obtain ⟨hs', hend, hwords⟩ := lexed_next hs.pending hs.ending hn
  exact ⟨hs', hend, fun hk => by rw [words_of_ne_end hk, hwords]⟩

end Tape

section Reads

variable {α β : Type}

/-- Where the parser succeeds from a token of the kind, the words that it consumes and
its value are related. -/
def ReadsAt (k : TokenKind) (p : Parser Tape α) (P : List Word → α → Prop) : Prop :=
  ∀ ⦃s a s'⦄, s.Lexed → s.current.kind = k → p s = .ok (a, s') →
    s'.Lexed ∧ s'.ending = s.ending ∧ ∃ ws, s.words = ws ++ s'.words ∧ P ws a

def Reads (p : Parser Tape α) (P : List Word → α → Prop) : Prop := ∀ k, ReadsAt k p P

variable {p : Parser Tape α} {f : α → Parser Tape β} {P Q : List Word → α → Prop}
  {R : List Word → β → Prop} {k : TokenKind}

theorem bind_eq_ok {s s' : Tape} {b : β} (h : (p >>= f) s = .ok (b, s')) :
    ∃ a t, p s = .ok (a, t) ∧ f a t = .ok (b, s') := by
  change ((p s).bind fun x => f x.1 x.2) = _ at h
  cases hx : p s with
  | error e =>
    rw [hx] at h
    cases h
  | ok x =>
    rw [hx] at h
    exact ⟨x.1, x.2, rfl, h⟩

theorem ReadsAt.bind (hp : ReadsAt k p P)
    (hf : ∀ u a, P u a → Reads (f a) fun v b => R (u ++ v) b) : ReadsAt k (p >>= f) R := by
  intro s b s' hs hk h
  obtain ⟨a, t, ht, hb⟩ := bind_eq_ok h
  obtain ⟨hs₁, he₁, u, hu, ha⟩ := hp hs hk ht
  obtain ⟨hs₂, he₂, v, hv, hb⟩ := hf u a ha _ hs₁ rfl hb
  refine ⟨hs₂, he₂.trans he₁, u ++ v, ?_, hb⟩
  rw [hu, hv, List.append_assoc]

theorem Reads.bind (hp : Reads p P)
    (hf : ∀ u a, P u a → Reads (f a) fun v b => R (u ++ v) b) : Reads (p >>= f) R :=
  fun k => (hp k).bind hf

theorem Reads.pure {a : α} (h : P [] a) : Reads (Pure.pure a) P := by
  intro k s a' s' hs hk heq
  obtain ⟨rfl, rfl⟩ := Prod.mk.inj (Except.ok.inj heq)
  exact ⟨hs, rfl, [], rfl, h⟩

theorem ReadsAt.imp (hp : ReadsAt k p P) (h : ∀ ws a, P ws a → Q ws a) : ReadsAt k p Q := by
  intro s a s' hs hk heq
  obtain ⟨hs', he, ws, hw, ha⟩ := hp hs hk heq
  exact ⟨hs', he, ws, hw, h ws a ha⟩

theorem Reads.imp (hp : Reads p P) (h : ∀ ws a, P ws a → Q ws a) : Reads p Q :=
  fun k => (hp k).imp h

theorem ReadsAt.head (hp : ReadsAt k p P) (hk : k ≠ .endOfFile) (hne : ∀ ws a, P ws a → ws ≠ []) :
    ReadsAt k p fun ws a => P ws a ∧ ∃ w ws', ws = w :: ws' ∧ w.kind = k := by
  intro s a s' hs hsk heq
  obtain ⟨hs', he, ws, hw, ha⟩ := hp hs hsk heq
  refine ⟨hs', he, ws, hw, ha, ?_⟩
  rw [Tape.words_of_ne_end (by rwa [hsk])] at hw
  cases ws with
  | nil => exact absurd rfl (hne [] a ha)
  | cons w ws =>
    obtain ⟨rfl, -⟩ := List.cons.inj hw
    exact ⟨_, ws, rfl, hsk⟩

theorem ReadsAt.map {g : α → β} (hp : ReadsAt k p P) (h : ∀ ws a, P ws a → R ws (g a)) :
    ReadsAt k (do return g (← p)) R :=
  hp.bind fun u a ha => .pure (by simpa using h u a ha)

theorem Reads.map {g : α → β} (hp : Reads p P) (h : ∀ ws a, P ws a → R ws (g a)) :
    Reads (do return g (← p)) R :=
  fun k => (hp k).map h

theorem Reads.fail (e : SyntaxError) : Reads (fail e) P := by
  intro k s a s' hs hk heq
  cases heq

theorem Reads.unexpected (expected : Expectation) : Reads (unexpected expected) P := by
  intro k s a s' hs hk heq
  cases heq

theorem Reads.kind {f : TokenKind → Parser Tape β} (h : ∀ k, ReadsAt k (f k) R) :
    Reads (kind >>= f) R := by
  intro k s b s' hs hk heq
  exact h s.current.kind hs rfl heq

theorem ReadsAt.check {f : Bool → Parser Tape β} {k' : TokenKind}
    (h : k = k' → ReadsAt k (f true) R) (h' : ReadsAt k (f false) R) :
    ReadsAt k (check k' >>= f) R := by
  intro s b s' hs hk heq
  change f (s.current.kind == k') s = _ at heq
  by_cases hk' : s.current.kind = k'
  · rw [beq_iff_eq.2 hk'] at heq
    exact h (hk.symm.trans hk') hs hk heq
  · rw [beq_eq_false_iff_ne.2 hk'] at heq
    exact h' hs hk heq

theorem Reads.check {f : Bool → Parser Tape β} {k' : TokenKind} (h : ReadsAt k' (f true) R)
    (h' : Reads (f false) R) : Reads (check k' >>= f) R :=
  fun k => .check (fun hk => hk ▸ h) (h' k)

theorem Reads.place {f : Place → Parser Tape β} (h : ∀ place, Reads (f place) R) :
    Reads (place >>= f) R := by
  intro k s b s' hs hk heq
  exact h _ k hs hk heq

theorem ReadsAt.place {f : Place → Parser Tape β} (h : ∀ place, ReadsAt k (f place) R) :
    ReadsAt k (Grammar.place >>= f) R := by
  intro s b s' hs hk heq
  exact h _ hs hk heq

theorem ReadsAt.peek {f : TokenKind → Parser Tape β} (h : ∀ k', ReadsAt k (f k') R) :
    ReadsAt k (peek >>= f) R := by
  intro s b s' hs hk heq
  change (((s.next.map fun t' => (t'.current.kind, s)).mapError ParseError.lexical).bind
    fun x => f x.1 x.2) = _ at heq
  cases hn : s.next with
  | error e =>
    rw [hn] at heq
    cases heq
  | ok s'' =>
    rw [hn] at heq
    exact h _ hs hk heq

end Reads

section Words

theorem advance_reads {k : TokenKind} (hk : k ≠ .endOfFile) :
    ReadsAt k advance fun ws t => ws = [t.word] ∧ t.kind = k ∧ t.word.Spelled := by
  intro s t s' hs hsk h
  obtain ⟨rfl, hn⟩ := Tape.advance_eq_ok h
  obtain ⟨hs', he, hw⟩ := hs.next hn
  rw [← hsk] at hk
  exact ⟨hs', he, [s.current.word], hw hk, rfl, hsk, hs.spelled hk⟩

theorem advance_sym {k : TokenKind} (hk : k.text?.isSome) :
    ReadsAt k advance fun ws _ => ws = [sym k] := by
  intro s t s' hs hsk h
  have hne : k ≠ .endOfFile := by
    rintro rfl
    cases hk
  obtain ⟨hs', he, ws, hw, rfl, htk, hsp⟩ := advance_reads hne hs hsk h
  exact ⟨hs', he, _, hw, by rw [hsp.eq_sym htk hk]⟩

theorem consume_sym {k : TokenKind} (hk : k.text?.isSome) :
    Reads (consume k) fun ws _ => ws = [sym k] :=
  .check (advance_sym hk) (.unexpected _)

theorem word_reads (k : Keyword) : Reads (word k) fun ws _ => ws = [key k] :=
  (consume_sym rfl).map fun _ _ h => h

theorem identifier_reads :
    Reads identifier fun ws name => ws = [ofName name] ∧ IsName name := by
  have h : Reads (consume .identifier) fun ws t =>
      ws = [t.word] ∧ t.kind = .identifier ∧ t.word.Spelled :=
    .check (advance_reads (by decide)) (.unexpected _)
  refine h.map fun ws t ht => ?_
  obtain ⟨rfl, hk, hs⟩ := ht
  obtain ⟨hi, hw⟩ := hs.identifier hk
  exact ⟨by rw [hw]; rfl, hi⟩

theorem memberName_reads :
    Reads memberName fun ws m => ws = [ofName m] ∧ IsMemberName m := by
  refine .kind fun k => ?_
  split
  · refine (advance_reads (by decide)).map fun ws t ht => ?_
    obtain ⟨rfl, hk, hs⟩ := ht
    obtain ⟨hi, hw⟩ := hs.identifier hk
    exact ⟨by rw [hw]; rfl, hi.1⟩
  · next word =>
    refine (advance_reads (by simp)).map fun ws t ht => ?_
    obtain ⟨rfl, hk, hs⟩ := ht
    have hw := hs.eq_key hk
    have hl : t.lexeme = word.text := congrArg Word.lexeme hw
    refine ⟨?_, ?_⟩
    · rw [hl, hw, key_eq_ofName]
    · rw [hl]
      exact word.isWord
  · exact Reads.unexpected _ _

end Words

section Lists

variable {α : Type} {P : List Word → List α → Prop} {I : List Word → α → Prop}

theorem Reads.sequence {step : TokenKind → Option (Parser Tape (List α))} (hnil : P [] [])
    (hitem : ∀ k item, step k = some item →
      ReadsAt k item fun ws xs => ∀ ws' ys, P ws' ys → P (ws ++ ws') (xs ++ ys)) (n : Nat) :
    Reads (sequence step n) P := by
  induction n with
  | zero => exact .pure hnil
  | succ n ih =>
    refine .kind fun k => ?_
    cases hk : step k with
    | none => exact Reads.pure hnil k
    | some item => exact (hitem k item hk).bind fun u xs hu => ih.map fun v ys hv => hu v ys hv

/-- With as many rounds as there are words, only an item that is not there ends a sequence. -/
theorem sequence_stops {step : TokenKind → Option (Parser Tape (List α))}
    (hitem : ∀ k item, step k = some item → ReadsAt k item fun ws _ => ws ≠ []) (n : Nat)
    {s s' : Tape} {xs : List α} (hs : s.Lexed) (hn : s.words.length ≤ n)
    (h : sequence step n s = .ok (xs, s')) : step s'.current.kind = none ∨ s'.words = [] := by
  induction n generalizing s xs with
  | zero =>
    obtain ⟨-, rfl⟩ := Prod.mk.inj (Except.ok.inj h)
    exact Or.inr (List.length_eq_zero_iff.1 (Nat.le_zero.1 hn))
  | succ n ih =>
    obtain ⟨k, t, hk, h⟩ := bind_eq_ok h
    obtain ⟨rfl, rfl⟩ := Prod.mk.inj (Except.ok.inj hk)
    cases hstep : step (TokenStream.current s).kind with
    | none =>
      rw [hstep] at h
      obtain ⟨-, rfl⟩ := Prod.mk.inj (Except.ok.inj h)
      exact Or.inl hstep
    | some item =>
      rw [hstep] at h
      obtain ⟨ys, u, hy, h⟩ := bind_eq_ok h
      obtain ⟨zs, v, hz, h⟩ := bind_eq_ok h
      obtain ⟨-, rfl⟩ := Prod.mk.inj (Except.ok.inj h)
      -- An item takes a word at least, so the rounds do not run out before the words.
      obtain ⟨hu, -, ws, hw, hne⟩ := hitem _ item hstep hs rfl hy
      have hlen := congrArg List.length hw
      have hpos := List.length_pos_iff.2 hne
      rw [List.length_append] at hlen
      exact ih hu (by omega) hz

theorem Reads.commaSeparated {item : Parser Tape α} (h : Reads item I) (n : Nat) :
    Reads (commaSeparated item n) (Separated I) := by
  induction n with
  | zero => exact h.map fun ws a ha => .last ha
  | succ n ih =>
    refine h.bind fun u a ha => .check ?_ (.pure ?_)
    · refine (advance_sym rfl).bind fun _ _ hc => ih.map fun v as has => ?_
      subst hc
      exact .cons ha has
    · simpa using Separated.last ha

theorem Reads.parenthesized {item : Parser Tape α} (h : Reads item I) (n : Nat) :
    Reads (parenthesized item n) (Enclosed I) := by
  have hclose (u : List Word) (as : List α) (hu : Enclosed I (u ++ [sym .rightParen]) as) :
      Reads (do let _ ← consume .rightParen; return as : Parser Tape _)
        fun ws as => Enclosed I (u ++ ws) as :=
    (consume_sym rfl).map fun ws _ hw => hw ▸ hu
  refine (consume_sym rfl).bind fun _ _ hl => .check ?_ ?_
  all_goals subst hl
  · exact (Reads.pure (P := fun ws as => ws = [] ∧ as = []) ⟨rfl, rfl⟩ _).bind
      fun u as ⟨hu, has⟩ => by subst hu has; exact hclose _ [] .empty
  · refine (h.commaSeparated n).bind fun u as has => ?_
    have := hclose (sym .leftParen :: u) as (.items has)
    simpa using this

end Lists

section Expressions

variable {e : Parser Tape Expr} {n : Nat}

theorem Separated.items {ws : List Word} {es : List Expr}
    (h : Separated (fun ws e => e.Phrase ws) ws es) : ExprPhrase ws (.items es) := by
  induction h with
  | last h => exact .lastItem h
  | cons h rest ih => exact .item h ih

theorem arguments_reads (h : Reads e fun ws e => e.Phrase ws) :
    Reads (arguments n e) fun ws es => ExprPhrase ws (.arguments es) := by
  refine (h.parenthesized n).imp fun ws es hes => ?_
  cases hes with
  | empty => exact .noArguments
  | items h => exact .arguments h.items

theorem chain_reads {levels : List (TokenKind → Option Operator)}
    (level : TokenKind → Option Operator) (hlevel : level .endOfFile = none)
    (h : Reads e fun ws e => ExprPhrase ws (.binary levels e)) (n : Nat) (u : List Word)
    (left : Expr) (hleft : ExprPhrase u (.binary (level :: levels) left)) :
    Reads (chain level e n left) fun ws e => ExprPhrase (u ++ ws) (.binary (level :: levels) e) := by
  induction n generalizing u left with
  | zero => exact .pure (by simpa using hleft)
  | succ n ih =>
    refine .kind fun k => ?_
    cases hk : level k with
    | none => exact Reads.pure (by simpa using hleft) k
    | some op =>
      have hne : k ≠ .endOfFile := by
        rintro rfl
        rw [hlevel] at hk
        cases hk
      refine (advance_reads hne).bind fun _ t ht => h.bind fun v right hright => ?_
      obtain ⟨rfl, rfl, hs⟩ := ht
      have hchain := ih _ _ (.operation hleft hs hk hright)
      simpa using hchain

theorem binary_reads (h : Reads e fun ws e => ExprPhrase ws (.primary e)) (n : Nat)
    (ls : List (TokenKind → Option Operator)) (hls : ∀ level ∈ ls, level .endOfFile = none) :
    Reads (binary n e ls) fun ws e => ExprPhrase ws (.binary ls e) := by
  induction ls with
  | nil => exact h.imp fun ws e he => .operand he
  | cons level ls ih =>
    obtain ⟨hlevel, hls⟩ := List.forall_mem_cons.1 hls
    exact (ih hls).bind fun u left hleft => chain_reads level hlevel (ih hls) n u left (.tighter hleft)

theorem literal_reads {k : TokenKind} (hk : k ≠ .endOfFile) :
    ReadsAt k literal fun ws e => ExprPhrase ws (.primary e) := by
  refine (advance_reads hk).bind fun _ t ht => ?_
  obtain ⟨rfl, -, hs⟩ := ht
  cases hl : literal? t.kind t.lexeme with
  | none => exact .fail _
  | some e => exact .pure (.literal hs hl)

theorem memberOrCall_reads (h : Reads e fun ws e => e.Phrase ws) {k : TokenKind}
    (hk : k.text?.isSome) {name : String} {receiver : Receiver} {access : String → Expr}
    (haccess : ∀ m, IsMemberName m → ExprPhrase [sym k, ofName m] (.suffix name (access m)))
    (hcall : ∀ m ws es, IsMemberName m → ExprPhrase ws (.arguments es) →
      ExprPhrase (sym k :: ofName m :: ws) (.suffix name (.call receiver m es))) :
    ReadsAt k (memberOrCall n e receiver access) fun ws e => ExprPhrase ws (.suffix name e) := by
  refine (advance_sym hk).bind fun _ _ hw => memberName_reads.bind fun _ m hm => ?_
  obtain ⟨rfl, hm⟩ := hm
  subst hw
  refine .check (ReadsAt.map (arguments_reads h _) fun ws es hes => ?_) (.pure ?_)
  · exact hcall m ws es hm hes
  · exact haccess m hm

theorem named_reads (h : Reads e fun ws e => e.Phrase ws) (name : String) :
    Reads (named n e name) fun ws e => ExprPhrase ws (.suffix name e) := by
  refine .kind fun k => ?_
  split
  · exact memberOrCall_reads h rfl (fun m => .spaceMember) fun m ws es => .spaceCall
  · exact memberOrCall_reads h rfl (fun m => .member) fun m ws es => .memberCall
  · exact ReadsAt.map (arguments_reads h _) fun ws es => .freeCall
  · exact Reads.pure .alone _

theorem isUsable_instanceName : IsUsable instanceName := Or.inr rfl

theorem instanceExpression_reads (h : Reads e fun ws e => e.Phrase ws) :
    Reads (instanceExpression n e) fun ws e => ExprPhrase ws (.primary e) := by
  refine (word_reads _).bind fun _ _ hw => .check ?_ ?_
  all_goals subst hw
  · refine ReadsAt.bind (identifier_reads _) fun _ first hfirst => .check ?_ ?_
    all_goals obtain ⟨rfl, hfirst⟩ := hfirst
    · refine (advance_sym rfl).bind fun _ _ hw => identifier_reads.bind fun _ type htype => ?_
      obtain ⟨rfl, htype⟩ := htype
      subst hw
      exact (arguments_reads h).map fun ws es hes => .createIn hfirst htype hes
    · exact (arguments_reads h).map fun ws es hes => .create hfirst hes
  · refine (named_reads h instanceName).imp fun ws e he => ?_
    exact .named isUsable_instanceName he

theorem classCall_reads (h : Reads e fun ws e => e.Phrase ws) :
    ReadsAt (.keyword .classWord) (classCall n e) fun ws e => ExprPhrase ws (.primary e) := by
  refine (advance_sym rfl).bind fun _ _ hw => (consume_sym rfl).bind fun _ _ hd => ?_
  refine memberName_reads.bind fun _ m hm => ?_
  obtain ⟨rfl, hm⟩ := hm
  subst hw hd
  exact (arguments_reads h).map fun ws es hes => .classCall hm hes

theorem primary_reads (h : Reads e fun ws e => e.Phrase ws) :
    Reads (primary n e) fun ws e => ExprPhrase ws (.primary e) := by
  refine .kind fun k => ?_
  split
  any_goals exact literal_reads (by decide)
  · exact (advance_sym rfl).map fun _ _ hw => hw ▸ .true
  · exact (advance_sym rfl).map fun _ _ hw => hw ▸ .false
  · exact instanceExpression_reads h _
  · exact classCall_reads h
  · refine (advance_reads (by decide)).bind fun _ t ht => ?_
    obtain ⟨rfl, hk, hs⟩ := ht
    obtain ⟨hi, hw⟩ := hs.identifier hk
    refine (named_reads h t.lexeme).imp fun ws e he => ?_
    rw [hw]
    exact .named (Or.inl hi) he
  · exact Reads.unexpected _ _

theorem comparison_reads (h : Reads e fun ws e => e.Phrase ws) :
    Reads (comparison n e) fun ws e => ExprPhrase ws (.binary levels e) :=
  binary_reads (primary_reads h) n levels (by decide)

theorem assignment_reads (h : Reads e fun ws e => e.Phrase ws) :
    Reads (assignment n e) fun ws e => e.Phrase ws := by
  refine (comparison_reads h).bind fun u target ht => .kind fun k => ?_
  cases hk : assignment? k with
  | none => exact Reads.pure (by simpa using ExprPhrase.value ht) k
  | some op =>
    have hne : k ≠ .endOfFile := by
      rintro rfl
      cases hk
    refine .place fun place => ?_
    split
    · refine (advance_reads hne).bind fun _ t hw => h.map fun v value hv => ?_
      obtain ⟨rfl, rfl, hs⟩ := hw
      exact .assign ht hs hk hv
    · refine (advance_reads hne).bind fun _ t hw => h.map fun v value hv => ?_
      obtain ⟨rfl, rfl, hs⟩ := hw
      exact .assignMember ht hs hk hv
    · exact Reads.fail _ _

theorem expression_reads (n : Nat) : Reads (expression n) fun ws e => e.Phrase ws := by
  induction n with
  | zero => exact .unexpected _
  | succ n ih => exact assignment_reads ih

end Expressions

section Statements

variable {e : Parser Tape Expr} {p : Parser Tape Stmt} {n : Nat}

theorem declaredValue_reads (he : Reads e fun ws e => e.Phrase ws) :
    Reads (declaredValue e) ValuePhrase := by
  refine .check ?_ (.pure .none)
  exact (advance_sym rfl).bind fun _ _ hw => he.map fun ws e he => hw ▸ .some he

theorem condition_reads (he : Reads e fun ws e => e.Phrase ws) :
    Reads (condition e) fun ws e =>
      ∃ v, ws = sym .leftParen :: v ++ [sym .rightParen] ∧ e.Phrase v := by
  refine (consume_sym rfl).bind fun _ _ hl => he.bind fun v e hv => ?_
  refine (consume_sym rfl).map fun _ _ hr => ⟨v, ?_, hv⟩
  rw [hl, hr]
  rfl

theorem block_reads (h : Reads p fun ws s => StmtPhrase ws (.statement s)) :
    Reads (block n p) fun ws b => StmtPhrase ws (.block b) := by
  have hitem (k : TokenKind) (item : Parser Tape (List Stmt)) (hk : blockItem p k = some item) :
      ReadsAt k item fun ws xs => ∀ ws' ys, StmtPhrase ws' (.statements ys) →
        StmtPhrase (ws ++ ws') (.statements (xs ++ ys)) := by
    unfold blockItem at hk
    split at hk
    · cases hk
    · obtain rfl := Option.some.inj hk
      exact ReadsAt.map (h k) fun ws s hs ws' ys hys => .cons hs hys
  refine (consume_sym rfl).bind fun _ _ hl => ?_
  refine (Reads.sequence (P := fun ws ss => StmtPhrase ws (.statements ss)) .nil hitem n).bind
    fun v b hb => (consume_sym rfl).map fun _ _ hr => ?_
  rw [hl, hr]
  exact .block hb

theorem clause_reads (he : Reads e fun ws e => e.Phrase ws)
    (h : Reads p fun ws s => StmtPhrase ws (.statement s)) :
    Reads (clause n e p) fun ws c =>
      ∃ e b, c = .mk e b [] none ∧ StmtPhrase ws (.clause e b) := by
  refine (condition_reads he).bind fun _ e hv => (block_reads h).map fun ws b hb => ?_
  obtain ⟨v, rfl, hv⟩ := hv
  exact ⟨e, b, rfl, by simpa using StmtPhrase.clause hv hb⟩

theorem furtherClauses_reads (he : Reads e fun ws e => e.Phrase ws)
    (h : Reads p fun ws s => StmtPhrase ws (.statement s)) (m : Nat) :
    Reads (furtherClauses n e p m) fun ws c => StmtPhrase ws (.further c.1 c.2) := by
  induction m with
  | zero => exact .pure .noFurther
  | succ m ih =>
    -- Another clause is begun by one word or by two, the `u`, and read alike behind them.
    have hclause (u : List Word) (hu : ∀ ws ws' e b cs o, StmtPhrase ws (.clause e b) →
        StmtPhrase ws' (.further cs o) →
        StmtPhrase (u ++ (ws ++ ws')) (.further (.mk e b [] none :: cs) o)) :
        Reads (do
          let c ← clause n e p
          let further ← furtherClauses n e p m
          return (c :: further.1, further.2)) fun ws c => StmtPhrase (u ++ ws) (.further c.1 c.2) := by
      refine (clause_reads he h).bind fun ws c hc => ih.map fun ws' further hf => ?_
      obtain ⟨e, b, rfl, hc⟩ := hc
      exact hu ws ws' e b further.1 further.2 hc hf
    refine .kind fun k => ?_
    split
    · refine (advance_sym rfl).bind fun _ _ hw => hclause _ fun ws ws' e b cs o hc hf => ?_
      subst hw
      have hw := StmtPhrase.elseIf hc hf
      rwa [List.cons_append] at hw
    · refine (advance_sym rfl).bind fun _ _ hw => .check ?_ ?_
      all_goals subst hw
      · refine (advance_sym rfl).bind fun _ _ hw => ?_
        subst hw
        simp only [← List.append_assoc]
        exact hclause _ fun ws ws' e b cs o => .elseThenIf
      · exact (block_reads h).map fun ws b => .orElse
    · exact Reads.pure .noFurther _

theorem conditional_reads (he : Reads e fun ws e => e.Phrase ws)
    (h : Reads p fun ws s => StmtPhrase ws (.statement s)) :
    Reads (conditional n e p) fun ws s => StmtPhrase ws (.statement s) := by
  refine (word_reads _).bind fun _ _ hw => (condition_reads he).bind fun _ e hv => ?_
  obtain ⟨v, rfl, hv⟩ := hv
  refine (block_reads h).bind fun w b hb => (furtherClauses_reads he h n).map fun ws c hc => ?_
  subst hw
  simpa using StmtPhrase.conditional (.clause hv hb) hc

theorem text_isSome_of_variableType {k : TokenKind} {type : VariableType}
    (h : variableType? k = some type) : k.text?.isSome := by
  unfold variableType? at h
  split at h <;> first | rfl | cases h

theorem forIn_reads (he : Reads e fun ws e => e.Phrase ws)
    (h : Reads p fun ws s => StmtPhrase ws (.statement s)) (name : String)
    (type : Option TypeName) :
    Reads (forIn n e p name type) fun ws s => ∃ v w c b, s = .forIn name type c b ∧
      ws = key .inWord :: v ++ sym .rightParen :: w ∧ c.Phrase v ∧ StmtPhrase w (.block b) := by
  refine (word_reads _).bind fun _ _ hw => he.bind fun v c hv => ?_
  refine (consume_sym rfl).bind fun _ _ hr => (block_reads h).map fun w b hb => ?_
  subst hw hr
  exact ⟨v, w, c, b, rfl, by simp, hv, hb⟩

theorem forClauses_reads (he : Reads e fun ws e => e.Phrase ws)
    (h : Reads p fun ws s => StmtPhrase ws (.statement s)) (initial : Stmt) :
    Reads (forClauses n e p initial) fun ws s => ∃ v₁ v₂ w c i b,
      s = .forLoop initial c i b ∧ ws = sym .semicolon :: v₁ ++ sym .semicolon :: v₂ ++
        sym .rightParen :: w ∧ c.Phrase v₁ ∧ i.Phrase v₂ ∧ StmtPhrase w (.block b) := by
  refine (consume_sym rfl).bind fun _ _ hs => he.bind fun v₁ c hc => ?_
  refine (consume_sym rfl).bind fun _ _ hs' => he.bind fun v₂ i hi => ?_
  refine (consume_sym rfl).bind fun _ _ hr => (block_reads h).map fun w b hb => ?_
  subst hs hs' hr
  exact ⟨v₁, v₂, w, c, i, b, rfl, by simp, hc, hi, hb⟩

theorem initialAssignment_reads (he : Reads e fun ws e => e.Phrase ws) :
    Reads (initialAssignment e) fun ws s =>
      ∃ e : Expr, s = .expr e ∧ e.IsAssignment ∧ e.Phrase ws := by
  refine .place fun place => he.bind fun ws e hws => ?_
  split
  · exact .pure ⟨_, rfl, trivial, by simpa using hws⟩
  · exact .pure ⟨_, rfl, trivial, by simpa using hws⟩
  · exact .fail _

theorem forLoop_reads (he : Reads e fun ws e => e.Phrase ws)
    (h : Reads p fun ws s => StmtPhrase ws (.statement s)) :
    Reads (forLoop n e p) fun ws s => StmtPhrase ws (.statement s) := by
  refine (word_reads _).bind fun _ _ hw => (consume_sym rfl).bind fun _ _ hl => ?_
  subst hw hl
  refine .kind fun k => ?_
  cases hk : variableType? k with
  | some type =>
    refine (advance_sym (text_isSome_of_variableType hk)).bind fun _ _ hw => ?_
    refine identifier_reads.bind fun _ name hn => .check ?_ ?_
    all_goals obtain ⟨rfl, hn⟩ := hn
    all_goals subst hw
    · refine ((forIn_reads he h name _).imp fun ws s hs => ?_) _
      obtain ⟨v, w, c, b, rfl, rfl, hc, hb⟩ := hs
      exact .typedForIn hk hn hc hb
    · refine (declaredValue_reads he).bind fun u value hu => ?_
      refine (forClauses_reads he h _).imp fun ws s hs => ?_
      obtain ⟨v₁, v₂, w, c, i, b, rfl, rfl, hc, hi, hb⟩ := hs
      simpa using StmtPhrase.forLoop (.declareInitial hk hn hu) hc hi hb
  | none =>
    by_cases hi : k = .identifier
    · subst hi
      -- Without a type only the word behind the name tells which loop it is.
      refine ReadsAt.peek fun k' => ?_
      split
      · refine ReadsAt.bind (identifier_reads _) fun _ name hn => ?_
        obtain ⟨rfl, hn⟩ := hn
        refine (forIn_reads he h name _).imp fun ws s hs => ?_
        obtain ⟨v, w, c, b, rfl, rfl, hc, hb⟩ := hs
        exact .forIn hn hc hb
      · have hinitial := (initialAssignment_reads he .identifier).head (by decide)
          fun ws s ⟨e, _, _, hws⟩ => hws.ne_nil
        refine hinitial.bind fun _ initial hinit => ?_
        obtain ⟨⟨e, rfl, ha, hws⟩, w, u, rfl, hw⟩ := hinit
        refine (forClauses_reads he h _).imp fun ws s hs => ?_
        obtain ⟨v₁, v₂, w', c, i, b, rfl, rfl, hc, hi, hb⟩ := hs
        simpa using StmtPhrase.forLoop (.assignInitial hw hws ha) hc hi hb
    · rw [if_neg hi]
      exact .place fun place => Reads.fail _ _

theorem whileLoop_reads (he : Reads e fun ws e => e.Phrase ws)
    (h : Reads p fun ws s => StmtPhrase ws (.statement s)) :
    Reads (whileLoop n e p) fun ws s => StmtPhrase ws (.statement s) := by
  refine (word_reads _).bind fun _ _ hw => (condition_reads he).bind fun _ e hv => ?_
  obtain ⟨v, rfl, hv⟩ := hv
  refine (block_reads h).map fun ws b hb => ?_
  subst hw
  simpa using StmtPhrase.whileLoop (.clause hv hb)

theorem doWhile_reads (he : Reads e fun ws e => e.Phrase ws)
    (h : Reads p fun ws s => StmtPhrase ws (.statement s)) :
    Reads (doWhile n e p) fun ws s => StmtPhrase ws (.statement s) := by
  refine (word_reads _).bind fun _ _ hw => (block_reads h).bind fun u b hb => ?_
  refine (word_reads _).bind fun _ _ hw' => (condition_reads he).bind fun _ e hv => ?_
  obtain ⟨v, rfl, hv⟩ := hv
  subst hw hw'
  refine .check ?_ (.pure ?_)
  · refine (advance_sym rfl).map fun _ _ hs => ?_
    subst hs
    simpa using StmtPhrase.doWhile hb hv (Or.inr rfl)
  · simpa using StmtPhrase.doWhile hb hv (Or.inl rfl)

theorem case_reads (he : Reads e fun ws e => e.Phrase ws)
    (h : Reads p fun ws s => StmtPhrase ws (.statement s)) :
    ReadsAt (.keyword .caseWord) (case n e p) fun ws c => ∃ v w e b, c = .mk e b ∧
      ws = key .caseWord :: v ++ w ∧ e.Phrase v ∧ StmtPhrase w (.block b) := by
  refine (advance_sym rfl).bind fun _ _ hw => he.bind fun v e hv => (block_reads h).map
    fun w b hb => ?_
  subst hw
  exact ⟨v, w, e, b, rfl, by simp [key], hv, hb⟩

theorem switch_reads (he : Reads e fun ws e => e.Phrase ws)
    (h : Reads p fun ws s => StmtPhrase ws (.statement s)) :
    Reads (switch n e p) fun ws s => StmtPhrase ws (.statement s) := by
  have hitem (k : TokenKind) (item : Parser Tape (List Case)) (hk : caseItem n e p k = some item) :
      ReadsAt k item fun ws xs => ∀ ws' ys, StmtPhrase ws' (.cases ys) →
        StmtPhrase (ws ++ ws') (.cases (xs ++ ys)) := by
    unfold caseItem at hk
    split at hk
    · obtain rfl := Option.some.inj hk
      refine (advance_reads (by decide)).map fun _ t ht ws' ys hys => ?_
      obtain ⟨rfl, hk, hs⟩ := ht
      exact .caseComment hs hk hys
    · obtain rfl := Option.some.inj hk
      refine (case_reads he h).map fun ws c hc ws' ys hys => ?_
      obtain ⟨v, w, e, b, rfl, rfl, hv, hb⟩ := hc
      exact .case hv hb hys
    · cases hk
  refine (word_reads _).bind fun _ _ hw => (condition_reads he).bind fun _ subject hv => ?_
  obtain ⟨v, rfl, hv⟩ := hv
  refine (consume_sym rfl).bind fun _ _ hl => ?_
  refine (Reads.sequence (P := fun ws cs => StmtPhrase ws (.cases cs)) .noCases hitem n).bind
    fun u cs hcs => (consume_sym rfl).map fun _ _ hr => ?_
  subst hw hl hr
  simpa using StmtPhrase.switch hv hcs

theorem ret_reads (he : Reads e fun ws e => e.Phrase ws) :
    Reads (ret e) fun ws s => StmtPhrase ws (.statement s) := by
  refine (word_reads _).bind fun _ _ hw => .check ?_ ?_
  all_goals subst hw
  · refine (Reads.pure (P := fun ws value => ws = [] ∧ value = none) ⟨rfl, rfl⟩ _).bind
      fun _ value hvalue => (consume_sym rfl).map fun _ _ hs => ?_
    obtain ⟨rfl, rfl⟩ := hvalue
    subst hs
    exact .ret
  · rw [map_eq_pure_bind]
    refine Reads.bind (P := fun ws value => ∃ e : Expr, value = some e ∧ e.Phrase ws)
      (he.map fun ws e he => ⟨e, rfl, he⟩) fun v value hvalue => (consume_sym rfl).map fun _ _ hs => ?_
    obtain ⟨e, rfl, hv⟩ := hvalue
    subst hs
    exact .retValue hv

theorem attempt_reads (h : Reads p fun ws s => StmtPhrase ws (.statement s)) :
    Reads (attempt n p) fun ws s => StmtPhrase ws (.statement s) := by
  refine (word_reads _).bind fun _ _ hw => (block_reads h).bind fun u b hb => ?_
  refine (word_reads _).bind fun _ _ hw' => (consume_sym rfl).bind fun _ _ hl => ?_
  refine identifier_reads.bind fun _ errorType ht => (consume_sym rfl).bind fun _ _ hr => ?_
  refine (word_reads _).bind fun _ _ hw'' => identifier_reads.bind fun _ binding hn => ?_
  refine (block_reads h).map fun v handler hh => ?_
  obtain ⟨rfl, ht⟩ := ht
  obtain ⟨rfl, hn⟩ := hn
  subst hw hw' hw'' hl hr
  simpa using StmtPhrase.attempt hb ht hn hh

theorem declare_reads (he : Reads e fun ws e => e.Phrase ws) {k : TokenKind} {type : VariableType}
    (hk : variableType? k = some type) :
    ReadsAt k (declare e type) fun ws s => StmtPhrase ws (.statement s) := by
  refine (advance_sym (text_isSome_of_variableType hk)).bind fun _ _ hw => ?_
  refine identifier_reads.bind fun _ name hn => (declaredValue_reads he).bind fun u value hu => ?_
  refine (consume_sym rfl).map fun _ _ hs => ?_
  obtain ⟨rfl, hn⟩ := hn
  subst hw hs
  exact .declare hk hn hu

theorem plainStatement_reads (he : Reads e fun ws e => e.Phrase ws) :
    Reads (plainStatement e) fun ws s => StmtPhrase ws (.statement s) :=
  he.bind fun _ _ hv => (consume_sym rfl).map fun _ _ hs => hs ▸ .expr hv

theorem statementStep_reads (he : Reads e fun ws e => e.Phrase ws)
    (h : Reads p fun ws s => StmtPhrase ws (.statement s)) :
    Reads (statementStep n e p) fun ws s => StmtPhrase ws (.statement s) := by
  refine .kind fun k => ?_
  split
  · refine (advance_reads (by decide)).map fun _ t ht => ?_
    obtain ⟨rfl, hk, hs⟩ := ht
    exact .comment hs hk
  · exact declare_reads he rfl
  · exact declare_reads he rfl
  · exact declare_reads he rfl
  · exact conditional_reads he h _
  · exact forLoop_reads he h _
  · exact whileLoop_reads he h _
  · exact doWhile_reads he h _
  · exact switch_reads he h _
  · exact ret_reads he _
  · exact attempt_reads h _
  · exact plainStatement_reads he _

theorem statement_reads (n : Nat) :
    Reads (statement n) fun ws s => StmtPhrase ws (.statement s) := by
  induction n with
  | zero => exact .unexpected _
  | succ n ih => exact statementStep_reads (expression_reads _) ih

theorem body_reads (n : Nat) : Reads (body n) fun ws b => StmtPhrase ws (.block b) :=
  block_reads (statement_reads n)

end Statements

section Declarations

variable {p : Parser Tape Declaration} {n : Nat}

theorem parameterName_reads {type : Option TypeName} {u : List Word}
    (h : ∀ name, IsUsable name → ParameterPhrase (u ++ [ofName name]) ⟨name, type⟩) :
    Reads (do
      if ← check (.keyword .instanceWord) then
        let _ ← advance
        return ⟨instanceName, type⟩
      else return ⟨← identifier, type⟩) fun ws q => ParameterPhrase (u ++ ws) q := by
  refine .check ?_ ?_
  · refine (advance_sym rfl).map fun _ _ hw => ?_
    subst hw
    exact h instanceName isUsable_instanceName
  · refine identifier_reads.map fun _ name hn => ?_
    obtain ⟨rfl, hn⟩ := hn
    exact h name (Or.inl hn)

theorem parameter_reads : Reads parameter ParameterPhrase := by
  have htype : Reads parameterType fun u type =>
      ∀ name, IsUsable name → ParameterPhrase (u ++ [ofName name]) ⟨name, type⟩ := by
    refine .kind fun k => ?_
    split
    · refine (advance_sym rfl).map fun _ _ hw name => ?_
      subst hw
      exact .typed
    · refine (advance_sym rfl).map fun _ _ hw name => ?_
      subst hw
      exact .auto
    · exact Reads.pure (fun name => .untyped) _
  exact htype.bind fun u type hu => parameterName_reads hu

theorem signature_reads {f : List Parameter → List Stmt → Function} {R : List Word → Function → Prop}
    (h : ∀ ws ps b, SignaturePhrase ws ps b → R ws (f ps b)) :
    Reads (do
      let ps ← parameters n
      return f ps (← body n)) R := by
  refine (parameter_reads.parenthesized n).bind fun u ps hps => (body_reads n).map fun v b hb => ?_
  exact h (u ++ v) ps b (.mk hps hb)

theorem function_reads :
    Reads (function n) fun ws f => DeclPhrase ws (.declaration (.function f)) := by
  refine (word_reads _).bind fun _ _ hw => identifier_reads.bind fun _ name hn => ?_
  obtain ⟨rfl, hn⟩ := hn
  subst hw
  exact signature_reads fun ws ps b => .function hn

theorem method_reads (name : String) : Reads (method n name) fun ws f =>
    ∃ ps b, f = ⟨none, name, withoutReceiver ps, b⟩ ∧ SignaturePhrase ws ps b :=
  signature_reads fun _ ps b h => ⟨ps, b, rfl, h⟩

theorem instanceMember_reads :
    ReadsAt (.keyword .instanceWord) (instanceMember n) MemberPhrase := by
  refine (advance_sym rfl).bind fun _ _ hw => (consume_sym rfl).bind fun _ _ hd => .check ?_ ?_
  all_goals subst hw hd
  · refine (advance_sym rfl).bind fun _ _ hw => (method_reads _).map fun ws f hf => ?_
    obtain ⟨ps, b, rfl, h⟩ := hf
    subst hw
    exact .initializer h
  · refine identifier_reads.bind fun _ name hn => (method_reads name).map fun ws f hf => ?_
    obtain ⟨rfl, hn⟩ := hn
    obtain ⟨ps, b, rfl, h⟩ := hf
    exact .instanceMethod hn h

theorem classMember_reads : ReadsAt (.keyword .classWord) (classMember n) MemberPhrase := by
  refine (advance_sym rfl).bind fun _ _ hw => (consume_sym rfl).bind fun _ _ hd => ?_
  refine identifier_reads.bind fun _ name hn => (method_reads name).map fun ws f hf => ?_
  obtain ⟨rfl, hn⟩ := hn
  obtain ⟨ps, b, rfl, h⟩ := hf
  subst hw hd
  exact .classMethod hn h

theorem skip_reads {α : Type} {P : List Word → List α → Prop}
    (h : ∀ w ws as, w.Spelled → w.kind = .comment → P ws as → P (w :: ws) as) :
    ReadsAt .comment (skip : Parser Tape (List α)) fun ws xs =>
      ∀ ws' ys, P ws' ys → P (ws ++ ws') (xs ++ ys) := by
  refine (advance_reads (by decide)).map fun _ t ht ws' ys hys => ?_
  obtain ⟨rfl, hk, hs⟩ := ht
  exact h _ _ _ hs hk hys

theorem members_reads : Reads (sequence (memberItem n) n) (Commented MemberPhrase) := by
  refine Reads.sequence .nil (fun k item hk => ?_) n
  unfold memberItem at hk
  split at hk
  · cases hk
  · cases hk
  · obtain rfl := Option.some.inj hk
    exact skip_reads fun w ws as => .comment
  · obtain rfl := Option.some.inj hk
    exact instanceMember_reads.map fun ws m hm ws' ys => .cons hm
  · obtain rfl := Option.some.inj hk
    exact classMember_reads.map fun ws m hm ws' ys => .cons hm
  · obtain rfl := Option.some.inj hk
    exact Reads.unexpected _ _

theorem classDecl_reads : Reads (classDecl n) ClassPhrase := by
  -- Behind its base, or where there is none, a class goes on alike.
  have hrest (name : String) (hn : IsName name) (u : List Word) (base : Option String)
      (hu : BasePhrase u base) : Reads (do
        let _ ← consume .rightParen
        let _ ← consume .leftBrace
        let members ← sequence (memberItem n) n
        let _ ← consume .rightBrace
        return classOfMembers name base members) fun ws c =>
          ClassPhrase (key .classWord :: ofName name :: sym .leftParen :: u ++ ws) c := by
    refine (consume_sym rfl).bind fun _ _ hr => (consume_sym rfl).bind fun _ _ hl => ?_
    refine members_reads.bind fun v members hm => (consume_sym rfl).map fun _ _ hb => ?_
    subst hr hl hb
    simpa using ClassPhrase.mk hn hu hm
  refine (word_reads _).bind fun _ _ hw => identifier_reads.bind fun _ name hn => ?_
  obtain ⟨rfl, hn⟩ := hn
  refine (consume_sym rfl).bind fun _ _ hl => .check ?_ ?_
  all_goals subst hw hl
  · rw [map_eq_pure_bind]
    refine ReadsAt.bind (P := BasePhrase) (ReadsAt.map (identifier_reads _) fun ws b hb => ?_)
      fun u base hu => ?_
    · obtain ⟨rfl, hb⟩ := hb
      exact .some hb
    · simpa using hrest name hn u base hu
  · refine (Reads.pure (P := BasePhrase) .none).bind fun u base hu => ?_
    simpa using hrest name hn u base hu

theorem moduleParts_reads (m : Nat) : Reads (moduleParts m) PartsPhrase := by
  induction m with
  | zero => exact .pure .nil
  | succ m ih =>
    refine .check ?_ (.pure .nil)
    refine (advance_sym rfl).bind fun _ _ hw => identifier_reads.bind fun _ part hn => ?_
    obtain ⟨rfl, hn⟩ := hn
    subst hw
    exact ih.map fun ws rest hr => .cons hn hr

theorem importDecl_reads :
    Reads (importDecl n) fun ws m => DeclPhrase ws (.declaration (.importDecl m)) := by
  refine (word_reads _).bind fun _ _ hw => identifier_reads.bind fun _ first hn => ?_
  refine (moduleParts_reads n).bind fun u rest hr => (consume_sym rfl).map fun _ _ hs => ?_
  obtain ⟨rfl, hn⟩ := hn
  subst hw hs
  exact .importDecl hn hr

theorem declarations_reads (h : Reads p fun ws d => DeclPhrase ws (.declaration d))
    (stop : TokenKind → Bool) :
    Reads (declarations n p stop) fun ws ds => DeclPhrase ws (.declarations ds) := by
  refine Reads.sequence (P := fun ws ds => DeclPhrase ws (.declarations ds)) .nil
    (fun k item hk => ?_) n
  unfold declarationItem at hk
  split at hk
  · cases hk
  · split at hk
    · next hc =>
      obtain rfl := Option.some.inj hk
      subst hc
      exact skip_reads fun w ws as => .comment
    · obtain rfl := Option.some.inj hk
      exact ReadsAt.map (h k) fun ws d hd ws' ys => .cons hd

theorem namespaceDecl_reads (h : Reads p fun ws d => DeclPhrase ws (.declaration d)) :
    Reads (namespaceDecl n p) fun ws d => DeclPhrase ws (.declaration d) := by
  refine (word_reads _).bind fun _ _ hw => identifier_reads.bind fun _ name hn => ?_
  refine (consume_sym rfl).bind fun _ _ hl => (declarations_reads h _).bind fun u ds hds => ?_
  refine (consume_sym rfl).map fun _ _ hr => ?_
  obtain ⟨rfl, hn⟩ := hn
  subst hw hl hr
  exact .namespaceDecl hn hds

theorem expectedFunction_reads {P : List Word → Declaration → Prop} :
    Reads (do fail (.expectedFunction (← place))) P :=
  .place fun _ => .fail _

theorem declarationStep_reads (h : Reads p fun ws d => DeclPhrase ws (.declaration d)) :
    Reads (declarationStep n p) fun ws d => DeclPhrase ws (.declaration d) := by
  refine .kind fun k => ?_
  split
  · rw [map_eq_pure_bind]
    exact Reads.map (R := fun ws d => DeclPhrase ws (.declaration d)) function_reads (fun ws f hf => hf) _
  · exact namespaceDecl_reads h _
  · rw [map_eq_pure_bind]
    exact Reads.map (R := fun ws d => DeclPhrase ws (.declaration d)) classDecl_reads (fun ws c hc => .classDecl hc) _
  · rw [map_eq_pure_bind]
    exact Reads.map (R := fun ws d => DeclPhrase ws (.declaration d)) importDecl_reads (fun ws m hm => hm) _
  · exact expectedFunction_reads _

theorem declaration_reads (n : Nat) :
    Reads (declaration n) fun ws d => DeclPhrase ws (.declaration d) := by
  induction n with
  | zero => exact expectedFunction_reads
  | succ n ih => exact declarationStep_reads ih

theorem program_reads (n : Nat) : Reads (program n) fun ws p => p.Phrase ws := by
  unfold program
  rw [map_eq_pure_bind]
  exact (declarations_reads (declaration_reads n) _).map fun ws ds hds => hds

theorem program_stops (n : Nat) {s s' : Tape} {p : Program} (hs : s.Lexed)
    (hn : s.words.length ≤ n) (h : program n s = .ok (p, s')) : s'.words = [] := by
  have hitem (k : TokenKind) (item : Parser Tape (List Declaration))
      (hk : declarationItem (declaration n) (· == .endOfFile) k = some item) :
      ReadsAt k item fun ws _ => ws ≠ [] := by
    unfold declarationItem at hk
    split at hk
    · cases hk
    · split at hk
      · next hc =>
        obtain rfl := Option.some.inj hk
        subst hc
        exact (advance_reads (by decide)).map fun ws t ht => ht.1 ▸ List.cons_ne_nil _ []
      · obtain rfl := Option.some.inj hk
        exact ReadsAt.map (declaration_reads n k) fun ws d hd => hd.ne_nil
  unfold program declarations at h
  rw [map_eq_pure_bind] at h
  obtain ⟨ds, t, hds, h⟩ := bind_eq_ok h
  obtain ⟨-, rfl⟩ := Prod.mk.inj (Except.ok.inj h)
  -- A declaration is tried at every token but the end.
  obtain hstop | hw := sequence_stops hitem n hs hn hds
  · refine Tape.words_of_end ?_
    by_contra hne
    unfold declarationItem at hstop
    rw [if_neg (by simpa using hne)] at hstop
    split at hstop <;> cases hstop
  · exact hw

end Declarations

section Texts

variable {scan : Scan} {tape : Tape}

theorem Word.Spelled.kind_ne_endOfFile {w : Word} (h : w.Spelled) : w.kind ≠ .endOfFile := by
  obtain ⟨text, hs⟩ := h
  exact hs.kind_ne_endOfFile

theorem Tape.lexed_ofScan (hs : scan.Lexed) (h : Tape.ofScan scan = .ok tape) :
    tape.Lexed ∧ tape.ending = scan.ending ∧ tape.words = scan.words := by
  rw [Tape.ofScan_eq_next scan tape.current] at h
  obtain ⟨htape, hend, hwords⟩ := Tape.lexed_next hs.tokens hs.ending h
  refine ⟨htape, hend, hwords.trans ?_⟩
  -- No token before the end of a text is of the kind of the end.
  have hall : scan.tokens.takeWhile (·.kind ≠ .endOfFile) = scan.tokens :=
    List.takeWhile_eq_self_iff.2 fun t ht => decide_eq_true (hs.tokens t ht).kind_ne_endOfFile
  exact congrArg (List.map Token.word) hall

theorem Tape.Lexed.exists_ending (hs : tape.Lexed) (hw : tape.words = []) :
    ∃ token, tape.ending = .ok token := by
  by_contra hno
  have hcurrent : tape.current.kind ≠ .endOfFile := by
    intro hk
    obtain hok | hsp := hs.current
    · exact hno ⟨_, hok⟩
    · exact hsp.kind_ne_endOfFile hk
  rw [Tape.words_of_ne_end hcurrent] at hw
  cases hw

/-- A program is read from a whole text, and is a phrase of the grammar there. -/
theorem Scan.phrase_of_parse {p : Program} (hs : scan.Lexed) (h : scan.parse = .ok p) :
    (∃ token, scan.ending = .ok token) ∧ p.Phrase scan.words := by
  obtain ⟨tape, tape', htape, hp⟩ := Scan.parse_eq_ok h
  obtain ⟨htl, hend, hwords⟩ := Tape.lexed_ofScan hs htape
  obtain ⟨htl', hend', ws, hws, hphrase⟩ := program_reads _ _ htl rfl hp
  have hlen : tape.words.length ≤ scan.tokens.length := by
    rw [hwords, Scan.words, List.length_map]
  have hnil := program_stops _ htl hlen hp
  rw [hnil, List.append_nil, hwords] at hws
  have hending := htl'.exists_ending hnil
  rw [hend', hend] at hending
  exact ⟨hending, hws ▸ hphrase⟩

end Texts

end VnScript
