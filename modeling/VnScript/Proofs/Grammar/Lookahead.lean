import VnScript.Proofs.Grammar.Simulation
import VnScript.Proofs.Grammar.Soundness
import VnScript.Proofs.Token.Layout
import VnScript.Proofs.Token.Order

namespace VnScript

open Grammar

/-- The cursor stands at the same token as the tape, and a lexer supplies what the
tape holds behind it. -/
structure Cursor.Follows (c : Cursor) (t : Tape) : Prop where
  current : c.current = t.current
  following : ∃ l : Lexer, c.following = l.next ∧ l.scan = ⟨t.pending, t.ending⟩

/-- Nothing but an error ends the text, and it stands behind the place. -/
def Place.Precedes (p : Place) (ending : Except LexError Token) : Prop :=
  ∀ e, ending = .error e → p < e.place

structure Tape.Within (t : Tape) (ending : Except LexError Token) : Prop where
  ending_eq : t.ending = ending
  precedes : ∀ token ∈ t.current :: t.pending, token.start.toPlace.Precedes ending

namespace Tape

variable {t t' : Tape} {ending : Except LexError Token}

theorem within_next (he : t.ending = ending)
    (hp : ∀ token ∈ t.pending, token.start.toPlace.Precedes ending) (hn : t.next = .ok t') :
    t'.Within ending := by
  obtain ⟨token, rest, htokens, rfl⟩ | ⟨token, -, hend, rfl⟩ := next_eq_ok hn
  · rw [htokens] at hp
    exact ⟨he, hp⟩
  · refine ⟨he, fun u _ e herror => ?_⟩
    cases hend.symm.trans (he.trans herror)

theorem Within.next (h : t.Within ending) (hn : t.next = .ok t') : t'.Within ending :=
  within_next h.ending_eq (fun u hu => h.precedes u (List.mem_cons_of_mem _ hu)) hn

end Tape

namespace Cursor

variable {c : Cursor} {t : Tape}

/-- Reading one token further keeps cursor and tape together, also where the token had
been read before and at the end of the text, which is read again and again. -/
theorem Follows.next (h : c.Follows t) : Except.Related Eq Follows c.next t.next := by
  obtain ⟨current, pending, ending⟩ := t
  obtain ⟨-, l, hl, hscan⟩ := h
  unfold Cursor.next Tape.next
  rcases hx : l.next with ⟨x, l'⟩
  rw [hl, hx]
  -- The lexer gives the same token as the scan, which has it in front or as its ending.
  cases x with
  | error e =>
    rw [Lexer.scan_fault hx] at hscan
    obtain ⟨rfl, rfl⟩ := Scan.mk.inj hscan
    exact .error rfl
  | ok token =>
    by_cases hk : token.kind = .endOfFile
    · have hend := Lexer.next_ending hx hk
      rw [Lexer.scan_ending hx hk] at hscan
      obtain ⟨rfl, rfl⟩ := Scan.mk.inj hscan
      exact .ok ⟨rfl, l', rfl, Lexer.scan_ending hend hk⟩
    · rw [Lexer.scan_token hx hk] at hscan
      obtain ⟨rfl, rfl⟩ := Scan.mk.inj hscan
      exact .ok ⟨rfl, l', rfl, rfl⟩

theorem Follows.peek (h : c.Follows t) :
    Except.Related Eq (fun x y => x.1 = y.1 ∧ Follows x.2 y.2) c.peek t.peek := by
  have hnext := h.next
  obtain ⟨hc, l, hl, hscan⟩ := h
  unfold Cursor.next at hnext
  unfold Cursor.peek Tape.peek
  rcases hx : l.next with ⟨x, l'⟩
  rw [hl, hx] at hnext ⊢
  cases x with
  | error e =>
    generalize t.next = y at hnext
    cases hnext with
    | error h => exact .error h
  | ok token =>
    generalize t.next = y at hnext
    cases hnext with
    | ok h => exact .ok ⟨congrArg Token.kind h.current, hc, l, hx.symm, hscan⟩

/-- The stream that reads on demand goes along with the one that has read everything. -/
def simulation (ending : Except LexError Token) : Simulation Cursor Tape where
  states c t := c.Follows t ∧ t.Within ending
  places p q := p = q ∧ p.Precedes ending
  errors e e' := e = e' ∧ ending = .error e
  current_similar {c t} h := by
    change Token.Similar _ c.current t.current
    rw [h.1.current]
    exact ⟨rfl, rfl, rfl, h.2.precedes _ List.mem_cons_self⟩
  next_related {c t} h := by
    have hnext := h.1.next
    change Except.Related _ _ c.next t.next
    cases hc : c.next <;> cases ht : t.next <;> rw [hc, ht] at hnext <;> cases hnext
    · subst_vars
      exact .error ⟨rfl, h.2.ending_eq ▸ Tape.next_error ht⟩
    · exact .ok ⟨‹_›, h.2.next ht⟩
  peek_related {c t} h := by
    have hpeek := h.1.peek
    change Except.Related _ _ c.peek t.peek
    unfold Tape.peek at hpeek ⊢
    cases hc : c.peek <;> cases ht : t.next <;> rw [hc, ht] at hpeek <;> cases hpeek
    · subst_vars
      exact .error ⟨rfl, h.2.ending_eq ▸ Tape.next_error ht⟩
    · next hr => exact .ok ⟨hr.1, hr.2, h.2⟩

theorem ofString_related (source : String) :
    Except.Related Eq Follows (ofString source) (Tape.ofScan (Scan.ofString source)) := by
  have h : Follows ⟨(Lexer.ofString source).endToken, none, Lexer.ofString source⟩
      ⟨(Lexer.ofString source).endToken, (Scan.ofString source).tokens,
        (Scan.ofString source).ending⟩ := ⟨rfl, _, rfl, rfl⟩
  exact h.next

end Cursor

namespace Tape

theorem within_ofScan {source : String} {t : Tape}
    (h : ofScan (Scan.ofString source) = .ok t) : t.Within (Scan.ofString source).ending := by
  have hplaces (token : Token) (ht : token ∈ (Scan.ofString source).tokens) :
      token.start.toPlace.Precedes (Scan.ofString source).ending :=
    fun e he => (Lexer.scan_error_place he).2 token ht
  rw [ofScan_eq_next _ t.current] at h
  exact within_next rfl hplaces h

end Tape

theorem SyntaxError.moveTo_place (e : SyntaxError) : e.moveTo e.place = e := by
  cases e <;> rfl

theorem Scan.lexed_ofString (source : String) : (Scan.ofString source).Lexed := by
  obtain ⟨htokens, hending⟩ := Lexer.scan_spelled (Lexer.ofString source)
  exact ⟨htokens, hending⟩

/-- What a text is read as when its tokens come on demand, in terms of what it is read as
when they have all been read before. -/
inductive Parsed (scan : Scan) : Except ParseError Program → Except ParseError Program → Prop
  | program {p : Program} : Parsed scan (.ok p) (.ok p)
  | lexical {e : LexError} (h : scan.ending = .error e) :
    Parsed scan (.error (.lexical e)) (.error (.lexical e))
  | grammar {e : SyntaxError} (h : e.place.Precedes scan.ending) :
    Parsed scan (.error (.grammar e)) (.error (.grammar e))

theorem parsed_program {scan : Scan} {c : Cursor} {t : Tape} (n : Nat)
    (h : (Cursor.simulation scan.ending).states c t) :
    Parsed scan (((program n).run c).map Prod.fst) (((program n).run t).map Prod.fst) := by
  have hs := Simulation.program_same (S := Cursor.simulation scan.ending) n c t h
  simp only [StateT.run]
  generalize program n c = x, program n t = y at hs ⊢
  cases hs with
  | ok h =>
    change Parsed _ (.ok _) (.ok _)
    rw [h.1]
    exact .program
  | error h =>
    cases h with
    | lexical h =>
      obtain ⟨rfl, he⟩ := h
      exact .lexical he
    | @grammar e t t' h habout =>
      -- Both fail at the same place, so that moving the failure there leaves it as it is.
      obtain ⟨hplace, hprecedes⟩ := h.place
      rw [← hplace, ← habout.place_eq, SyntaxError.moveTo_place]
      exact .grammar (habout.place_eq ▸ hprecedes)

theorem parsed (source : String) :
    Parsed (Scan.ofString source) (parse source) (Scan.ofString source).parse := by
  have h := Cursor.ofString_related source
  unfold parse Scan.parse
  cases ht : Tape.ofScan (Scan.ofString source) with
  | error e =>
    rw [ht] at h
    generalize Cursor.ofString source = x at h ⊢
    cases h with
    | error h =>
      subst h
      rw [Tape.ofScan_eq_next _ (Lexer.ofString source).endToken] at ht
      exact .lexical (Tape.next_error ht)
  | ok t =>
    rw [ht] at h
    generalize Cursor.ofString source = x at h ⊢
    cases h with
    | ok hf => exact parsed_program _ ⟨hf, Tape.within_ofScan ht⟩

/-- Reading tokens on demand makes no difference. -/
theorem parse_eq (source : String) : parse source = (Scan.ofString source).parse := by
  have h := parsed source
  generalize parse source = x, (Scan.ofString source).parse = y at h
  cases h <;> rfl

/-- Tapes that hold the same words up to the end of the text. -/
structure Tape.SameWords (t t' : Tape) : Prop where
  current : t.current.word = t'.current.word
  pending : t.pending.map Token.word = t'.pending.map Token.word
  ending : ∃ u u', t.ending = .ok u ∧ t'.ending = .ok u' ∧ u.word = u'.word

namespace Tape

variable {t t' : Tape}

theorem SameWords.next (h : t.SameWords t') :
    ∃ u u', t.next = .ok u ∧ t'.next = .ok u' ∧ u.SameWords u' := by
  obtain ⟨current, pending, ending⟩ := t
  obtain ⟨current', pending', ending'⟩ := t'
  obtain ⟨-, hp, hend⟩ := h
  cases pending with
  | cons token rest =>
    cases pending' with
    | nil => cases hp
    | cons token' rest' =>
      obtain ⟨htoken, hrest⟩ := List.cons.inj hp
      exact ⟨_, _, rfl, rfl, htoken, hrest, hend⟩
  | nil =>
    cases pending' with
    | cons token' rest' => cases hp
    | nil =>
      obtain ⟨u, u', rfl, rfl, hu⟩ := hend
      exact ⟨_, _, rfl, rfl, hu, rfl, u, u', rfl, rfl, hu⟩

/-- Where the tokens stand does not matter but for the places of failures. -/
def rewording : Simulation Tape Tape where
  states := SameWords
  places _ _ := True
  errors _ _ := False
  current_similar {t t'} h :=
    ⟨congrArg Word.kind h.current, congrArg Word.lexeme h.current, trivial⟩
  next_related {t t'} h := by
    obtain ⟨u, u', hu, hu', hs⟩ := h.next
    change Except.Related _ _ t.next t'.next
    rw [hu, hu']
    exact .ok hs
  peek_related {t t'} h := by
    obtain ⟨u, u', hu, hu', hs⟩ := h.next
    change Except.Related _ _ (t.next.map _) (t'.next.map _)
    rw [hu, hu']
    exact .ok ⟨congrArg Word.kind hs.current, h⟩

theorem sameWords_ofScan {scan scan' : Scan} {token token' : Token}
    (hw : scan.words = scan'.words) (h : scan.ending = .ok token)
    (h' : scan'.ending = .ok token') (ht : token.word = token'.word) :
    ∃ t t', ofScan scan = .ok t ∧ ofScan scan' = .ok t' ∧ t.SameWords t' := by
  have hs : SameWords ⟨token, scan.tokens, scan.ending⟩ ⟨token', scan'.tokens, scan'.ending⟩ :=
    ⟨ht, hw, token, token', h, h', ht⟩
  exact hs.next

end Tape

theorem Scan.parse_of_sameWords {scan scan' : Scan} {token token' : Token}
    (hw : scan.words = scan'.words) (h : scan.ending = .ok token)
    (h' : scan'.ending = .ok token') (ht : token.word = token'.word) :
    Except.Related (fun _ _ => True) Eq scan.parse scan'.parse := by
  obtain ⟨t, t', ho, ho', hs⟩ := Tape.sameWords_ofScan hw h h' ht
  have hlen : scan.tokens.length = scan'.tokens.length := by
    simpa [Scan.words] using congrArg List.length hw
  have hr := Simulation.program_same (S := Tape.rewording) scan.tokens.length t t' hs
  unfold Scan.parse
  rw [ho, ho', ← hlen]
  simp only [StateT.run]
  generalize program _ t = x, program _ t' = y at hr ⊢
  cases hr with
  | ok h => exact .ok h.1
  | error h => exact .error trivial

theorem tokenize_eq_ok {source : String} {tokens : List Token} (h : tokenize source = .ok tokens) :
    ∃ ending, (Scan.ofString source).ending = .ok ending ∧
      tokens = (Scan.ofString source).tokens ++ [ending] := by
  unfold tokenize at h
  cases he : (Scan.ofString source).ending with
  | error e =>
    simp only [he] at h
    cases h
  | ok ending =>
    simp only [he] at h
    exact ⟨ending, rfl, (Except.ok.inj h).symm⟩

theorem tokenize_eq_error {source : String} {e : LexError} :
    tokenize source = .error e ↔ (Scan.ofString source).ending = .error e := by
  unfold tokenize
  cases he : (Scan.ofString source).ending <;> simp [he, Except.map]

theorem tokenize_of_parse {source : String} {p : Program} (h : parse source = .ok p) :
    ∃ tokens, tokenize source = .ok tokens := by
  rw [parse_eq] at h
  obtain ⟨⟨t, ht⟩, -⟩ := Scan.phrase_of_parse (Scan.lexed_ofString source) h
  refine ⟨(Scan.ofString source).tokens ++ [t], ?_⟩
  simp only [tokenize, ht]
  rfl

theorem parse_of_tokenize_ok {source : String} {tokens : List Token}
    (h : tokenize source = .ok tokens) :
    (∀ e, parse source ≠ .error (.lexical e)) ∧
      ∃ ts t, tokens = ts ++ [t] ∧ parse source = Scan.parse ⟨ts, .ok t⟩ := by
  obtain ⟨t, ht, rfl⟩ := tokenize_eq_ok h
  refine ⟨fun e he => ?_, _, t, rfl, ?_⟩
  · have hp := parsed source
    rw [he] at hp
    generalize (Scan.ofString source).parse = y at hp
    cases hp with
    | lexical h => cases ht.symm.trans h
  · rw [parse_eq, ← ht]

theorem parse_of_tokenize_error {source : String} {e : LexError}
    (h : tokenize source = .error e) : parse source = .error (.lexical e) ∨
      ∃ g, parse source = .error (.grammar g) ∧ g.place < e.place := by
  cases hx : parse source with
  | ok p =>
    obtain ⟨tokens, ht⟩ := tokenize_of_parse hx
    cases ht.symm.trans h
  | error x =>
    have hp := parsed source
    rw [hx] at hp
    rw [tokenize_eq_error] at h
    generalize (Scan.ofString source).parse = y at hp
    cases hp with
    | lexical h' =>
      obtain rfl := Except.error.inj (h'.symm.trans h)
      exact Or.inl rfl
    | grammar h' => exact Or.inr ⟨_, rfl, h' e h⟩

theorem parse_of_same_words {source source' : String} {tokens tokens' : List Token}
    (h : tokenize source = .ok tokens) (h' : tokenize source' = .ok tokens')
    (hw : tokens.map Token.word = tokens'.map Token.word) :
    (∃ p, parse source = .ok p ∧ parse source' = .ok p) ∨
      ∃ x x', parse source = .error x ∧ parse source' = .error x' := by
  obtain ⟨t, ht, rfl⟩ := tokenize_eq_ok h
  obtain ⟨t', ht', rfl⟩ := tokenize_eq_ok h'
  rw [List.map_append, List.map_append] at hw
  obtain ⟨hw, hlast⟩ := List.append_inj' hw rfl
  have hr := Scan.parse_of_sameWords hw ht ht' (List.singleton_inj.1 hlast)
  rw [parse_eq, parse_eq]
  generalize (Scan.ofString source).parse = x, (Scan.ofString source').parse = y at hr
  cases hr with
  | ok h => exact Or.inl ⟨_, rfl, h ▸ rfl⟩
  | error h => exact Or.inr ⟨_, _, rfl, rfl⟩

/-- Parsing with tokens on demand agrees with lexing the whole text first. What a text that
lexes is read as depends on its tokens alone, and on nothing but their words if places of
errors do not count. In a text that does not lex, the lexical error is met unless the grammar
fails before it. -/
theorem parse_agrees_with_tokenize (source : String) :
    (∀ tokens, tokenize source = .ok tokens →
      (∀ e, parse source ≠ .error (.lexical e)) ∧
      ∃ ts t, tokens = ts ++ [t] ∧ parse source = Scan.parse ⟨ts, .ok t⟩) ∧
    (∀ e, tokenize source = .error e → parse source = .error (.lexical e) ∨
      ∃ g, parse source = .error (.grammar g) ∧ g.place < e.place) ∧
    (∀ p, parse source = .ok p → ∃ tokens, tokenize source = .ok tokens) ∧
    ∀ source' tokens tokens', tokenize source = .ok tokens → tokenize source' = .ok tokens' →
      tokens.map Token.word = tokens'.map Token.word →
      (∃ p, parse source = .ok p ∧ parse source' = .ok p) ∨
        ∃ x x', parse source = .error x ∧ parse source' = .error x' :=
  ⟨fun _ h => parse_of_tokenize_ok h, fun _ h => parse_of_tokenize_error h,
    fun _ h => tokenize_of_parse h, fun _ _ _ h h' hw => parse_of_same_words h h' hw⟩

end VnScript
