import Mathlib.Data.Prod.Lex
import VnScript.Proofs.Token.Scanning

namespace VnScript

namespace Place

theorem lexicographic_injective :
    Function.Injective fun p : Place => toLex (p.line, p.column) := by
  intro p q h
  obtain ⟨hl, hc⟩ := Prod.mk.inj (toLex_inj.1 h)
  cases p
  cases q
  exact congrArg₂ mk hl hc

/-- Places in reading order. -/
instance : PartialOrder Place := PartialOrder.lift _ lexicographic_injective

theorem lt_iff {p q : Place} :
    p < q ↔ p.line < q.line ∨ p.line = q.line ∧ p.column < q.column := Prod.Lex.lt_iff

end Place

namespace Position

theorem lt_after (p : Position) (c : Char) : p.toPlace < (p.after c).toPlace := by
  rw [Place.lt_iff]
  unfold after
  split
  · exact Or.inl (Nat.lt_succ_self _)
  · exact Or.inr ⟨rfl, Nat.lt_succ_self _⟩

theorem le_afterAll (p : Position) (a : List Char) : p.toPlace ≤ (p.afterAll a).toPlace := by
  induction a generalizing p with
  | nil => exact le_rfl
  | cons c a ih => exact (p.lt_after c).le.trans (ih (p.after c))

theorem lt_afterAll (p : Position) {a : List Char} (h : a ≠ []) :
    p.toPlace < (p.afterAll a).toPlace := by
  cases a with
  | nil => exact absurd rfl h
  | cons c a => exact (p.lt_after c).trans_le ((p.after c).le_afterAll a)

end Position

namespace Lexer

variable {l l' : Lexer} {t : Token} {e : LexError}

theorem place_toError (f : LexFault) (p : Place) : (f.toError p).place = p := by
  cases f <;> rfl

theorem Step.le_fault (h : Step l (.error e) l') : l.position.toPlace ≤ e.place := by
  cases h with
  | @fault gap =>
    rw [place_toError]
    exact l.position.le_afterAll gap

theorem Step.le_place (h : Step l (.ok t) l') : l.position.toPlace ≤ l'.position.toPlace := by
  cases h with
  | @ending gap => exact l.position.le_afterAll gap
  | @token gap text => exact l.position.le_afterAll (gap ++ text)

theorem Step.token_lt (h : Step l (.ok t) l') (hk : t.kind ≠ .endOfFile) :
    t.start.toPlace < l'.position.toPlace := by
  cases h with
  | ending => exact absurd rfl hk
  | @token gap text rest lexeme kind rest_eq blank spelling =>
    have hlt := (l.position.afterAll gap).lt_afterAll spelling.text_ne_nil
    rwa [← Position.afterAll_append] at hlt

/-- The tokens that are left stand before the error that ends them, and no sooner than
the lexer does. -/
theorem scan_error_place (h : l.scan.ending = .error e) :
    l.position.toPlace ≤ e.place ∧ ∀ t ∈ l.scan.tokens, t.start.toPlace < e.place := by
  induction l using scan_induction with
  | fault l l' e' hx hscan =>
    rw [hscan] at h ⊢
    obtain rfl := Except.error.inj h
    exact ⟨(step_of_next hx).le_fault, by simp⟩
  | ending l l' t hx hk hscan =>
    rw [hscan] at h
    cases h
  | token l l' t hx hk hscan ih =>
    have hs := step_of_next hx
    rw [hscan] at h ⊢
    obtain ⟨hle, hts⟩ := ih h
    have ht := (hs.token_lt hk).trans_le hle
    exact ⟨hs.le_place.trans hle, List.forall_mem_cons.2 ⟨ht, hts⟩⟩

/-- Every token that is left spells something, and the one that ends them is the end of the text. -/
theorem scan_spelled (l : Lexer) :
    (∀ t ∈ l.scan.tokens, ∃ text, Spelling t.kind t.lexeme.toList text) ∧
      ∀ t, l.scan.ending = .ok t → t.kind = .endOfFile := by
  induction l using scan_induction with
  | fault l l' e hx hscan =>
    rw [hscan]
    exact ⟨by simp, nofun⟩
  | ending l l' t hx hk hscan =>
    rw [hscan]
    refine ⟨by simp, fun u hu => ?_⟩
    rwa [← Except.ok.inj hu]
  | token l l' t hx hk hscan ih =>
    have hs := step_of_next hx
    rw [hscan]
    refine ⟨List.forall_mem_cons.2 ⟨?_, ih.1⟩, ih.2⟩
    cases hs with
    | ending => exact absurd rfl hk
    | token rest_eq blank spelling =>
      rw [String.toList_ofList]
      exact ⟨_, spelling⟩

theorem next_ending (h : l.next = (.ok t, l')) (hk : t.kind = .endOfFile) :
    l'.next = (.ok t, l') := by
  have hs := step_of_next h
  cases hs with
  | ending => rfl
  | token rest_eq blank spelling => exact absurd hk spelling.kind_ne_endOfFile

end Lexer

end VnScript
