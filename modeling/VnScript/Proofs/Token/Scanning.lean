import Mathlib.Data.List.Induction
import Mathlib.Data.String.Basic
import VnScript.Proofs.Token.Spelling

namespace VnScript

open String (utf8Len)

namespace Position

variable (p : Position) (c : Char) (a b : List Char)

theorem afterAll_append : p.afterAll (a ++ b) = (p.afterAll a).afterAll b := by
  simp [afterAll]

theorem offset_after : (p.after c).offset = p.offset + c.utf8Size := by
  unfold after
  split <;> rfl

theorem offset_afterAll : (p.afterAll a).offset = p.offset + utf8Len a := by
  induction a generalizing p with
  | nil => simp [afterAll]
  | cons c a ih =>
    have h := ih (p.after c)
    rw [offset_after] at h
    simp only [afterAll, List.foldl_cons, String.utf8Len_cons] at h ⊢
    omega

theorem line_afterAll : (p.afterAll a).line = p.line + a.count '\n' := by
  induction a generalizing p with
  | nil => simp [afterAll]
  | cons c a ih =>
    have h := ih (p.after c)
    simp only [afterAll, List.foldl_cons] at h ⊢
    rw [h, after]
    by_cases hc : c = '\n'
    · subst hc
      simp only [if_true, List.count_cons_self]
      omega
    · simp [hc]

theorem column_afterAll_start :
    (start.afterAll a).column = 1 + (a.reverse.takeWhile (· ≠ '\n')).length := by
  induction a using List.reverseRecOn with
  | nil => rfl
  | append_singleton a c ih =>
    rw [afterAll_append]
    change ((start.afterAll a).after c).column = _
    unfold after
    by_cases hc : c = '\n'
    · simp [hc]
    · rw [if_neg hc]
      simp [hc, ih]
      omega

end Position

namespace Lexer

/-- What a call of the lexer does: blanks are skipped, then the text ends, spells a
token or has none at its front. -/
inductive Step (l : Lexer) : Except LexError Token → Lexer → Prop
  | ending {gap : List Char} (rest_eq : l.rest = gap) (blank : ∀ c ∈ gap, Text.isBlank c) :
    Step l (.ok (endToken ⟨[], l.position.afterAll gap⟩)) ⟨[], l.position.afterAll gap⟩
  | token {gap text rest lexeme : List Char} {kind : TokenKind}
      (rest_eq : l.rest = gap ++ text ++ rest) (blank : ∀ c ∈ gap, Text.isBlank c)
      (spelling : Spelling kind lexeme text)
      (comment : kind = .comment → rest.head? ∈ [none, some '\n', some '}']) :
    Step l (.ok ⟨kind, String.ofList lexeme, l.position.afterAll gap,
        (l.position.afterAll (gap ++ text)).offset⟩)
      ⟨rest, l.position.afterAll (gap ++ text)⟩
  | fault {gap text rest : List Char} {fault : LexFault}
      (rest_eq : l.rest = gap ++ text ++ rest) (blank : ∀ c ∈ gap, Text.isBlank c)
      (front : text ++ rest ≠ []) :
    Step l (.error (fault.toError (l.position.afterAll gap).toPlace))
      ⟨rest, l.position.afterAll (gap ++ text)⟩

theorem step_next (l : Lexer) : Step l l.next.1 l.next.2 := by
  have hgap := List.takeWhile_append_dropWhile (p := Text.isBlank) (l := l.rest)
  have blank : ∀ c ∈ l.rest.takeWhile Text.isBlank, Text.isBlank c :=
    fun c hc => List.mem_takeWhile_imp hc
  unfold next skipBlanks
  cases hr : l.rest.dropWhile Text.isBlank with
  | nil =>
    rw [hr, List.append_nil] at hgap
    exact .ending hgap.symm blank
  | cons c cs =>
    have happ := Reading.first_append c cs
    rw [hr, ← happ, ← List.append_assoc] at hgap
    simp only [← Position.afterAll_append]
    cases ho : (Reading.first c cs).outcome with
    | ok t =>
      obtain ⟨kind, lexeme⟩ := t
      exact .token hgap.symm blank (Reading.first_spelling ho)
        fun hk => Reading.first_comment_rest (hk ▸ ho)
    | error fault => exact .fault hgap.symm blank (by simp [happ])

variable {l l' : Lexer} {t : Token} {e : LexError}

theorem step_of_next {x : Except LexError Token} (h : l.next = (x, l')) : Step l x l' := by
  have hs := l.step_next
  rwa [h] at hs

theorem Step.rest_length (h : Step l (.ok t) l') (hk : t.kind ≠ .endOfFile) :
    l'.rest.length < l.rest.length := by
  cases h with
  | ending => exact absurd rfl hk
  | token rest_eq blank spelling =>
    have := spelling.text_ne_nil
    have := List.length_pos_iff.2 this
    simp only [rest_eq, List.length_append]
    omega

def scan (l : Lexer) : Scan := Scan.within l.rest.length l

theorem within_ending (n : Nat) (h : l.next = (.ok t, l')) (hk : t.kind = .endOfFile) :
    Scan.within n l = ⟨[], .ok t⟩ := by
  cases n <;> simp [Scan.within, h, hk]

theorem within_fault (n : Nat) (h : l.next = (.error e, l')) :
    Scan.within n l = ⟨[], .error e⟩ := by
  cases n <;> simp [Scan.within, h]

theorem within_token (n : Nat) (h : l.next = (.ok t, l')) (hk : t.kind ≠ .endOfFile) :
    Scan.within (n + 1) l =
      ⟨t :: (Scan.within n l').tokens, (Scan.within n l').ending⟩ := by
  simp [Scan.within, h, hk]

theorem within_eq_within {n m : Nat} (hn : l.rest.length ≤ n) (hm : l.rest.length ≤ m) :
    Scan.within n l = Scan.within m l := by
  induction n generalizing l m with
  | zero =>
    have hr : l.rest = [] := List.length_eq_zero_iff.1 (Nat.le_zero.1 hn)
    have hnext : l.next = (.ok l.endToken, l) := by
      obtain ⟨rest, position⟩ := l
      subst hr
      rfl
    rw [within_ending 0 hnext rfl, within_ending m hnext rfl]
  | succ n ih =>
    rcases hx : l.next with ⟨x, l'⟩
    have hs := step_of_next hx
    cases x with
    | error e => rw [within_fault _ hx, within_fault _ hx]
    | ok t =>
      by_cases hk : t.kind = .endOfFile
      · rw [within_ending _ hx hk, within_ending _ hx hk]
      · -- The token took a character at least.
        have hlt := hs.rest_length hk
        cases m with
        | zero => omega
        | succ m =>
          have hrest : Scan.within n l' = Scan.within m l' := ih (by omega) (by omega)
          rw [within_token _ hx hk, within_token _ hx hk, hrest]

theorem scan_ending (h : l.next = (.ok t, l')) (hk : t.kind = .endOfFile) :
    l.scan = ⟨[], .ok t⟩ := within_ending _ h hk

theorem scan_fault (h : l.next = (.error e, l')) : l.scan = ⟨[], .error e⟩ := within_fault _ h

theorem scan_token (h : l.next = (.ok t, l')) (hk : t.kind ≠ .endOfFile) :
    l.scan = ⟨t :: l'.scan.tokens, l'.scan.ending⟩ := by
  have hlt := (step_of_next h).rest_length hk
  obtain ⟨n, hn⟩ : ∃ n, l.rest.length = n + 1 := ⟨l.rest.length - 1, by omega⟩
  have hrest : Scan.within n l' = l'.scan := within_eq_within (by omega) (Nat.le_refl _)
  rw [scan, hn, within_token _ h hk, hrest]

/-- Induction on the tokens that are left: there is an error next, or the end of the text, or a
token with what is left behind it. -/
@[elab_as_elim]
theorem scan_induction {motive : Lexer → Prop}
    (fault : ∀ l l' e, l.next = (.error e, l') → l.scan = ⟨[], .error e⟩ → motive l)
    (ending : ∀ l l' t, l.next = (.ok t, l') → t.kind = .endOfFile → l.scan = ⟨[], .ok t⟩ →
      motive l)
    (token : ∀ l l' t, l.next = (.ok t, l') → t.kind ≠ .endOfFile →
      l.scan = ⟨t :: l'.scan.tokens, l'.scan.ending⟩ → motive l' → motive l)
    (l : Lexer) : motive l := by
  induction hn : l.rest.length using Nat.strong_induction_on generalizing l with
  | _ n ih =>
    rcases hx : l.next with ⟨x, l'⟩
    cases x with
    | error e => exact fault l l' e hx (scan_fault hx)
    | ok t =>
      by_cases hk : t.kind = .endOfFile
      · exact ending l l' t hx hk (scan_ending hx hk)
      · have hlt := (step_of_next hx).rest_length hk
        exact token l l' t hx hk (scan_token hx hk) (ih l'.rest.length (by omega) l' rfl)

end Lexer

end VnScript
