import VnScript.Proofs.Grammar.Reached
import VnScript.Proofs.Token.Progress

namespace VnScript

open Grammar

/-- A tape that holds nothing but tokens of a text. -/
structure Tape.TakenFrom (scan : Scan) (t : Tape) : Prop where
  tokens : ∀ token ∈ t.current :: t.pending, scan.Has token
  ending : t.ending = scan.ending

namespace Tape

variable {scan : Scan} {t t' : Tape}

theorem takenFrom_next (he : t.ending = scan.ending) (hp : ∀ token ∈ t.pending, scan.Has token)
    (hn : t.next = .ok t') : t'.TakenFrom scan := by
  obtain ⟨token, rest, htokens, rfl⟩ | ⟨token, -, hend, rfl⟩ := next_eq_ok hn
  · rw [htokens] at hp
    exact ⟨hp, he⟩
  · refine ⟨fun u hu => ?_, he⟩
    obtain rfl := List.mem_singleton.1 hu
    exact .inr (he.symm.trans hend)

theorem TakenFrom.next (h : t.TakenFrom scan) (hn : t.next = .ok t') : t'.TakenFrom scan :=
  takenFrom_next h.ending (fun u hu => h.tokens u (List.mem_cons_of_mem _ hu)) hn

theorem TakenFrom.peek {k : TokenKind} (h : t.TakenFrom scan) (hp : t.peek = .ok (k, t')) :
    t'.TakenFrom scan := by
  unfold Tape.peek at hp
  cases hn : t.next with
  | error e =>
    rw [hn] at hp
    cases hp
  | ok u =>
    rw [hn] at hp
    obtain ⟨-, rfl⟩ := Prod.mk.inj (Except.ok.inj hp)
    exact h

end Tape

end VnScript
