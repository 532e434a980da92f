import VnScript.Proofs.Execution.Laws
import VnScript.Proofs.Value.Range

namespace VnScript

/-- The values that a loop over items binds, in order. -/
def Items.values : Items → List Value
  | .numbers r => r.numbers.map .integer
  | .characters cs => cs.map .char

namespace Eval

variable {σ : Type}

/-- Run `body` for each value, up to the first for which it returns. -/
def forEach (body : Value → Eval σ Flow) : List Value → Eval σ Flow
  | [] => pure .next
  | v :: rest => andThen (body v) (forEach body rest)

theorem forRange_none (body : Value → Eval σ Flow) {it : Range.Iterator} (h : it.next.1 = none) :
    forRange body it = forEach body [] := by
  funext s
  rw [forRange]
  split
  · rfl
  · next hsome => cases h.symm.trans hsome

theorem forRange_some (body : Value → Eval σ Flow) {it : Range.Iterator} {w : Int64}
    (h : it.next.1 = some w) :
    forRange body it = andThen (body (.integer w)) (forRange body it.next.2) := by
  funext s
  rw [forRange, andThen_apply]
  split
  · next hnone => cases h.symm.trans hnone
  · next k hk =>
    cases h.symm.trans hk
    rfl

theorem forRange_eq (body : Value → Eval σ Flow) {it : Range.Iterator} {n : Int} (h : it.At n) :
    forRange body it = forEach body ((Range.numbersFrom it.step.toInt
      (Range.countFrom it.stop.toInt it.step.toInt n) n).map .integer) := by
  -- By induction on how many numbers are to come.
  generalize hc : Range.countFrom it.stop.toInt it.step.toInt n = count
  induction count generalizing it n with
  | zero =>
    have hnext := h.next_eq
    rw [if_neg (Range.countFrom_eq_zero_iff.1 hc), Option.map_eq_none_iff] at hnext
    exact forRange_none body hnext
  | succ count ih =>
    have hbefore : Range.IsBefore it.stop.toInt it.step.toInt n :=
      Decidable.not_not.1 fun hn => by
        rw [Range.countFrom_eq_zero_iff.2 hn] at hc
        cases hc
    have hnext := h.next_eq
    rw [if_pos hbefore, Option.map_eq_some_iff] at hnext
    obtain ⟨w, hw, rfl⟩ := hnext
    have hrest := Range.countFrom_add hc
    rw [← it.stop_next, ← it.step_next] at hrest
    have hat := h.next
    rw [← it.step_next] at hat
    have hloop := ih hat hrest
    rw [it.step_next] at hloop
    rw [forRange_some body hw, hloop, Range.numbersFrom, List.map_cons, forEach, Int64.ofInt_toInt]

theorem forCharacters_eq (body : Value → Eval σ Flow) (cs : List Char) :
    forCharacters body cs = forEach body (cs.map .char) := by
  induction cs with
  | nil => rfl
  | cons c cs ih =>
    funext s
    rw [List.map_cons, forEach, andThen_apply, ← ih]
    rfl

theorem forItems_eq (body : Value → Eval σ Flow) (items : Items) :
    forItems body items = forEach body items.values := by
  cases items with
  | numbers r => exact forRange_eq body r.iterator_at
  | characters cs => exact forCharacters_eq body cs

end Eval

variable {σ : Type} [Console σ]

theorem execBlock_append (limit : Nat) (ss ss' : List Stmt) :
    (execBlock limit (ss ++ ss') : Eval σ Flow) =
      Eval.andThen (execBlock limit ss) (execBlock limit ss') := by
  induction ss with
  | nil => rfl
  | cons s rest ih => rw [List.cons_append, execBlock, ih, execBlock, Eval.andThen_assoc]

/-- The rounds of a loop over numbers as one block: each declares the variable with its number, and
the body follows. -/
def unrolled (name : String) (numbers : List Int64) (body : List Stmt) : List Stmt :=
  numbers.flatMap fun n => .declare .auto name (some (.integer n)) :: body

theorem forEach_unrolled (limit : Nat) (name : String) (numbers : List Int64) (body : List Stmt) :
    (Eval.forEach (fun v => do Eval.assign name v; execBlock limit body)
      (numbers.map Value.integer) : Eval σ Flow) = execBlock limit (unrolled name numbers body) := by
  induction numbers with
  | nil => rfl
  | cons n rest ih =>
    have hround : unrolled name (n :: rest) body =
        .declare .auto name (some (.integer n)) :: body ++ unrolled name rest body :=
      List.flatMap_cons
    rw [List.map_cons, Eval.forEach, ih, hround, execBlock_append]
    rfl

/-- The numbers of a range are those from its start on in its step, for as long as they are before
its end, counted without bounds. A loop over a range evaluates the bounds once and then is the
block of its rounds, whatever they write. -/
theorem range_loop_exact :
    (∀ values r, Range.ofBounds values = .ok r ↔ Range.GivenBy values r ∧ r.step ≠ 0) ∧
      (∀ (r : Range) (calls : Nat),
        let n := r.start.toInt + calls * r.step.toInt
        (r.iterator.after calls).next.1 = r.numbers[calls]? ∧
          r.numbers[calls]?.map Int64.toInt =
            if 0 < r.step.toInt ∧ n < r.stop.toInt ∨ r.step.toInt < 0 ∧ r.stop.toInt < n
            then some n else none) ∧
      ∀ limit name type bounds body,
        ((Stmt.forIn name type (.call .free "range" bounds) body).exec limit : Eval σ Flow) = (do
          let values ← evalAll bounds
          let r ← Eval.ofExcept (Range.ofBounds values)
          execBlock limit (unrolled name r.numbers body)) := by
  refine ⟨fun values r => Range.ofBounds_eq_ok_iff, fun r calls => ?_,
    fun limit name type bounds body => ?_⟩
  · refine ⟨r.next_after calls, ?_⟩
    rw [← r.next_after calls]
    exact r.iterator_at.after calls
  · have hrounds (r : Range) := forEach_unrolled (σ := σ) limit name r.numbers body
    change ((evalAll bounds >>= fun values => Eval.ofExcept (Range.ofBounds values) >>= fun r =>
      pure (Items.numbers r)) >>= Eval.forItems _) = _
    simp only [bind_assoc, pure_bind, Eval.forItems_eq, Items.values, hrounds]

end VnScript
