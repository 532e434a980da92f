import VnScript.Value.Range

namespace VnScript.Range

/-- A number of a range that ends before `stop`, from the side that the step goes to. -/
def IsBefore (stop step n : Int) : Prop := 0 < step ∧ n < stop ∨ step < 0 ∧ stop < n
  deriving Decidable

def countFrom (stop step first : Int) : Nat :=
  let distance := if 0 ≤ step then stop - first else first - stop
  (distance.toNat + step.natAbs - 1) / step.natAbs

def count (r : Range) : Nat := countFrom r.stop.toInt r.step.toInt r.start.toInt

def numbersFrom (step : Int) : Nat → Int → List Int64
  | 0, _ => []
  | count + 1, first => Int64.ofInt first :: numbersFrom step count (first + step)

def numbers (r : Range) : List Int64 := numbersFrom r.step.toInt r.count r.start.toInt

section Counting

variable {stop step first : Int}

theorem add_step (first step : Int) (i : Nat) :
    first + step + i * step = first + (i + 1 : Nat) * step := by
  rw [Int.natCast_succ, Int.add_mul, Int.one_mul]
  omega

theorem lt_ceil_iff {d k i : Nat} (hk : 0 < k) : i < (d + k - 1) / k ↔ i * k < d := by
  rw [Nat.lt_div_iff_mul_lt hk]
  omega

theorem lt_countFrom_iff {i : Nat} :
    i < countFrom stop step first ↔ IsBefore stop step (first + i * step) := by
  unfold countFrom IsBefore
  obtain hs | rfl | hs := Int.lt_trichotomy step 0
  · obtain ⟨k, rfl⟩ : ∃ k : Nat, step = -(k : Int) := ⟨step.natAbs, by omega⟩
    have hmul : (i : Int) * -(k : Int) = -((i * k : Nat) : Int) := by
      rw [Int.natCast_mul, Int.mul_neg]
    rw [if_neg (by omega), Int.natAbs_neg, Int.natAbs_natCast, lt_ceil_iff (by omega), hmul]
    omega
  · simp
  · obtain ⟨k, rfl⟩ : ∃ k : Nat, step = (k : Int) := ⟨step.natAbs, by omega⟩
    have hmul : (i : Int) * (k : Int) = ((i * k : Nat) : Int) := by simp
    rw [if_pos (by omega), Int.natAbs_natCast, lt_ceil_iff (by omega), hmul]
    omega

theorem countFrom_eq_zero_iff : countFrom stop step first = 0 ↔ ¬IsBefore stop step first := by
  have h : 0 < countFrom stop step first ↔ IsBefore stop step (first + (0 : Nat) * step) :=
    lt_countFrom_iff
  simp only [Int.natCast_zero, Int.zero_mul, Int.add_zero] at h
  rw [← h]
  omega

theorem countFrom_add {count : Nat} (h : countFrom stop step first = count + 1) :
    countFrom stop step (first + step) = count := by
  have hshift (i : Nat) : i < countFrom stop step (first + step) ↔ i < count := by
    rw [lt_countFrom_iff, add_step, ← lt_countFrom_iff, h]
    omega
  exact Nat.le_antisymm (Nat.not_lt.1 fun hlt => Nat.lt_irrefl _ ((hshift _).1 hlt))
    (Nat.not_lt.1 fun hlt => Nat.lt_irrefl _ ((hshift _).2 hlt))

theorem getElem?_numbersFrom (step first : Int) (count i : Nat) :
    (numbersFrom step count first)[i]? =
      if i < count then some (Int64.ofInt (first + i * step)) else none := by
  induction count generalizing first i with
  | zero => rfl
  | succ count ih =>
    cases i with
    | zero => simp [numbersFrom]
    | succ i =>
      rw [numbersFrom, List.getElem?_cons_succ, ih, add_step]
      simp only [Nat.add_lt_add_iff_right]

end Counting

namespace Iterator

variable {it : Iterator} {n : Int}

/-- The iterator has come to a number, which need not be one of the range any more. -/
def At (it : Iterator) (n : Int) : Prop :=
  (∃ w, it.pending = some w ∧ w.toInt = n) ∨
    it.pending = none ∧ ¬IsBefore it.stop.toInt it.step.toInt n

def after : Nat → Iterator → Iterator
  | 0, it => it
  | calls + 1, it => after calls it.next.2

theorem stop_next (it : Iterator) : it.next.2.stop = it.stop := by
  unfold next
  split
  · rfl
  · split <;> rfl

theorem step_next (it : Iterator) : it.next.2.step = it.step := by
  unfold next
  split
  · rfl
  · split <;> rfl

theorem isBefore_iff {stop step w : Int64} :
    (0 < step ∧ w < stop) ∨ (step < 0 ∧ stop < w) ↔
      IsBefore stop.toInt step.toInt w.toInt := by
  simp only [Int64.lt_iff_toInt_lt, Int64.toInt_zero, IsBefore]

/-- A call gives the number at which the iterator stands, if it is one of the range. -/
theorem At.next_eq (h : it.At n) : it.next.1.map Int64.toInt =
    if IsBefore it.stop.toInt it.step.toInt n then some n else none := by
  obtain ⟨pending, stop, step⟩ := it
  obtain ⟨w, rfl, rfl⟩ | ⟨rfl, hn⟩ := h
  · simp only [next, isBefore_iff]
    split <;> rfl
  · rw [if_neg hn]
    rfl

/-- A number past the last one may have no pending number, as the step to it may leave the 64
bits: then it is not before the end. -/
theorem At.next (h : it.At n) : it.next.2.At (n + it.step.toInt) := by
  obtain ⟨pending, stop, step⟩ := it
  obtain ⟨w, rfl, rfl⟩ | ⟨rfl, hn⟩ := h
  · simp only [Iterator.next, isBefore_iff]
    split
    · cases hnext : Text.int64? (w.toInt + step.toInt) with
      | some v => exact .inl ⟨v, rfl, Text.int64?_eq_some_iff.1 hnext⟩
      | none =>
        -- The step left the 64 bits, and with them everything before `stop`.
        have hout := Text.int64?_eq_none_iff.1 hnext
        have hw := w.toInt_le
        have hw' := w.minValue_le_toInt
        have hs := stop.toInt_le
        have hs' := stop.minValue_le_toInt
        refine .inr ⟨rfl, ?_⟩
        simp only [IsBefore]
        omega
    · next hn =>
      refine .inr ⟨rfl, ?_⟩
      simp only [IsBefore] at hn ⊢
      omega
  · refine .inr ⟨rfl, ?_⟩
    simp only [Iterator.next, IsBefore] at hn ⊢
    omega

theorem At.after (h : it.At n) (calls : Nat) :
    (it.after calls).next.1.map Int64.toInt =
      if IsBefore it.stop.toInt it.step.toInt (n + calls * it.step.toInt)
      then some (n + calls * it.step.toInt) else none := by
  induction calls generalizing it n with
  | zero => simpa [Iterator.after] using h.next_eq
  | succ calls ih =>
    rw [Iterator.after, ih h.next, stop_next, step_next, add_step]

end Iterator

theorem iterator_at (r : Range) : r.iterator.At r.start.toInt := .inl ⟨r.start, rfl, rfl⟩

/-- The calls of the iterator give the numbers of the range, one after the other. -/
theorem next_after (r : Range) (calls : Nat) :
    (r.iterator.after calls).next.1 = r.numbers[calls]? := by
  have h : (r.iterator.after calls).next.1.map Int64.toInt =
      if IsBefore r.stop.toInt r.step.toInt (r.start.toInt + calls * r.step.toInt)
      then some (r.start.toInt + calls * r.step.toInt) else none := r.iterator_at.after calls
  rw [numbers, getElem?_numbersFrom]
  simp only [count, lt_countFrom_iff]
  split at h
  · next hbefore =>
    obtain ⟨w, hw, hn⟩ := Option.map_eq_some_iff.1 h
    rw [hw, if_pos hbefore, ← hn, Int64.ofInt_toInt]
  · next hbefore => rw [if_neg hbefore, Option.map_eq_none_iff.1 h]

example : numbers ⟨9223372036854775806, 9223372036854775807, 5⟩ = [9223372036854775806] := by
  decide

section Bounds

/-- What the bounds of a range tell: its end, or its start and its end, or its step as well. -/
inductive GivenBy : List Value → Range → Prop
  | stop (stop : Int64) : GivenBy [.integer stop] ⟨0, stop, 1⟩
  | start (start stop : Int64) : GivenBy [.integer start, .integer stop] ⟨start, stop, 1⟩
  | step (start stop step : Int64) :
    GivenBy [.integer start, .integer stop, .integer step] ⟨start, stop, step⟩

theorem integers_of_mapM {values : List Value} {ns : List Int64}
    (h : values.mapM integer? = .ok ns) : values = ns.map Value.integer := by
  induction values generalizing ns with
  | nil =>
    cases h
    rfl
  | cons v rest ih =>
    rw [List.mapM_cons] at h
    cases v with
    | integer n =>
      cases hr : rest.mapM integer? with
      | ok ms =>
        rw [hr] at h
        cases h
        exact congrArg (Value.integer n :: ·) (ih hr)
      | error e =>
        rw [hr] at h
        cases h
    | _ => cases h

theorem ofBounds_of_given {values : List Value} {r : Range} (h : GivenBy values r) :
    ofBounds values = if r.step = 0 then .error .invalidRange else .ok r := by
  cases h <;> rfl

theorem ofBounds_eq_ok_iff {values : List Value} {r : Range} :
    ofBounds values = .ok r ↔ GivenBy values r ∧ r.step ≠ 0 := by
  constructor
  · intro h
    obtain ⟨r', hr⟩ : ∃ r', GivenBy values r' := by
      cases hm : values.mapM integer? with
      | error e =>
        rw [ofBounds, hm] at h
        cases h
      | ok ns =>
        obtain rfl := integers_of_mapM hm
        rw [ofBounds, hm] at h
        match ns with
        | [stop] => exact ⟨_, .stop stop⟩
        | [start, stop] => exact ⟨_, .start start stop⟩
        | [start, stop, step] => exact ⟨_, .step start stop step⟩
        | [] => cases h
        | _ :: _ :: _ :: _ :: _ => cases h
    rw [ofBounds_of_given hr] at h
    split at h
    · cases h
    · next hs =>
      cases h
      exact ⟨hr, hs⟩
  · rintro ⟨h, hs⟩
    rw [ofBounds_of_given h, if_neg hs]

end Bounds

end VnScript.Range
