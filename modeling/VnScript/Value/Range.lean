import VnScript.Value.Basic
import VnScript.Value.Error

namespace VnScript

/-- The numbers from `start` in steps of `step` that stay before `stop`. -/
structure Range where
  start : Int64
  stop : Int64
  step : Int64

namespace Range

/-- A range that is run through. `pending` is the number to come if it is still before `stop`;
there is none where the range has ended or where the step to it leaves the 64 bits. -/
structure Iterator where
  pending : Option Int64
  stop : Int64
  step : Int64

def iterator (r : Range) : Iterator := ⟨some r.start, r.stop, r.step⟩

namespace Iterator

def next (it : Iterator) : Option Int64 × Iterator :=
  match it.pending with
  | none => (none, it)
  | some n =>
    if (0 < it.step ∧ n < it.stop) ∨ (it.step < 0 ∧ it.stop < n) then
      (some n, { it with pending := Text.int64? (n.toInt + it.step.toInt) })
    else (none, { it with pending := none })

def distance (it : Iterator) : Nat :=
  match it.pending with
  | none => 0
  | some n =>
    if 0 < it.step then (it.stop.toInt - n.toInt).toNat else (n.toInt - it.stop.toInt).toNat

theorem distance_next {it : Iterator} {n : Int64} (h : it.next.1 = some n) :
    it.next.2.distance < it.distance := by
  obtain ⟨pending, stop, step⟩ := it
  cases pending with
  | none => cases h
  | some m =>
    unfold next at h ⊢
    simp only at h ⊢
    split at h
    · next hbefore =>
      simp only [if_pos hbefore, distance]
      simp only [Int64.lt_iff_toInt_lt, Int64.toInt_zero] at hbefore ⊢
      split
      · split <;> omega
      · next k hk =>
        have hk : k.toInt = m.toInt + step.toInt := Text.int64?_eq_some_iff.1 hk
        split <;> omega
    · cases h

end Iterator

def integer? : Value → Except RuntimeError Int64
  | .integer n => .ok n
  | v => .error (.invalidConversion v.render "int")

/-- The range with the given bounds: an end, a start and an end, or a start, an
end and a step other than zero. -/
def ofBounds (bounds : List Value) : Except RuntimeError Range := do
  let r ← match ← bounds.mapM integer? with
    | [stop] => pure ⟨0, stop, 1⟩
    | [start, stop] => pure ⟨start, stop, 1⟩
    | [start, stop, step] => pure ⟨start, stop, step⟩
    | _ => throw (.argumentCount "range" "1 to 3" bounds.length)
  if r.step = 0 then throw .invalidRange
  return r

end Range

inductive Items where
  | numbers (range : Range)
  | characters (text : List Char)

def Items.ofValue : Value → Except RuntimeError Items
  | .string s => .ok (.characters s.toList)
  | v => .error (.notIterable v.typeName)

end VnScript
