import Mathlib.Algebra.Group.Int.Defs
import VnScript.Value.Arithmetic

namespace VnScript

/-- An integer of 64 bits with a sign. -/
def Fits (n : Int) : Prop := -2 ^ 63 ≤ n ∧ n < 2 ^ 63
  deriving Decidable

namespace Operator

/-- The operators whose results on integers are those of unbounded integers. -/
def IsExact (op : Operator) : Prop :=
  op = .sub ∨ op = .mul ∨ op = .div ∨ op = .mod ∨ op = .shiftRight
  deriving Decidable

/-- What an operator makes of two unbounded integers. A quotient is truncated toward zero, a
remainder has the sign of the dividend, and a shift divides by a power of two and rounds down. -/
def onIntegers : Operator → Int → Int → Int
  | .sub, a, b => a - b
  | .mul, a, b => a * b
  | .div, a, b => a.tdiv b
  | .mod, a, b => a.tmod b
  | .shiftRight, a, b => a.fdiv (2 ^ b.toNat)
  | _, _, _ => 0

def DividesByZero (op : Operator) (b : Int) : Prop := (op = .div ∨ op = .mod) ∧ b = 0
  deriving Decidable

/-- An operation has no result of 64 bits. The remainder of the smallest integer by -1 has none, as
the quotient has none. -/
def Overflows (op : Operator) (a b : Int) : Prop :=
  ¬Fits (op.onIntegers a b) ∨ op = .shiftRight ∧ ¬(0 ≤ b ∧ b ≤ 63) ∨
    op = .mod ∧ a = -2 ^ 63 ∧ b = -1
  deriving Decidable

/-- The error of an operation on two integers, if there is one. -/
def fault? (op : Operator) (a b : Int) : Option RuntimeError :=
  if op.DividesByZero b then some .divisionByZero
  else if op.Overflows a b then some (.integerOverflow op.symbol)
  else none

section Results

variable {op : Operator}

theorem fits_toInt (n : Int64) : Fits n.toInt := ⟨n.le_toInt, n.toInt_lt⟩

theorem toInt_ofInt_of_fits {n : Int} (h : Fits n) : (Int64.ofInt n).toInt = n :=
  Int64.toInt_ofInt_of_le h.1 h.2

theorem toInt_ofInt_eq_iff {n : Int} : (Int64.ofInt n).toInt = n ↔ Fits n :=
  ⟨fun h => h ▸ fits_toInt _, toInt_ofInt_of_fits⟩

theorem fit_of_fits {n : Int} (h : Fits n) : op.fit n = .ok (Int64.ofInt n) := by
  have hn : Text.int64? n = some (Int64.ofInt n) :=
    Text.int64?_eq_some_iff.2 (toInt_ofInt_of_fits h)
  rw [fit, hn]

theorem fit_of_not_fits {n : Int} (h : ¬Fits n) : op.fit n = .error (.integerOverflow op.symbol) := by
  have hn : Text.int64? n = none := by
    rw [Text.int64?_eq_none_iff, Int64.toInt_minValue, Int64.toInt_maxValue]
    unfold Fits at h
    omega
  rw [fit, hn]

theorem fits_tdiv_iff {a b : Int} (ha : Fits a) : Fits (a.tdiv b) ↔ ¬(a = -2 ^ 63 ∧ b = -1) := by
  have hle := Int.natAbs_tdiv_le_natAbs a b
  have habs := Int.natAbs_tdiv a b
  constructor
  · rintro h ⟨rfl, rfl⟩
    exact absurd h (by decide)
  · intro h
    refine Decidable.byContradiction fun hn => ?_
    unfold Fits at ha hn
    have htop : (a.tdiv b).natAbs = 2 ^ 63 := by omega
    have hsmallest : a = -2 ^ 63 := by omega
    have hone : b.natAbs = 1 := by
      have hself : a.natAbs / b.natAbs = a.natAbs := habs.symm.trans (by rw [htop, hsmallest]; rfl)
      exact (Nat.div_eq_self.1 hself).resolve_left (by omega)
    obtain rfl | rfl : b = 1 ∨ b = -1 := by omega
    · rw [Int.tdiv_one] at hn
      exact hn ha
    · exact h ⟨hsmallest, rfl⟩

theorem fits_tmod {a : Int} (ha : Fits a) (b : Int) : Fits (a.tmod b) := by
  have habs := Int.natAbs_tmod a b
  have hle := Nat.mod_le a.natAbs b.natAbs
  have hpositive (h : 0 ≤ a) : 0 ≤ a.tmod b := Int.tmod_nonneg b h
  have hnegative (h : 0 ≤ -a) : 0 ≤ -a.tmod b := Int.neg_tmod a b ▸ Int.tmod_nonneg b h
  unfold Fits at *
  omega

theorem fits_shift {a : Int} (ha : Fits a) (k : Nat) : Fits (a.fdiv (2 ^ k)) := by
  have hk : (0 : Int) < 2 ^ k := Int.pow_pos (by decide)
  rw [Int.fdiv_eq_ediv_of_nonneg _ (Int.le_of_lt hk)]
  unfold Fits at *
  rw [Int.le_ediv_iff_mul_le hk, Int.ediv_lt_iff_lt_mul hk]
  omega

theorem fits_of_fault? {a b : Int} (h : op.fault? a b = none) : Fits (op.onIntegers a b) := by
  unfold fault? at h
  split at h
  · cases h
  split at h
  · cases h
  · next hn => exact Decidable.not_not.1 fun hf => hn (.inl hf)

theorem overflows_sub_iff {a b : Int} : Overflows .sub a b ↔ ¬Fits (a - b) := by
  simp [Overflows, onIntegers]

theorem overflows_mul_iff {a b : Int} : Overflows .mul a b ↔ ¬Fits (a * b) := by
  simp [Overflows, onIntegers]

theorem overflows_div_iff {a b : Int} : Overflows .div a b ↔ ¬Fits (a.tdiv b) := by
  simp [Overflows, onIntegers]

theorem overflows_mod_iff {a b : Int} (ha : Fits a) : Overflows .mod a b ↔ ¬Fits (a.tdiv b) := by
  rw [fits_tdiv_iff ha, Decidable.not_not]
  simp [Overflows, onIntegers, fits_tmod ha]

theorem overflows_shift_iff {a b : Int} (ha : Fits a) :
    Overflows .shiftRight a b ↔ ¬(0 ≤ b ∧ b ≤ 63) := by
  simp [Overflows, onIntegers, fits_shift ha]

theorem fit_eq {a b n : Int} (h : op.Overflows a b ↔ ¬Fits n) :
    op.fit n =
      if op.Overflows a b then .error (.integerOverflow op.symbol) else .ok (Int64.ofInt n) := by
  split
  · next ho => exact fit_of_not_fits (h.1 ho)
  · next hn => exact fit_of_fits (Decidable.not_not.1 (mt h.2 hn))

theorem eq_of_faults {a b : Int} {r : Except RuntimeError Int64}
    (hz : op.DividesByZero b → r = .error .divisionByZero)
    (ho : ¬op.DividesByZero b → op.Overflows a b → r = .error (.integerOverflow op.symbol))
    (hn : ¬op.DividesByZero b → ¬op.Overflows a b → r = .ok (Int64.ofInt (op.onIntegers a b))) :
    r = match op.fault? a b with
      | none => .ok (Int64.ofInt (op.onIntegers a b))
      | some e => .error e := by
  unfold fault?
  by_cases hzero : op.DividesByZero b
  · rw [if_pos hzero]
    exact hz hzero
  rw [if_neg hzero]
  by_cases hover : op.Overflows a b
  · rw [if_pos hover]
    exact ho hzero hover
  · rw [if_neg hover]
    exact hn hzero hover

end Results

/-- Arithmetic on words gives the result on unbounded integers or the error of the operation. -/
theorem arithmetic?_eq {op : Operator} (hop : op.IsExact) (a b : Int64) :
    op.arithmetic? a b = some (match op.fault? a.toInt b.toInt with
      | none => .ok (Int64.ofInt (op.onIntegers a.toInt b.toInt))
      | some e => .error e) := by
  have ha := fits_toInt a
  have hzero : b = 0 ↔ b.toInt = 0 := by
    rw [← Int64.toInt_inj]
    rfl
  -- A difference or a product only has to fit; the others look at the right operand first.
  obtain rfl | rfl | rfl | rfl | rfl := hop
  · have hfit := fit_eq (overflows_sub_iff (a := a.toInt) (b := b.toInt))
    exact congrArg some (eq_of_faults nofun (fun _ ho => hfit.trans (if_pos ho))
      fun _ hn => hfit.trans (if_neg hn))
  · have hfit := fit_eq (overflows_mul_iff (a := a.toInt) (b := b.toInt))
    exact congrArg some (eq_of_faults nofun (fun _ ho => hfit.trans (if_pos ho))
      fun _ hn => hfit.trans (if_neg hn))
  · have hfit := fit_eq (overflows_div_iff (a := a.toInt) (b := b.toInt))
    refine congrArg some (eq_of_faults (fun hz => ?_) (fun hz ho => ?_) fun hz hn => ?_)
    · exact if_pos (hzero.2 hz.2)
    · rw [if_neg fun hb => hz ⟨.inl rfl, hzero.1 hb⟩]
      exact hfit.trans (if_pos ho)
    · rw [if_neg fun hb => hz ⟨.inl rfl, hzero.1 hb⟩]
      exact hfit.trans (if_neg hn)
  · have hfit := fit_eq (overflows_mod_iff (b := b.toInt) ha)
    refine congrArg some (eq_of_faults (fun hz => ?_) (fun hz ho => ?_) fun hz hn => ?_)
    · exact if_pos (hzero.2 hz.2)
    · rw [if_neg fun hb => hz ⟨.inr rfl, hzero.1 hb⟩, hfit, if_pos ho]
      rfl
    · rw [if_neg fun hb => hz ⟨.inr rfl, hzero.1 hb⟩, hfit, if_neg hn]
      rfl
  · refine congrArg some (eq_of_faults nofun (fun _ ho => ?_) fun _ hn => ?_)
    · have hb := (overflows_shift_iff ha).1 ho
      rw [shiftAmount, if_neg (by omega)]
      rfl
    · have hb := Decidable.not_not.1 (mt (overflows_shift_iff ha).2 hn)
      have hk : (0 : Int) ≤ 2 ^ b.toInt.toNat := Int.pow_nonneg (by decide)
      rw [shiftAmount, if_pos (by omega), onIntegers, Int.fdiv_eq_ediv_of_nonneg _ hk]
      have hpow : ((Nat.pow 2 b.toInt.toNat : Nat) : Int) = 2 ^ b.toInt.toNat :=
        Int.natCast_pow 2 _
      rw [← hpow]
      rfl

/-- A left shift multiplies by a power of two and keeps the last 64 bits of the product. -/
theorem shiftLeft_eq (a b : Int64) :
    arithmetic? .shiftLeft a b = some (if 0 ≤ b.toInt ∧ b.toInt ≤ 63 then
      .ok (Int64.ofInt (a.toInt * 2 ^ b.toInt.toNat)) else .error (.integerOverflow "<<")) := by
  have hpow : ((Nat.pow 2 b.toInt.toNat : Nat) : Int) = 2 ^ b.toInt.toNat := Int.natCast_pow 2 _
  rw [← hpow]
  refine congrArg some ?_
  unfold shiftAmount
  by_cases hb : 0 ≤ b.toInt ∧ b.toInt ≤ 63
  · rw [if_pos (by omega), if_pos hb]
    rfl
  · rw [if_neg (by omega), if_neg hb]
    rfl

end Operator

end VnScript
