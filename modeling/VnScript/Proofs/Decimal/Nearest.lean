import Mathlib.Algebra.Order.Field.Power
import Mathlib.Data.Rat.Cast.Order
import Mathlib.Tactic.FieldSimp
import Mathlib.Tactic.Linarith
import VnScript.Decimal.Binary

namespace VnScript.Decimal

variable {num den : Nat}

theorem roundQuotient_mul (hd : 0 < den) (a : Nat) : roundQuotient (a * den) den = a := by
  simp [roundQuotient, Nat.mul_div_cancel _ hd, hd]

theorem reached_iff (hd : 0 < den) (e : Int) :
    (if 0 ≤ e then den * Nat.pow 2 e.toNat ≤ num else den ≤ num * Nat.pow 2 (-e).toNat) ↔
      (2 : ℚ) ^ e ≤ num / den := by
  have hd' : (0 : ℚ) < den := by exact_mod_cast hd
  rw [le_div_iff₀ hd']
  split_ifs with he
  · obtain ⟨n, rfl⟩ := Int.eq_ofNat_of_zero_le he
    rw [zpow_natCast, Int.toNat_natCast, Nat.pow_eq, mul_comm den]
    exact_mod_cast Iff.rfl
  · obtain ⟨n, rfl⟩ := Int.exists_eq_neg_ofNat (by omega : e ≤ 0)
    rw [neg_neg, zpow_neg, zpow_natCast, Int.toNat_natCast, Nat.pow_eq,
      inv_mul_le_iff₀ (by positivity), mul_comm num]
    exact_mod_cast Iff.rfl

theorem logQuotient_bounds (hn : 0 < num) (hd : 0 < den) :
    (2 : ℚ) ^ logQuotient num den ≤ num / den ∧
      (num / den : ℚ) < 2 ^ (logQuotient num den + 1) := by
  have hd' : (0 : ℚ) < den := by exact_mod_cast hd
  have hnlow : ((2 ^ num.log2 : Nat) : ℚ) ≤ num :=
    Nat.cast_le.2 (Nat.log2_self_le (Nat.ne_of_gt hn))
  have hnhigh : (num : ℚ) < (2 ^ (num.log2 + 1) : Nat) := Nat.cast_lt.2 Nat.lt_log2_self
  have hdlow : ((2 ^ den.log2 : Nat) : ℚ) ≤ den :=
    Nat.cast_le.2 (Nat.log2_self_le (Nat.ne_of_gt hd))
  have hdhigh : (den : ℚ) < (2 ^ (den.log2 + 1) : Nat) := Nat.cast_lt.2 Nat.lt_log2_self
  have hpow (a b : Nat) : ((2 ^ a : Nat) : ℚ) / (2 ^ b : Nat) = 2 ^ ((a : Int) - b) := by
    rw [zpow_sub₀ two_ne_zero, zpow_natCast, zpow_natCast, Nat.cast_pow, Nat.cast_pow,
      Nat.cast_ofNat]
  have hlow : (2 : ℚ) ^ ((num.log2 : Int) - den.log2 - 1) ≤ num / den := by
    have h := div_le_div₀ (by positivity) hnlow hd' hdhigh.le
    rwa [hpow, Nat.cast_add_one, ← sub_sub] at h
  have hhigh : (num / den : ℚ) < 2 ^ ((num.log2 : Int) - den.log2 + 1) := by
    have h := div_lt_div₀ hnhigh hdlow (by positivity) (by positivity)
    rwa [hpow, Nat.cast_add_one, add_sub_right_comm] at h
  -- The lengths leave two powers open, and the quotient is compared with the larger one.
  unfold logQuotient
  simp only [reached_iff hd]
  split_ifs with hr
  · exact ⟨hr, hhigh⟩
  · rw [sub_add_cancel]
    exact ⟨hlow, not_le.1 hr⟩

namespace FloatFormat

variable {f : FloatFormat} {significand scale : Nat}

theorem exponent_eq (hn : 0 < num) (hd : 0 < den)
    (htop : significand < 2 ^ (f.fractionBits + 1))
    (hlow : scale = 0 ∨ 2 ^ f.fractionBits ≤ significand)
    (h : (num : ℚ) / den = significand * 2 ^ (f.minExponent + scale)) :
    max f.minExponent (logQuotient num den - f.fractionBits) = f.minExponent + scale := by
  obtain ⟨hl, hu⟩ := logQuotient_bounds hn hd
  rw [h] at hl hu
  have hunit : (0 : ℚ) < 2 ^ (f.minExponent + scale) := by positivity
  have hshift (n : Nat) : ((2 ^ n : Nat) : ℚ) * 2 ^ (f.minExponent + scale) =
      2 ^ (n + f.minExponent + scale) := by
    rw [Nat.cast_pow, Nat.cast_ofNat, ← zpow_natCast, ← zpow_add₀ two_ne_zero, add_assoc]
  have hupper : logQuotient num den < f.fractionBits + 1 + f.minExponent + scale := by
    have hs : (significand : ℚ) < (2 ^ (f.fractionBits + 1) : Nat) := Nat.cast_lt.2 htop
    have hlt := hl.trans_lt (mul_lt_mul_of_pos_right hs hunit)
    rw [hshift, zpow_lt_zpow_iff_right₀ one_lt_two] at hlt
    exact_mod_cast hlt
  obtain rfl | hs := hlow
  · rw [Nat.cast_zero] at hupper ⊢
    omega
  · have hs' : ((2 ^ f.fractionBits : Nat) : ℚ) ≤ significand := Nat.cast_le.2 hs
    have hlt := (mul_le_mul_of_nonneg_right hs' hunit.le).trans_lt hu
    rw [hshift, zpow_lt_zpow_iff_right₀ one_lt_two] at hlt
    omega

theorem significand_eq (hd : 0 < den) {e : Int} (h : (num : ℚ) / den = significand * 2 ^ e) :
    (if 0 ≤ e then roundQuotient num (den * Nat.pow 2 e.toNat)
      else roundQuotient (num * Nat.pow 2 (-e).toNat) den) = significand := by
  have hd' : (den : ℚ) ≠ 0 := by exact_mod_cast Nat.ne_of_gt hd
  rw [div_eq_iff hd'] at h
  split_ifs with he
  · obtain ⟨n, rfl⟩ := Int.eq_ofNat_of_zero_le he
    have hn : num = significand * (den * Nat.pow 2 n) := by
      rw [zpow_natCast, mul_assoc, mul_comm _ (den : ℚ)] at h
      exact_mod_cast h
    rw [Int.toNat_natCast, hn]
    exact roundQuotient_mul (Nat.mul_pos hd (Nat.pow_pos two_pos)) _
  · obtain ⟨n, rfl⟩ := Int.exists_eq_neg_ofNat (by omega : e ≤ 0)
    have hn : num * Nat.pow 2 n = significand * den := by
      rw [zpow_neg, zpow_natCast] at h
      have h' : (num : ℚ) * 2 ^ n = significand * den := by
        rw [h]
        field_simp
      exact_mod_cast h'
    rw [neg_neg, Int.toNat_natCast, hn]
    exact roundQuotient_mul hd _

/-- A quotient that is a number of the format, or the power of two behind the largest one,
gets the bits of that number. -/
theorem nearest_exact (hd : 0 < den) (htop : significand < 2 ^ (f.fractionBits + 1))
    (hlow : scale = 0 ∨ 2 ^ f.fractionBits ≤ significand)
    (hbits : scale * 2 ^ f.fractionBits + significand ≤ f.infinityBits)
    (h : (num : ℚ) / den = significand * 2 ^ (f.minExponent + scale)) :
    f.nearest num den = scale * 2 ^ f.fractionBits + significand := by
  have hd' : (den : ℚ) ≠ 0 := by exact_mod_cast Nat.ne_of_gt hd
  unfold nearest
  split_ifs with hn
  · have hs : significand = 0 := by
      simpa [hn, zpow_ne_zero] using h
    obtain rfl | hs' := hlow
    · simp [hs]
    · have := Nat.two_pow_pos f.fractionBits
      omega
  · simp only [exponent_eq (Nat.pos_of_ne_zero hn) hd htop hlow h, significand_eq hd h]
    simp only [Nat.pow_eq, add_sub_cancel_left, Int.toNat_natCast]
    split_ifs with hs
    · obtain rfl : scale = 0 := hlow.resolve_right (Nat.not_le.2 hs)
      simpa using hbits
    · exact Nat.min_eq_left hbits

end FloatFormat

end VnScript.Decimal
