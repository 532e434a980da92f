import Mathlib.Tactic.Ring
import VnScript.Decimal.Notation
import VnScript.Proofs.Decimal.Nearest
import VnScript.Proofs.Token.Relexing
import VnScript.Text.Integer

namespace VnScript.Decimal

def digitsValue (ds : List Char) : Nat := Nat.ofDigitChars 10 ds 0

def lastDigits : Nat → Nat → List Char
  | 0, _ => []
  | count + 1, n => lastDigits count (n / 10) ++ [Nat.digitChar (n % 10)]

section Digits

variable {ds : List Char} {c : Char}

theorem digitsValue_append (ds es : List Char) :
    digitsValue (ds ++ es) = digitsValue ds * 10 ^ es.length + digitsValue es := by
  rw [digitsValue, Nat.ofDigitChars_append, Nat.ofDigitChars_eq_ofDigitChars_zero, mul_comm]
  rfl

theorem digitsValue_zeros (n : Nat) : digitsValue (List.replicate n '0') = 0 := by
  rw [digitsValue, Nat.ofDigitChars_replicate_zero, mul_zero]

theorem digitsValue_digit {n : Nat} (h : n < 10) : digitsValue [Nat.digitChar n] = n := by
  rw [digitsValue, Nat.ofDigitChars_cons_digitChar_of_lt_ten h, Nat.ofDigitChars_nil]
  omega

@[simp] theorem length_lastDigits (count n : Nat) : (lastDigits count n).length = count := by
  induction count generalizing n with
  | zero => rfl
  | succ count ih => simp [lastDigits, ih]

theorem isDigit_of_mem_lastDigits {count n : Nat} (h : c ∈ lastDigits count n) : c.isDigit := by
  induction count generalizing n with
  | zero => cases h
  | succ count ih =>
    obtain h | h := List.mem_append.1 h
    · exact ih h
    · obtain rfl := List.mem_singleton.1 h
      simp [Nat.isDigit_digitChar, Nat.mod_lt]

theorem digitsValue_lastDigits (count n : Nat) :
    digitsValue (lastDigits count n) = n % 10 ^ count := by
  induction count generalizing n with
  | zero => simp [lastDigits, digitsValue, Nat.mod_one]
  | succ count ih =>
    rw [lastDigits, digitsValue_append, ih, digitsValue_digit (Nat.mod_lt _ (by decide)),
      List.length_singleton, pow_one, pow_succ', Nat.mod_mul]
    ring

theorem dropZeros_append (ds : List Char) : ∃ n, ds = dropZeros ds ++ List.replicate n '0' := by
  have h := List.takeWhile_append_dropWhile (p := (· == '0')) (l := ds.reverse)
  have hz : ds.reverse.takeWhile (· == '0') =
      List.replicate (ds.reverse.takeWhile (· == '0')).length '0' :=
    List.eq_replicate_of_mem fun c hc => by simpa using List.mem_takeWhile_imp hc
  refine ⟨(ds.reverse.takeWhile (· == '0')).length, ?_⟩
  rw [dropZeros, ← List.reverse_replicate, ← List.reverse_append, ← hz, h, List.reverse_reverse]

theorem dropZeros_value (ds : List Char) :
    (digitsValue (dropZeros ds) : ℚ) / 10 ^ (dropZeros ds).length =
      digitsValue ds / 10 ^ ds.length := by
  obtain ⟨n, hn⟩ := dropZeros_append ds
  generalize dropZeros ds = es at hn
  subst hn
  rw [digitsValue_append, digitsValue_zeros, List.length_append, List.length_replicate]
  push_cast
  field_simp
  ring

theorem mem_of_mem_dropZeros (h : c ∈ dropZeros ds) : c ∈ ds := by
  obtain ⟨n, hn⟩ := dropZeros_append ds
  rw [hn]
  exact List.mem_append_left _ h

theorem isWhole_toDigits (n : Nat) : IsWhole (Nat.toDigits 10 n) :=
  ⟨Nat.toDigits_ne_nil, fun _ hd => Nat.isDigit_of_mem_toDigits (by decide) (by decide) hd⟩

/-- The digits of `n / 10 ^ count` behind the point, at least one. -/
def fractionDigits (count n : Nat) : List Char :=
  let part := dropZeros (lastDigits count n)
  if part.isEmpty then ['0'] else part

theorem isDigit_fractionDigits (count n : Nat) : ∀ d ∈ fractionDigits count n, d.isDigit := by
  intro d hd
  simp only [fractionDigits] at hd
  split_ifs at hd
  · obtain rfl := List.mem_singleton.1 hd
    rfl
  · exact isDigit_of_mem_lastDigits (mem_of_mem_dropZeros hd)

theorem fractionDigits_value (count n : Nat) :
    (digitsValue (fractionDigits count n) : ℚ) / 10 ^ (fractionDigits count n).length =
      (n % 10 ^ count : Nat) / 10 ^ count := by
  have h := dropZeros_value (lastDigits count n)
  rw [digitsValue_lastDigits, length_lastDigits] at h
  rw [← h]
  simp only [fractionDigits]
  split_ifs with hp
  · rw [List.isEmpty_iff.1 hp]
    simp [digitsValue, Nat.ofDigitChars]
  · rfl

theorem decimal_value (count n : Nat) :
    (digitsValue (Nat.toDigits 10 (n / 10 ^ count) ++ fractionDigits count n) : ℚ) /
      10 ^ (fractionDigits count n).length = n / 10 ^ count := by
  have hwhole : digitsValue (Nat.toDigits 10 (n / 10 ^ count)) = n / 10 ^ count :=
    Nat.ofDigitChars_ten_toDigits
  have hn : (n : ℚ) = (n / 10 ^ count : Nat) * 10 ^ count + (n % 10 ^ count : Nat) := by
    exact_mod_cast (Nat.div_add_mod' n (10 ^ count)).symm
  rw [digitsValue_append, hwhole, Nat.cast_add, add_div, fractionDigits_value, Nat.cast_mul,
    Nat.cast_pow, Nat.cast_ofNat, mul_div_cancel_right₀ _ (by positivity)]
  rw [hn, add_div, mul_div_cancel_right₀ _ (by positivity)]

end Digits

namespace FloatFormat

variable (f : FloatFormat) {bits : Nat}

/-- The significand of a number without sign, with the hidden bit of a normal one. -/
def significand (bits : Nat) : Nat :=
  if bits / 2 ^ f.fractionBits = 0 then bits
  else 2 ^ f.fractionBits + bits % 2 ^ f.fractionBits

/-- The exponent of the significand, from the smallest exponent on. -/
def scale (bits : Nat) : Nat := bits / 2 ^ f.fractionBits - 1

def exponent (bits : Nat) : Int := f.minExponent + f.scale bits

/-- All digits of a number without sign, and a point behind its whole part. -/
def exactDigits (bits : Nat) : List Char :=
  let places := (-f.exponent bits).toNat
  let n := f.significand bits * 2 ^ (f.exponent bits).toNat * 5 ^ places
  Nat.toDigits 10 (n / 10 ^ places) ++ '.' :: fractionDigits places n

theorem bits_eq (bits : Nat) :
    f.scale bits * 2 ^ f.fractionBits + f.significand bits = bits := by
  have h := Nat.div_add_mod' bits (2 ^ f.fractionBits)
  unfold scale significand
  split_ifs with hf
  · simp [hf]
  · obtain ⟨field, hf'⟩ := Nat.exists_eq_succ_of_ne_zero hf
    rw [hf'] at h ⊢
    rw [Nat.succ_sub_one, ← Nat.add_assoc, ← Nat.succ_mul, h]

theorem significand_lt (bits : Nat) : f.significand bits < 2 ^ (f.fractionBits + 1) := by
  have hpos := Nat.two_pow_pos f.fractionBits
  have hmod := Nat.mod_lt bits hpos
  unfold significand
  rw [pow_succ]
  split_ifs with hf
  · have := (Nat.div_eq_zero_iff_lt hpos).1 hf
    omega
  · omega

theorem scale_or_significand (bits : Nat) :
    f.scale bits = 0 ∨ 2 ^ f.fractionBits ≤ f.significand bits := by
  unfold scale significand
  split_ifs with hf
  · exact Or.inl (by rw [hf])
  · exact Or.inr (Nat.le_add_right _ _)

theorem two_zpow_eq (e : Int) :
    (2 : ℚ) ^ e.toNat * 5 ^ (-e).toNat / 10 ^ (-e).toNat = 2 ^ e := by
  have hten : (10 : ℚ) ^ (-e).toNat = 2 ^ (-e).toNat * 5 ^ (-e).toNat := by
    rw [← mul_pow]
    norm_num
  rw [hten, mul_div_mul_right _ _ (by positivity), ← zpow_natCast, ← zpow_natCast,
    ← zpow_sub₀ two_ne_zero, Int.toNat_sub_toNat_neg]

/-- Digits with a point among them are read as the number nearest to what they denote. -/
theorem read?_pointed (whole part : List Char) (hw : IsWhole whole)
    (hp : ∀ d ∈ part, d.isDigit) :
    f.read? (String.ofList (whole ++ '.' :: part)) =
      some (f.nearest (digitsValue (whole ++ part)) (10 ^ part.length)) := by
  obtain ⟨ht, hd⟩ := Reading.takeWhile_append_of_head (p := Char.isDigit) hw.2 ('.' :: part)
    fun c hc => Option.some.inj hc ▸ rfl
  have hall : part.all Char.isDigit = true := List.all_eq_true.2 hp
  simp only [read?, String.toList_ofList, ht, hd]
  simp [hall, hw.1, digitsValue]

/-- The exact digits are read back. -/
theorem read?_exactDigits (h : bits ≤ f.infinityBits) :
    f.read? (String.ofList (f.exactDigits bits)) = some bits := by
  let places := (-f.exponent bits).toNat
  let n := f.significand bits * 2 ^ (f.exponent bits).toNat * 5 ^ places
  -- The digits denote the number itself, which is a number of the format.
  have hvalue : (digitsValue (Nat.toDigits 10 (n / 10 ^ places) ++ fractionDigits places n) : ℚ) /
      (10 ^ (fractionDigits places n).length : Nat) =
        f.significand bits * 2 ^ (f.minExponent + f.scale bits) := by
    have hn : (n : ℚ) = f.significand bits * (2 ^ (f.exponent bits).toNat * 5 ^ places) := by
      simp only [n]
      push_cast
      ring
    rw [Nat.cast_pow, Nat.cast_ofNat, decimal_value, hn, mul_div_assoc, two_zpow_eq]
    rfl
  have hnearest := f.nearest_exact (Nat.pow_pos (by decide)) (f.significand_lt bits)
    (f.scale_or_significand bits) (by rwa [f.bits_eq]) hvalue
  rw [f.bits_eq] at hnearest
  have hread := f.read?_pointed _ _ (isWhole_toDigits (n / 10 ^ places))
    (isDigit_fractionDigits places n)
  rw [hnearest] at hread
  exact hread

theorem isPointed_exactDigits (bits : Nat) : IsPointed (f.exactDigits bits) :=
  ⟨_, _, rfl, isWhole_toDigits _, isDigit_fractionDigits _ _⟩

end FloatFormat

end VnScript.Decimal

namespace VnScript.Text

theorem digitsValue?_toDigits (n : Nat) : digitsValue? (Nat.toDigits 10 n) = some n := by
  have hw := Decimal.isWhole_toDigits n
  have hall : (Nat.toDigits 10 n).all Char.isDigit = true := List.all_eq_true.2 hw.2
  simp [digitsValue?, hw.1, hall, Nat.ofDigitChars_ten_toDigits]

theorem signedValue?_of_isWhole {cs : List Char} (h : IsWhole cs) :
    signedValue? cs = (digitsValue? cs).map Int.ofNat := by
  unfold signedValue?
  split
  · exact absurd (h.2 '-' List.mem_cons_self) (by decide)
  · exact absurd (h.2 '+' List.mem_cons_self) (by decide)
  · rfl

theorem signedValue?_toDigits (n : Nat) :
    signedValue? (Nat.toDigits 10 n) = some (n : Int) := by
  rw [signedValue?_of_isWhole (Decimal.isWhole_toDigits n), digitsValue?_toDigits]
  rfl

theorem toList_decimal {n : Int} (h : 0 ≤ n) :
    (decimal n).toList = Nat.toDigits 10 n.toNat := by
  obtain ⟨m, rfl⟩ := Int.eq_ofNat_of_zero_le h
  rw [decimal, String.toList_ofList]
  rfl

theorem readInt64?_decimal {n : Int64} (h : 0 ≤ n.toInt) :
    readInt64? (decimal n.toInt) = some n := by
  rw [readInt64?, toList_decimal h, signedValue?_toDigits, Int.toNat_of_nonneg h,
    Option.bind_some, int64?, if_pos ⟨n.minValue_le_toInt, n.toInt_le⟩, Int64.ofInt_toInt]

end VnScript.Text
