import VnScript.Proofs.Cpp.Spelling
import VnScript.Proofs.Decimal.Exact

namespace VnScript

namespace Decimal

namespace Rounding

variable {r : Rounding} {n : Nat}

theorem pos_of_contains (hl : 0 < r.low) (h : r.contains n = true) : 0 < n := by
  refine Nat.pos_of_ne_zero ?_
  rintro rfl
  unfold contains at h
  rw [Nat.zero_mul] at h
  split at h
  · simp only [Bool.and_eq_true, decide_eq_true_eq] at h
    omega
  · simp at h

theorem pos_of_whole? (hl : 0 < r.low) (h : r.whole? = some n) : 0 < n := by
  simp only [whole?] at h
  split at h
  · next hc =>
    split at h
    · cases h
      exact Nat.succ_pos _
    · cases h
      exact pos_of_contains hl hc
  · split at h
    · cases h
      exact Nat.succ_pos _
    · cases h

theorem low_inUnits (hl : 0 < r.low) (e : Int) : 0 < (r.inUnits e).low :=
  Nat.mul_pos hl (Nat.pow_pos (by decide))

theorem pos_of_shortest (hl : 0 < r.low) (hv : 0 < r.value) : 0 < r.shortest.1 := by
  let attempt (digits : Nat) : Option (Nat × Int) :=
    let e := r.magnitude - (digits + 1)
    (r.inUnits e).whole?.map (·, e)
  change 0 < (((List.range 17).findSome? attempt).getD (r.value, 0)).1
  cases hf : (List.range 17).findSome? attempt with
  | none => exact hv
  | some found =>
    obtain ⟨digits, -, h⟩ := List.exists_of_findSome?_eq_some hf
    obtain ⟨n, hn, rfl⟩ := Option.map_eq_some_iff.1 h
    exact pos_of_whole? (low_inUnits hl _) hn

theorem pos_ofBinary (f : FloatFormat) {significand : Nat} (exponent : Int)
    (h : 0 < significand) :
    0 < (ofBinary f significand exponent).low ∧ 0 < (ofBinary f significand exponent).value := by
  have hfactor : 0 < Nat.pow 2 (exponent - 2).toNat := Nat.pow_pos (by decide)
  refine ⟨Nat.mul_pos ?_ hfactor, Nat.mul_pos (by omega) hfactor⟩
  split <;> omega

end Rounding

/-- The sign is not negative, or there is no number that it belongs to. -/
def FloatFormat.IsUnsigned (f : FloatFormat) (bits : Nat) : Prop :=
  bits < 2 ^ (f.fractionBits + f.exponentBits) ∨ f.decode bits = .notANumber

theorem FloatFormat.IsUnsigned.decode {f : FloatFormat} {bits : Nat} (h : f.IsUnsigned bits) :
    f.decode bits = .notANumber ∨ f.decode bits = .infinite false ∨
      ∃ significand exponent, f.decode bits = .finite false significand exponent := by
  obtain h | h := h
  · have hsign : bits / Nat.pow 2 (f.fractionBits + f.exponentBits) = 0 := Nat.div_eq_of_lt h
    unfold FloatFormat.decode
    simp only [hsign]
    split
    · split
      · exact .inr (.inl rfl)
      · exact .inl rfl
    · split <;> exact .inr (.inr ⟨_, _, rfl⟩)
  · exact .inl h

theorem dropZeros_ne_nil {n : Nat} (h : 0 < n) : dropZeros (Nat.toDigits 10 n) ≠ [] := by
  intro hz
  obtain ⟨k, hk⟩ := dropZeros_append (Nat.toDigits 10 n)
  rw [hz, List.nil_append] at hk
  have hn : digitsValue (Nat.toDigits 10 n) = n := Nat.ofDigitChars_ten_toDigits
  rw [hk, digitsValue_zeros] at hn
  omega

end Decimal

namespace Cpp

open Decimal

/-- A digit and what goes on with a number: C++ reads it as one literal. -/
def IsNumberText (cs : List Char) : Prop :=
  ∃ c tail, cs = c :: tail ∧ c.isDigit = true ∧ NumberTail false tail

section Numbers

variable {cs ds : List Char}

theorem IsNumberText.spells (h : IsNumberText cs) :
    Spells cs [.literal (String.ofList cs)] := by
  obtain ⟨c, tail, rfl, hc, ht⟩ := h
  exact number_spells hc ht

theorem isNumberText_digits (hne : ds ≠ []) (hd : ∀ d ∈ ds, d.isDigit = true)
    (ht : NumberTail false cs) : IsNumberText (ds ++ cs) := by
  obtain ⟨d, ds, rfl⟩ := List.exists_cons_of_ne_nil hne
  obtain ⟨hd, hds⟩ := List.forall_mem_cons.1 hd
  exact ⟨d, ds ++ cs, rfl, hd, .digits hds ht⟩

theorem NumberTail.point (h : NumberTail false cs) : NumberTail false ('.' :: cs) := .cons rfl h

theorem NumberTail.append_tail {exponent : Bool} (h : NumberTail exponent cs)
    (h' : NumberTail false ds) : NumberTail exponent (cs ++ ds) := by
  induction h with
  | nil => exact h'
  | cons h tail ih => exact .cons h ih

theorem NumberTail.single {c : Char} (hc : isWordPart c = true) (he : isExponent c = false) :
    NumberTail false [c] := .cons (by simp [inNumber, hc]) (he ▸ .nil)

theorem NumberTail.power (n : Int) : NumberTail false ('e' :: (toString n).toList) := by
  have hdigits (m : Nat) (exponent : Bool) : NumberTail exponent (toString m).toList := by
    have hm : (toString m).toList = Nat.toDigits 10 m := by simp [toString, Nat.repr]
    obtain ⟨hne, hd⟩ := isWhole_toDigits m
    obtain ⟨d, ds, he⟩ := List.exists_cons_of_ne_nil hne
    rw [he] at hd
    obtain ⟨hd, hds⟩ := List.forall_mem_cons.1 hd
    rw [hm, he]
    exact .digit hd (by simpa using NumberTail.digits hds .nil)
  refine .cons rfl ?_
  cases n with
  | ofNat m => exact hdigits m true
  | negSucc m =>
    have hneg : (toString (Int.negSucc m)).toList = '-' :: (toString (m + 1)).toList := by
      simp [toString, Int.repr]
    rw [hneg]
    exact .cons rfl (hdigits (m + 1) false)

theorem isNumberText_positional {digits : List Char} (hd : ∀ d ∈ digits, d.isDigit = true)
    (point : Int) {suffix : List Char} (hs : NumberTail false suffix) :
    IsNumberText (positional digits point ++ suffix) := by
  have hzeros (n : Nat) : ∀ d ∈ List.replicate n '0', d.isDigit = true := by
    intro d h
    rw [List.eq_of_mem_replicate h]
    rfl
  have hfill (ds : List Char) (hds : ∀ d ∈ ds, d.isDigit = true) :
      (if ds.isEmpty then ['0'] else ds) ≠ [] ∧
        ∀ d ∈ (if ds.isEmpty then ['0'] else ds), d.isDigit = true := by
    split
    · exact ⟨by simp, by simp⟩
    · next h => exact ⟨fun he => h (by simp [he]), hds⟩
  unfold positional
  rw [List.append_assoc, List.cons_append]
  obtain ⟨hne, hwhole⟩ := hfill (digits.take point.toNat ++
    List.replicate (point.toNat - digits.length) '0') (List.forall_mem_append.2
      ⟨fun d h => hd d (List.mem_of_mem_take h), hzeros _⟩)
  obtain ⟨-, hpart⟩ := hfill (List.replicate (-point).toNat '0' ++ digits.drop point.toNat)
    (List.forall_mem_append.2 ⟨hzeros _, fun d h => hd d (List.mem_of_mem_drop h)⟩)
  exact isNumberText_digits hne hwhole (.point (.digits hpart hs))

theorem isNumberText_scientific {digits : List Char} (hne : digits ≠ [])
    (hd : ∀ d ∈ digits, d.isDigit = true) (point : Int) {suffix : List Char}
    (hs : NumberTail false suffix) : IsNumberText (scientific digits point ++ suffix) := by
  have hpower : NumberTail false ('e' :: (toString (point - 1)).toList ++ suffix) :=
    (NumberTail.power _).append_tail hs
  unfold scientific
  rw [List.append_assoc]
  obtain ⟨d, digits, rfl⟩ := List.exists_cons_of_ne_nil hne
  obtain ⟨hdigit, hdigits⟩ := List.forall_mem_cons.1 hd
  cases digits with
  | nil => exact ⟨d, _, rfl, hdigit, hpower⟩
  | cons d' digits => exact ⟨d, _, rfl, hdigit, .point (.digits hdigits hpower)⟩

/-- The text of a number without sign is one literal, whatever letters are behind it. -/
theorem isNumberText_finite (f : FloatFormat) (significand : Nat) (exponent : Int)
    {suffix : List Char} (hs : NumberTail false suffix) :
    IsNumberText (finiteText f significand exponent ++ suffix) := by
  unfold finiteText
  split
  · exact ⟨'0', _, rfl, rfl, .point (.digit rfl hs)⟩
  · next hne =>
    obtain ⟨hl, hv⟩ := Rounding.pos_ofBinary f exponent (Nat.pos_of_ne_zero hne)
    have hn := Rounding.pos_of_shortest hl hv
    have hd (d : Char) (h : d ∈ dropZeros
        (Nat.toDigits 10 (Rounding.ofBinary f significand exponent).shortest.1)) :
        d.isDigit = true := (isWhole_toDigits _).2 d (mem_of_mem_dropZeros h)
    dsimp only
    split
    · exact isNumberText_positional hd _ hs
    · exact isNumberText_scientific (dropZeros_ne_nil hn) hd _ hs

/-- C++ reads the text of bits without a minus sign as a number or, where it is none, as a
word. -/
theorem text_spells {f : FloatFormat} {bits : Nat} (h : f.IsUnsigned bits) (suffix : String)
    (hs : NumberTail false suffix.toList) (hinf : IsNameText ("inf" ++ suffix))
    (hnan : IsNameText ("NaN" ++ suffix)) :
    ∃ l, (l = .literal (f.text bits ++ suffix) ∨ l = .word (f.text bits ++ suffix)) ∧
      Spells (f.text bits ++ suffix).toList [l] := by
  have hfinite (significand : Nat) (exponent : Int) :
      Spells (String.ofList (finiteText f significand exponent) ++ suffix).toList
        [.literal (String.ofList (finiteText f significand exponent) ++ suffix)] := by
    have he : String.ofList (finiteText f significand exponent) ++ suffix =
        String.ofList (finiteText f significand exponent ++ suffix.toList) := by
      rw [String.ofList_append, String.ofList_toList]
    rw [he, String.toList_ofList]
    exact (isNumberText_finite f significand exponent hs).spells
  unfold FloatFormat.text
  obtain he | he | ⟨significand, exponent, he⟩ := h.decode <;> rw [he]
  · exact ⟨_, .inr rfl, name_spells hnan⟩
  · exact ⟨_, .inr rfl, name_spells hinf⟩
  · exact ⟨_, .inl rfl, hfinite significand exponent⟩

theorem decimal_spells {n : Int} (h : 0 ≤ n) :
    Spells (Text.decimal n).toList [.literal (Text.decimal n)] := by
  obtain ⟨hne, hd⟩ := isWhole_toDigits n.toNat
  have hn := (isNumberText_digits hne hd .nil).spells
  rwa [List.append_nil, ← Text.toList_decimal h, String.ofList_toList] at hn

end Numbers

section Literals

theorem floatLiteral_spells {bits : UInt32} (h : FloatFormat.single.IsUnsigned bits.toNat) :
    ∃ l, (l = .literal (floatLiteral bits) ∨ l = .word (floatLiteral bits)) ∧
      Spells (floatLiteral bits).toList [l] :=
  text_spells h "f" (.single rfl rfl) (by decide) (by decide)

theorem doubleLiteral_spells {bits : UInt64} (h : FloatFormat.double.IsUnsigned bits.toNat) :
    ∃ l, (l = .literal (doubleLiteral bits) ∨ l = .word (doubleLiteral bits)) ∧
      Spells (doubleLiteral bits).toList [l] := by
  have hs := text_spells h "" .nil (by decide) (by decide)
  rwa [String.append_empty] at hs

theorem quoted_spells (s : String) :
    SpellsAlways (Text.quoted s).toList [.literal (Text.quoted s)] := by
  rw [Text.quoted, String.toList_ofList]
  exact escape_spells (.inl rfl) s.toList

theorem quotedChar_spells (c : Char) :
    SpellsAlways (Text.quotedChar c).toList [.literal (Text.quotedChar c)] := by
  have hs := escape_spells (.inr rfl) [c]
  rw [Text.quotedChar, String.toList_ofList]
  simpa [Text.escape] using hs

end Literals

end Cpp

end VnScript
