import VnScript.Console.Stream
import VnScript.Proofs.Decimal.Exact
import VnScript.Proofs.Execution.Laws

namespace VnScript

namespace Text

/-- One or more decimal digits with the number that they denote. -/
inductive Digits : List Char → Nat → Prop
  | one {c : Char} (hc : c.isDigit) : Digits [c] (c.toNat - '0'.toNat)
  | more {cs : List Char} {n : Nat} {c : Char} (h : Digits cs n) (hc : c.isDigit) :
    Digits (cs ++ [c]) (10 * n + (c.toNat - '0'.toNat))

/-- An integer as it is written, with a sign or without one. -/
inductive Numeral : List Char → Int → Prop
  | unsigned {cs : List Char} {n : Nat} (h : Digits cs n) : Numeral cs n
  | plus {cs : List Char} {n : Nat} (h : Digits cs n) : Numeral ('+' :: cs) n
  | minus {cs : List Char} {n : Nat} (h : Digits cs n) : Numeral ('-' :: cs) (-n)

/-- A text denotes an integer if that stands in it with nothing but blanks around it. -/
def Denotes (s : String) (z : Int) : Prop :=
  ∃ before numeral after, s.toList = before ++ numeral ++ after ∧
    (∀ c ∈ before ++ after, isBlank c) ∧ Numeral numeral z

section Digits

variable {cs : List Char} {n : Nat} {z : Int}

theorem Digits.isWhole (h : Digits cs n) : IsWhole cs := by
  induction h with
  | one hc => exact ⟨List.cons_ne_nil _ _, List.forall_mem_singleton.2 hc⟩
  | more h hc ih =>
    refine ⟨by simp, List.forall_mem_append.2 ⟨ih.2, List.forall_mem_singleton.2 hc⟩⟩

theorem Digits.value (h : Digits cs n) : Nat.ofDigitChars 10 cs 0 = n := by
  induction h with
  | one hc => rw [Nat.ofDigitChars_cons, Nat.ofDigitChars_nil, Nat.mul_zero, Nat.zero_add]
  | more h hc ih =>
    rw [Nat.ofDigitChars_append, ih, Nat.ofDigitChars_cons, Nat.ofDigitChars_nil]

theorem digits_of_isWhole (h : IsWhole cs) : Digits cs (Nat.ofDigitChars 10 cs 0) := by
  induction cs using List.reverseRecOn with
  | nil => exact absurd rfl h.1
  | append_singleton cs c ih =>
    obtain ⟨hcs, hc⟩ := List.forall_mem_append.1 h.2
    have hc := List.forall_mem_singleton.1 hc
    rw [Nat.ofDigitChars_append, Nat.ofDigitChars_cons, Nat.ofDigitChars_nil]
    cases cs with
    | nil =>
      rw [Nat.ofDigitChars_nil, Nat.mul_zero, Nat.zero_add]
      exact .one hc
    | cons d cs => exact .more (ih ⟨List.cons_ne_nil _ _, hcs⟩) hc

theorem digitsValue?_eq_some_iff : digitsValue? cs = some n ↔ Digits cs n := by
  have hguard : (cs.isEmpty || !cs.all Char.isDigit) = false ↔ IsWhole cs := by
    simp [IsWhole]
  constructor
  · intro h
    unfold digitsValue? at h
    split at h
    · cases h
    · next hc =>
      rw [← Option.some.inj h]
      exact digits_of_isWhole (hguard.1 (Bool.eq_false_iff.2 hc))
  · intro h
    rw [digitsValue?, hguard.2 h.isWhole, h.value]
    rfl

theorem signedValue?_eq_some_iff : signedValue? cs = some z ↔ Numeral cs z := by
  constructor
  · intro h
    unfold signedValue? at h
    split at h
    · next ds =>
      obtain ⟨m, hm, rfl⟩ := Option.map_eq_some_iff.1 h
      obtain ⟨n, hn, hm⟩ := Option.bind_eq_some_iff.1 hm
      rw [← Option.some.inj hm]
      exact .minus (digitsValue?_eq_some_iff.1 hn)
    · obtain ⟨n, hn, rfl⟩ := Option.map_eq_some_iff.1 h
      exact .plus (digitsValue?_eq_some_iff.1 hn)
    · obtain ⟨n, hn, rfl⟩ := Option.map_eq_some_iff.1 h
      exact .unsigned (digitsValue?_eq_some_iff.1 hn)
  · intro h
    cases h with
    | unsigned h => rw [signedValue?_of_isWhole h.isWhole, digitsValue?_eq_some_iff.2 h]; rfl
    | plus h | minus h => rw [signedValue?, digitsValue?_eq_some_iff.2 h]; rfl

theorem Numeral.not_blank (h : Numeral cs z) : cs ≠ [] ∧ ∀ c ∈ cs, isBlank c = false := by
  have hdigits {ds : List Char} {n : Nat} (hd : Digits ds n) : ∀ c ∈ ds, isBlank c = false :=
    fun c hc => (Reading.first_of_isDigit (hd.isWhole.2 c hc) []).1
  cases h with
  | unsigned h => exact ⟨h.isWhole.1, hdigits h⟩
  | plus h | minus h =>
    exact ⟨List.cons_ne_nil _ _, List.forall_mem_cons.2 ⟨by decide, hdigits h⟩⟩

theorem numeral_decimal (z : Int) : Numeral (decimal z).toList z := by
  have hd (n : Nat) : Digits (Nat.toDigits 10 n) n :=
    digitsValue?_eq_some_iff.1 (digitsValue?_toDigits n)
  rw [decimal, String.toList_ofList]
  cases z with
  | ofNat n => exact .unsigned (hd n)
  | negSucc n => exact .minus (hd (n + 1))

end Digits

section Trimming

variable {cs before core after : List Char}

theorem exists_trimmed (cs : List Char) : ∃ before after, cs = before ++ trimBlanks cs ++ after ∧
    ∀ c ∈ before ++ after, isBlank c := by
  have hfront := List.takeWhile_append_dropWhile (p := isBlank) (l := cs)
  have hback := List.takeWhile_append_dropWhile (p := isBlank)
    (l := (cs.dropWhile isBlank).reverse)
  refine ⟨cs.takeWhile isBlank, ((cs.dropWhile isBlank).reverse.takeWhile isBlank).reverse, ?_,
    List.forall_mem_append.2 ⟨fun c hc => List.mem_takeWhile_imp hc, fun c hc => ?_⟩⟩
  · rw [List.append_assoc, trimBlanks, ← List.reverse_append, hback, List.reverse_reverse, hfront]
  · exact List.mem_takeWhile_imp (List.mem_reverse.1 hc)

theorem trimBlanks_eq (hb : ∀ c ∈ before ++ after, isBlank c) (hne : core ≠ [])
    (hc : ∀ c ∈ core, isBlank c = false) : trimBlanks (before ++ core ++ after) = core := by
  obtain ⟨hbefore, hafter⟩ := List.forall_mem_append.1 hb
  have hfront : ∀ c ∈ (core ++ after).head?, isBlank c = false := by
    rw [List.head?_append_of_ne_nil _ hne]
    exact fun c h => hc c (List.mem_of_head? h)
  have hback : ∀ c ∈ core.reverse.head?, isBlank c = false :=
    fun c h => hc c (List.mem_reverse.1 (List.mem_of_head? h))
  have hreverse : ∀ c ∈ after.reverse, isBlank c = true :=
    fun c h => hafter c (List.mem_reverse.1 h)
  rw [trimBlanks, List.append_assoc, (Reading.takeWhile_append_of_head hbefore _ hfront).2,
    List.reverse_append, (Reading.takeWhile_append_of_head hreverse _ hback).2,
    List.reverse_reverse]

/-- A text is read as the integer that it denotes, if it denotes one of 64 bits. -/
theorem readInt64?_trim_eq_some_iff {s : String} {n : Int64} :
    readInt64? (trim s) = some n ↔ Denotes s n.toInt := by
  rw [readInt64?, trim, String.toList_ofList, Option.bind_eq_some_iff]
  constructor
  · rintro ⟨z, hz, hn⟩
    obtain ⟨before, after, hs, hb⟩ := exists_trimmed s.toList
    rw [int64?_eq_some_iff.1 hn]
    exact ⟨before, _, after, hs, hb, signedValue?_eq_some_iff.1 hz⟩
  · rintro ⟨before, numeral, after, hs, hb, h⟩
    obtain ⟨hne, hblank⟩ := h.not_blank
    rw [hs, trimBlanks_eq hb hne hblank]
    exact ⟨_, signedValue?_eq_some_iff.2 h, int64?_eq_some_iff.2 rfl⟩

end Trimming

end Text

/-- The codes of characters, surrogates left out. -/
def IsScalar (z : Int) : Prop := 0 ≤ z ∧ z ≤ 0xd7ff ∨ 0xe000 ≤ z ∧ z ≤ 0x10ffff
  deriving Decidable

namespace Value

variable {n : Int64} {c : Char} {s : String} {v w : Value}

theorem toNat_ofNat {code : Nat} (h : code.isValidChar) : (Char.ofNat code).toNat = code := by
  rw [Char.ofNat, dif_pos h]
  rfl

theorem isScalar_iff {z : Int} : IsScalar z ↔ ∃ c : Char, (c.toNat : Int) = z := by
  constructor
  · intro h
    have hv : z.toNat.isValidChar := by
      unfold IsScalar at h
      unfold Nat.isValidChar
      omega
    refine ⟨Char.ofNat z.toNat, ?_⟩
    rw [toNat_ofNat hv]
    unfold IsScalar at h
    omega
  · rintro ⟨c, rfl⟩
    have hc : c.toNat.isValidChar := c.valid
    unfold Nat.isValidChar at hc
    unfold IsScalar
    omega

theorem charOfCode?_eq_some_iff : charOfCode? n = some c ↔ (c.toNat : Int) = n.toInt := by
  unfold charOfCode?
  constructor
  · intro h
    split at h
    · next hn =>
      rw [← Option.some.inj h, toNat_ofNat hn.2]
      exact Int.toNat_of_nonneg hn.1
    · cases h
  · intro h
    rw [← h, Int.toNat_natCast, if_pos ⟨Int.natCast_nonneg _, c.valid⟩, Char.ofNat_toNat]

theorem toInt_code (c : Char) : (Int64.ofNat c.toNat).toInt = c.toNat := by
  have hc : c.toNat.isValidChar := c.valid
  refine Int64.toInt_ofNat_of_lt ?_
  unfold Nat.isValidChar at hc
  omega

theorem convert_int_eq_ok_iff :
    v.convert "int" = .ok w ↔ ∃ n, v.toInteger? = some n ∧ w = .integer n := by
  unfold convert
  cases v.toInteger? <;> simp [eq_comm]

theorem convert_char_eq_ok_iff :
    v.convert "char" = .ok w ↔ ∃ c, v.toChar? = some c ∧ w = .char c := by
  unfold convert
  cases v.toChar? <;> simp [eq_comm]

theorem convert_text_iff :
    (string s).convert "int" = .ok w ↔ ∃ n : Int64, Text.Denotes s n.toInt ∧ w = .integer n := by
  rw [convert_int_eq_ok_iff]
  simp only [toInteger?, Text.readInt64?_trim_eq_some_iff]

theorem convert_rendered (n : Int64) {before after : String}
    (hb : ∀ c ∈ before.toList ++ after.toList, Text.isBlank c) :
    (string (before ++ (integer n).render ++ after)).convert "int" = .ok (integer n) := by
  refine convert_text_iff.2 ⟨n, ⟨before.toList, _, after.toList, ?_, hb, Text.numeral_decimal _⟩, rfl⟩
  rw [String.toList_append, String.toList_append]
  rfl

theorem convert_code_iff :
    (integer n).convert "char" = .ok w ↔ ∃ c : Char, (c.toNat : Int) = n.toInt ∧ w = .char c := by
  rw [convert_char_eq_ok_iff]
  simp only [toChar?, charOfCode?_eq_some_iff]

theorem convert_string (v : Value) : v.convert "string" = .ok (string v.render) := by
  unfold convert
  rfl

theorem convert_char_int (c : Char) :
    (char c).convert "int" = .ok (.integer (Int64.ofNat c.toNat)) := rfl

/-- Converting to an integer or a character fails in one way only, and converting to a text never
fails. -/
theorem convert_error {target : String} {e : RuntimeError}
    (ht : target ∈ ["int", "string", "char"]) (h : v.convert target = .error e) :
    e = .invalidConversion v.render target := by
  simp only [List.mem_cons, List.not_mem_nil, or_false] at ht
  unfold convert at h
  obtain rfl | rfl | rfl := ht
  · cases hv : v.toInteger? <;> simp_all
  · simp at h
  · cases hv : v.toChar? <;> simp_all

end Value

/-- The call `type:target(e)`. -/
def Expr.conversion (target : String) (e : Expr) : Expr := .call (.namespaced "type") target [e]

variable {σ : Type} [Console σ]

theorem Expr.eval_conversion (target : String) (e : Expr) :
    (e.conversion target).eval = (do
      let v ← e.eval
      Eval.ofExcept (v.convert target) : Eval σ Value) := by
  have hone : evalAll [e] = (do return [← e.eval] : Eval σ (List Value)) := by
    simp only [evalAll, pure_bind]
  change Eval.callConversion target 1 (evalAll [e]) = _
  rw [hone, Eval.callConversion, if_neg (by decide)]
  simp only [bind_assoc, pure_bind]

open Value in
/-- Conversions undo each other. An integer is had back from its text, whatever blanks stand
around that, and only a text that denotes an integer is converted to one. Integers are converted
to the characters that they are the codes of, and back. What cannot be converted is named in the
error. -/
theorem conversions_inverse (σ : Type) [Console σ] :
    (∀ target e, (Expr.conversion target e).eval = (do
      let v ← e.eval
      Eval.ofExcept (v.convert target) : Eval σ Value)) ∧
    (∀ n, ∃ text, (integer n).convert "string" = .ok (string text) ∧
      ∀ before after : String, (∀ c ∈ before.toList ++ after.toList, Text.isBlank c) →
        (string (before ++ text ++ after)).convert "int" = .ok (integer n)) ∧
    (∀ s w, (string s).convert "int" = .ok w ↔
      ∃ n : Int64, Text.Denotes s n.toInt ∧ w = integer n) ∧
    (∀ n, ((∃ w, (integer n).convert "char" = .ok w) ↔ IsScalar n.toInt) ∧
      ∀ w, (integer n).convert "char" = .ok w → w.convert "int" = .ok (integer n)) ∧
    (∀ c, (char c).convert "int" >>= convert "char" = .ok (char c) ∧
      (char c).convert "string" >>= convert "char" = .ok (char c)) ∧
    ∀ target ∈ ["int", "string", "char"], ∀ (v : Value) e, v.convert target = .error e →
      e = .invalidConversion v.render target := by
  refine ⟨Expr.eval_conversion, fun n => ⟨_, convert_string _, fun _ _ hb => convert_rendered n hb⟩,
    fun s w => convert_text_iff, fun n => ⟨?_, ?_⟩, fun c => ⟨?_, ?_⟩,
    fun target ht v e h => convert_error ht h⟩
  · simp only [isScalar_iff, convert_code_iff]
    exact ⟨fun ⟨w, c, hc, _⟩ => ⟨c, hc⟩, fun ⟨c, hc⟩ => ⟨char c, c, hc, rfl⟩⟩
  · intro w h
    obtain ⟨c, hc, rfl⟩ := convert_code_iff.1 h
    have hn : Int64.ofNat c.toNat = n := Int64.toInt_inj.1 ((toInt_code c).trans hc)
    rw [convert_char_int, hn]
  · exact convert_code_iff.2 ⟨c, (toInt_code c).symm, rfl⟩
  · have htext : (string (char c).render).convert "char" = .ok (char c) :=
      convert_char_eq_ok_iff.2 ⟨c, by simp [toChar?, Value.render], rfl⟩
    rw [convert_string]
    exact htext

theorem conversions_inverse_spaced :
    (∀ c ∈ "\u2003\n".toList ++ "\u0085".toList, Text.isBlank c) ∧
      (Value.string "\u2003\n-9223372036854775808\u0085").convert "int" =
        .ok (.integer Int64.minValue) ∧
      (Value.integer 0xd800).convert "char" = .error (.invalidConversion "55296" "char") := by
  have hblank : ∀ c ∈ "\u2003\n".toList ++ "\u0085".toList, Text.isBlank c :=
    List.all_eq_true.1 (by decide +kernel)
  obtain ⟨-, hint, -, hcode, -, herror⟩ := conversions_inverse StreamConsole
  obtain ⟨text, htext, hback⟩ := hint Int64.minValue
  have htext : text = "-9223372036854775808" :=
    (Value.string.inj (Except.ok.inj htext)).symm.trans (by decide)
  subst htext
  have hjoined : "\u2003\n" ++ "-9223372036854775808" ++ "\u0085" =
      "\u2003\n-9223372036854775808\u0085" := by decide +kernel
  refine ⟨hblank, hjoined ▸ hback _ _ hblank, ?_⟩
  cases hv : (Value.integer 0xd800).convert "char" with
  | ok w => exact absurd ((hcode _).1.1 ⟨w, hv⟩) (by decide)
  | error e => rw [herror "char" (by decide) _ e hv]; decide

end VnScript
