import VnScript.Proofs.Token.Scanning

namespace VnScript

/-- A text that is empty or starts with a line end, so that no token goes on into it. -/
def Breaks (rest : List Char) : Prop := ∀ c ∈ rest.head?, c = '\n'

namespace Reading

variable {kind : TokenKind} {lexeme text rest body ds tail : List Char} {c : Char}

theorem takeWhile_append_of_head {p : Char → Bool} (hb : ∀ c ∈ body, p c = true)
    (tail : List Char) (ht : ∀ c ∈ tail.head?, p c = false) :
    (body ++ tail).takeWhile p = body ∧ (body ++ tail).dropWhile p = tail := by
  rw [List.takeWhile_append_of_pos hb, List.dropWhile_append_of_pos hb]
  cases tail with
  | nil => simp
  | cons c tail =>
    have hc := ht c rfl
    simp [hc]

theorem takeWhile_append_of_breaks {p : Char → Bool} (hp : p '\n' = false)
    (hb : ∀ c ∈ body, p c = true) (hr : Breaks rest) :
    (body ++ rest).takeWhile p = body ∧ (body ++ rest).dropWhile p = rest :=
  takeWhile_append_of_head hb rest fun c hc => hr c hc ▸ hp

theorem not_mem_of_inWord {w : List Char} (h : ∀ c ∈ w, inWord c = true) (hc : inWord c = false) :
    c ∉ w := by
  intro hm
  rw [h c hm] at hc
  cases hc

theorem inWord_of_isWord {w : List Char} (h : IsWord w) : ∀ c ∈ w, inWord c = true := by
  obtain ⟨c, cs, rfl, hc, hcs⟩ := h
  refine List.forall_mem_cons.2 ⟨?_, hcs⟩
  simp [inWord, Char.isAlphanum, hc]

theorem word_keyword_eq (k : Keyword) (hr : Breaks rest) :
    word (k.text.toList ++ rest) = ⟨.ok (.keyword k, k.text.toList), k.text.toList, rest⟩ := by
  obtain ⟨ht, hd⟩ := takeWhile_append_of_breaks (by decide) (inWord_of_isWord k.isWord) hr
  have hk : Keyword.lookup? k.text = some k := Keyword.lookup?_eq_some_iff.2 rfl
  simp only [word, ht, hd, String.ofList_toList, hk]

theorem word_identifier_eq {w : List Char} (h : IsIdentifier w) (hr : Breaks rest) :
    word (w ++ rest) = ⟨.ok (.identifier, w), w, rest⟩ := by
  obtain ⟨ht, hd⟩ := takeWhile_append_of_breaks (by decide) (inWord_of_isWord h.1) hr
  simp only [word, ht, hd, h.2]

theorem comment_eq (hb : ∀ c ∈ body, c ≠ '\n' ∧ c ≠ '}') (hr : Breaks rest) :
    comment '|' (body ++ rest) = ⟨.ok (.comment, body), '|' :: body, rest⟩ := by
  have hin (c : Char) (hc : c ∈ body) : inComment c = true := by simpa [inComment] using hb c hc
  obtain ⟨ht, hd⟩ := takeWhile_append_of_breaks (by decide) hin hr
  simp only [comment, ht, hd]

theorem quoted_eq {k : TokenKind} {fault : LexFault} {delimiter : Char} (hb : delimiter ∉ body)
    (rest : List Char) : quoted k fault delimiter (body ++ delimiter :: rest) =
      ⟨.ok (k, body), delimiter :: body ++ [delimiter], rest⟩ := by
  have hin (c : Char) (hc : c ∈ body) : (c != delimiter) = true :=
    bne_iff_ne.2 fun h => hb (h ▸ hc)
  obtain ⟨ht, hd⟩ := takeWhile_append_of_head hin (delimiter :: rest) (by simp)
  simp only [quoted, ht, hd]

/-- A character that a number does not go on with. -/
def EndsDigits (tail : List Char) : Prop := ∀ c ∈ tail.head?, c.isDigit = false ∧ c ≠ '.'

theorem endsDigits_of_breaks (hr : Breaks rest) : EndsDigits rest := by
  intro c hc
  obtain rfl := hr c hc
  decide

theorem suffix?_of_breaks (hr : Breaks rest) : rest.head?.bind suffix? = none := by
  cases rest with
  | nil => rfl
  | cons c rest =>
    obtain rfl := hr c rfl
    rfl

theorem fraction_of_ends (ht : EndsDigits tail) : fraction tail = [] := by
  unfold fraction
  split
  · next more => exact absurd rfl (ht '.' rfl).2
  · rfl

theorem numberDigits_whole_eq (h : IsWhole ds) (ht : EndsDigits tail) :
    numberDigits (ds ++ tail) = ds ∧ behindNumber (ds ++ tail) = tail ∧
      fraction ((ds ++ tail).dropWhile Char.isDigit) = [] := by
  obtain ⟨htake, hdrop⟩ := takeWhile_append_of_head h.2 tail fun c hc => (ht c hc).1
  have hf := fraction_of_ends ht
  simp only [numberDigits, behindNumber, htake, hdrop, hf]
  simp

theorem numberDigits_pointed_eq (h : IsPointed ds) (ht : EndsDigits tail) :
    numberDigits (ds ++ tail) = ds ∧ behindNumber (ds ++ tail) = tail ∧
      fraction ((ds ++ tail).dropWhile Char.isDigit) ≠ [] := by
  obtain ⟨whole, part, rfl, hw, hp⟩ := h
  obtain ⟨htake, hdrop⟩ := takeWhile_append_of_head hw.2 ('.' :: (part ++ tail)) (by simp)
  obtain ⟨hpart, -⟩ := takeWhile_append_of_head hp tail fun c hc => (ht c hc).1
  simp only [numberDigits, behindNumber, List.append_assoc, List.cons_append, htake, hdrop,
    fraction, hpart]
  simp

theorem number_integer_eq (hd : IsWhole ds) (hr : Breaks rest) :
    number (ds ++ rest) = ⟨.ok (.integer, ds), ds, rest⟩ := by
  obtain ⟨hn, hb, hf⟩ := numberDigits_whole_eq hd (endsDigits_of_breaks hr)
  rw [number_eq, hb, suffix?_of_breaks hr, hn, hf]
  rfl

theorem number_double_eq (hd : IsPointed ds) (hr : Breaks rest) :
    number (ds ++ rest) = ⟨.ok (.double, ds), ds, rest⟩ := by
  obtain ⟨hn, hb, hf⟩ := numberDigits_pointed_eq hd (endsDigits_of_breaks hr)
  rw [number_eq, hb, suffix?_of_breaks hr, hn]
  simp only [if_neg (mt List.isEmpty_iff.1 hf)]

theorem number_suffixed_eq (hd : IsWhole ds ∨ IsPointed ds) (hs : suffix? c = some kind)
    (rest : List Char) : number (ds ++ [c] ++ rest) = ⟨.ok (kind, ds), ds ++ [c], rest⟩ := by
  have hc : EndsDigits (c :: rest) := by
    intro d hd
    obtain rfl := Option.some.inj hd
    unfold suffix? at hs
    split at hs <;> first | decide | cases hs
  have hdigits : numberDigits (ds ++ c :: rest) = ds ∧ behindNumber (ds ++ c :: rest) = c :: rest := by
    obtain hd | hd := hd
    · exact (numberDigits_whole_eq hd hc).imp_right And.left
    · exact (numberDigits_pointed_eq hd hc).imp_right And.left
  obtain ⟨hn, hb⟩ := hdigits
  rw [List.append_assoc, List.singleton_append, number_eq, hb, hn]
  simp [hs]

theorem isUpper_iff : c.isUpper = true ↔ 65 ≤ c.toNat ∧ c.toNat ≤ 90 := by
  change decide ((65 : UInt32) ≤ c.val ∧ c.val ≤ 90) = true ↔ _
  rw [decide_eq_true_iff, UInt32.le_iff_toNat_le, UInt32.le_iff_toNat_le]
  exact Iff.rfl

theorem isLower_iff : c.isLower = true ↔ 97 ≤ c.toNat ∧ c.toNat ≤ 122 := by
  change (decide ((97 : UInt32) ≤ c.val) && decide (c.val ≤ 122)) = true ↔ _
  rw [Bool.and_eq_true, decide_eq_true_iff, decide_eq_true_iff, UInt32.le_iff_toNat_le,
    UInt32.le_iff_toNat_le]
  exact Iff.rfl

theorem isAlpha_iff : c.isAlpha = true ↔
    (65 ≤ c.toNat ∧ c.toNat ≤ 90) ∨ (97 ≤ c.toNat ∧ c.toNat ≤ 122) := by
  rw [← isUpper_iff, ← isLower_iff]
  exact Bool.or_eq_true_iff

theorem isDigit_iff : c.isDigit = true ↔ 48 ≤ c.toNat ∧ c.toNat ≤ 57 := Char.isDigit_iff_toNat

theorem toNat_of_isAlphanum (h : c.isAlphanum = true) : 48 ≤ c.toNat ∧ c.toNat ≤ 122 := by
  obtain h | h := Bool.or_eq_true_iff.1 h
  · rw [isAlpha_iff] at h
    omega
  · rw [isDigit_iff] at h
    omega

theorem isBlank_of_isAlphanum (h : c.isAlphanum = true) : Text.isBlank c = false := by
  have hn := toNat_of_isAlphanum h
  simp only [Text.isBlank, Bool.or_eq_false_iff, Bool.and_eq_false_imp, decide_eq_true_eq,
    decide_eq_false_iff_not, beq_eq_false_iff_ne]
  omega

theorem first_of_isDigit (h : c.isDigit = true) (cs : List Char) :
    Text.isBlank c = false ∧ first c cs = number (c :: cs) := by
  refine ⟨isBlank_of_isAlphanum (by simp [Char.isAlphanum, h]), ?_⟩
  unfold first
  rw [if_neg, if_neg, if_neg, if_pos h] <;> (rintro rfl; cases h)

theorem first_of_isAlpha (h : c.isAlpha = true) (cs : List Char) :
    Text.isBlank c = false ∧ first c cs = word (c :: cs) := by
  refine ⟨isBlank_of_isAlphanum (by simp [Char.isAlphanum, h]), ?_⟩
  unfold first
  rw [if_neg, if_neg, if_neg, if_neg, if_pos h]
  · rw [isAlpha_iff] at h
    rw [isDigit_iff]
    omega
  all_goals rintro rfl; cases h

theorem first_of_digits (hd : IsWhole ds ∨ IsPointed ds) (rest : List Char) :
    ∃ c cs, ds = c :: cs ∧ Text.isBlank c = false ∧ first c (cs ++ rest) = number (ds ++ rest) := by
  have hcons : ∃ c cs, ds = c :: cs ∧ c.isDigit = true := by
    obtain ⟨hne, hd⟩ | ⟨whole, part, rfl, ⟨hne, hd⟩, -⟩ := hd
    · obtain ⟨c, cs, rfl⟩ := List.exists_cons_of_ne_nil hne
      exact ⟨c, cs, rfl, hd c List.mem_cons_self⟩
    · obtain ⟨c, cs, rfl⟩ := List.exists_cons_of_ne_nil hne
      exact ⟨c, _, rfl, hd c List.mem_cons_self⟩
  obtain ⟨c, cs, rfl, hc⟩ := hcons
  exact ⟨c, cs, rfl, first_of_isDigit hc _⟩

theorem first_of_word {w : List Char} (h : IsWord w) (rest : List Char) :
    ∃ c cs, w = c :: cs ∧ Text.isBlank c = false ∧ first c (cs ++ rest) = word (w ++ rest) := by
  obtain ⟨c, cs, rfl, hc, -⟩ := h
  exact ⟨c, cs, rfl, first_of_isAlpha hc _⟩

/-- A keyword is read as a word, and every other fixed text as the symbol that it is. -/
theorem first_of_fixed {text : String} (h : kind.text? = some text) (hr : Breaks rest) :
    ∃ c cs, text.toList = c :: cs ∧ Text.isBlank c = false ∧
      first c (cs ++ rest) = ⟨.ok (kind, text.toList), text.toList, rest⟩ := by
  cases kind with
  | keyword k =>
    obtain rfl := Option.some.inj h
    obtain ⟨c, cs, hc, hb, hf⟩ := first_of_word k.isWord rest
    exact ⟨c, cs, hc, hb, hf.trans (word_keyword_eq k hr)⟩
  | identifier | comment | string | char | integer | float | double | endOfFile => cases h
  | _ =>
    obtain rfl := Option.some.inj h
    refine ⟨_, _, rfl, by decide, ?_⟩
    -- A symbol may be a part of a longer one, so it matters what stands behind it.
    cases rest with
    | nil => rfl
    | cons c rest =>
      obtain rfl := hr c rfl
      rfl

theorem first_of_suffixed (h : IsWhole ds ∨ IsPointed ds) (hs : suffix? c = some kind)
    (rest : List Char) :
    ∃ d cs, ds ++ [c] = d :: cs ∧ Text.isBlank d = false ∧
      first d (cs ++ rest) = ⟨.ok (kind, ds), ds ++ [c], rest⟩ := by
  obtain ⟨d, cs, hd, hb, hf⟩ := first_of_digits h ([c] ++ rest)
  refine ⟨d, cs ++ [c], by rw [hd]; rfl, hb, ?_⟩
  rw [List.append_assoc, hf, ← List.append_assoc]
  exact number_suffixed_eq h hs rest

/-- A text that spells a token starts with no blank and, before a line end or the end of the
text, is read as that token. -/
theorem first_of_spelling (h : Spelling kind lexeme text) (hr : Breaks rest) :
    ∃ c cs, text = c :: cs ∧ Text.isBlank c = false ∧
      first c (cs ++ rest) = ⟨.ok (kind, lexeme), text, rest⟩ := by
  cases h with
  | fixed h => exact first_of_fixed h hr
  | identifier h =>
    obtain ⟨c, cs, hc, hb, hf⟩ := first_of_word h.1 rest
    exact ⟨c, cs, hc, hb, hf.trans (word_identifier_eq h hr)⟩
  | comment h => exact ⟨_, _, rfl, by decide, comment_eq h hr⟩
  | string h | char h =>
    refine ⟨_, lexeme ++ [_], rfl, by decide, ?_⟩
    rw [List.append_assoc, List.singleton_append]
    exact quoted_eq h rest
  | integer h =>
    obtain ⟨c, cs, hc, hb, hf⟩ := first_of_digits (Or.inl h) rest
    exact ⟨c, cs, hc, hb, hf.trans (number_integer_eq h hr)⟩
  | double h =>
    obtain ⟨c, cs, hc, hb, hf⟩ := first_of_digits (Or.inr h) rest
    exact ⟨c, cs, hc, hb, hf.trans (number_double_eq h hr)⟩
  | float h hs | suffixedDouble h hs =>
    exact first_of_suffixed h (by obtain rfl | rfl := hs <;> rfl) rest

end Reading

namespace Lexer

variable {kind : TokenKind} {lexeme text gap rest : List Char} {l : Lexer}

/-- Behind blanks, a text that spells a token is read as that token. -/
theorem next_of_spelling (hl : l.rest = gap ++ text ++ rest) (hb : ∀ c ∈ gap, Text.isBlank c)
    (h : Spelling kind lexeme text) (hr : Breaks rest) :
    ∃ t l', l.next = (.ok t, l') ∧ t.kind = kind ∧ t.lexeme = String.ofList lexeme ∧
      l'.rest = rest := by
  obtain ⟨c, cs, rfl, hc, hf⟩ := Reading.first_of_spelling h hr
  obtain ⟨ht, hd⟩ := Reading.takeWhile_append_of_head hb (c :: (cs ++ rest))
    fun d hd => Option.some.inj hd ▸ hc
  have hrest : l.rest = gap ++ c :: (cs ++ rest) := by simpa using hl
  unfold next skipBlanks
  rw [hrest, ht, hd]
  simp only [hf]
  exact ⟨_, _, rfl, rfl, rfl, rfl⟩

end Lexer

end VnScript
