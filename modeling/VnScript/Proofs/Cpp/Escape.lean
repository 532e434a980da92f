import VnScript.Cpp.Unit
import VnScript.Grammar.Declaration
import VnScript.Proofs.Cpp.Spelling
import VnScript.Tree.Equality

namespace VnScript.Cpp

/-- What a backslash with this character behind it stands for, unless it is an octal digit. -/
def simpleEscape? : Char → Option Char
  | 'a' => some '\x07'
  | 'b' => some '\x08'
  | 't' => some '\t'
  | 'n' => some '\n'
  | 'v' => some '\x0b'
  | 'f' => some '\x0c'
  | 'r' => some '\r'
  | '"' => some '"'
  | '\x27' => some '\x27'
  | '?' => some '?'
  | '\\' => some '\\'
  | _ => none

def isOctal (c : Char) : Bool := '0' ≤ c && c ≤ '7'

/-- The octal digits at the start, at most so many. -/
def octalDigits (count : Nat) (cs : List Char) : List Char := (cs.take count).takeWhile isOctal

def octalChar (digits : List Char) : Char := Char.ofNat (Nat.ofDigitChars 8 digits 0)

/-- The characters that the inside of a literal denotes. An octal escape takes all the digits that
it can. -/
def denoted? : List Char → Option (List Char)
  | [] => some []
  | c :: cs =>
    if c = '\\' then
      if octalDigits 3 cs = [] then
        (cs.head?.bind simpleEscape?).bind fun d => (denoted? cs.tail).map (d :: ·)
      else (denoted? (cs.drop (octalDigits 3 cs).length)).map (octalChar (octalDigits 3 cs) :: ·)
    else (denoted? cs).map (c :: ·)
termination_by cs => cs.length

/-- The characters that a literal between quotes denotes. -/
def literalChars? : List Char → Option (List Char)
  | [] => none
  | quote :: cs =>
    if quote = '"' ∨ quote = '\x27' then
      match quotedTail quote false cs with
      | some (tail, []) => denoted? tail.dropLast
      | _ => none
    else none

/-- What becomes of a text that is escaped and then read: a zero character takes up to two octal
digits behind it into its own escape. -/
def readBack : List Char → List Char
  | [] => []
  | c :: cs =>
    if c = '\x00' then
      octalChar ('0' :: octalDigits 2 cs) :: readBack (cs.drop (octalDigits 2 cs).length)
    else c :: readBack cs
termination_by cs => cs.length

/-- A text that can stand between two such quotes: the literal goes on to the quote behind it, as
no quote in it stands without a backslash, and no line ends in it. -/
structure FillsLiteral (quote : Char) (body : List Char) : Prop where
  oneLine : '\n' ∉ body
  closed : ∀ rest, quotedTail quote false (body ++ quote :: rest) = some (body ++ [quote], rest)

/-- Somewhere a zero character has an octal digit right behind it. -/
def ZeroBeforeOctal (cs : List Char) : Prop :=
  ∃ before d after, cs = before ++ '\x00' :: d :: after ∧ isOctal d = true

section Digits

variable {c d : Char} {cs : List Char} {count : Nat}

theorem octalDigits_cons (h : isOctal c = true) :
    octalDigits (count + 1) (c :: cs) = c :: octalDigits count cs := by
  simp [octalDigits, h]

theorem octalDigits_of_not (h : isOctal c = false) : octalDigits count (c :: cs) = [] := by
  cases count with
  | zero => rfl
  | succ count => simp [octalDigits, h]

theorem octalDigits_nil : octalDigits count [] = [] := by
  simp [octalDigits]

end Digits

section Reading

variable {c d : Char} {cs : List Char}

@[simp] theorem denoted_nil : denoted? [] = some [] := by
  rw [denoted?]

theorem denoted_plain (h : c ≠ '\\') : denoted? (c :: cs) = (denoted? cs).map (c :: ·) := by
  rw [denoted?, if_neg h]

theorem denoted_simple (hd : isOctal d = false) (he : simpleEscape? d = some c) :
    denoted? ('\\' :: d :: cs) = (denoted? cs).map (c :: ·) := by
  rw [denoted?, if_pos rfl, if_pos (octalDigits_of_not hd)]
  simp only [List.head?_cons, List.tail_cons, Option.bind_some, he]

theorem denoted_octal (hd : isOctal d = true) :
    denoted? ('\\' :: d :: cs) =
      (denoted? (cs.drop (octalDigits 2 cs).length)).map
        (octalChar (d :: octalDigits 2 cs) :: ·) := by
  have hdigits : octalDigits 3 (d :: cs) = d :: octalDigits 2 cs := octalDigits_cons hd
  rw [denoted?, if_pos rfl, hdigits, if_neg (List.cons_ne_nil _ _), List.length_cons,
    List.drop_succ_cons]

end Reading

section Escaping

variable {quote c : Char} {cs rest : List Char}

theorem escape_cons (quote c : Char) (cs : List Char) :
    Text.escape quote (c :: cs) = Text.escapeChar quote c ++ Text.escape quote cs :=
  List.flatMap_cons

theorem escapeChar_cases (quote c : Char) : Text.escapeChar quote c = [c] ∧ c ≠ '\n' ∨
    ∃ d, Text.escapeChar quote c = ['\\', d] ∧ (d = quote ∨ d ≠ '\n') := by
  unfold Text.escapeChar
  split
  · exact .inr ⟨_, rfl, .inr (by decide)⟩
  split
  · exact .inr ⟨_, rfl, .inr (by decide)⟩
  split
  · exact .inr ⟨_, rfl, .inr (by decide)⟩
  split
  · exact .inr ⟨_, rfl, .inr (by decide)⟩
  split
  · exact .inr ⟨_, rfl, .inr (by decide)⟩
  split
  · next h => exact .inr ⟨_, rfl, .inl h⟩
  · next hline _ _ _ _ => exact .inl ⟨rfl, hline⟩

theorem fillsLiteral_escape (hq : quote = '"' ∨ quote = '\x27') (cs : List Char) :
    FillsLiteral quote (Text.escape quote cs) where
  oneLine h := by
    have hquote : quote ≠ '\n' := by obtain rfl | rfl := hq <;> decide
    obtain ⟨c, -, hc⟩ := List.mem_flatMap.1 h
    obtain ⟨he, hline⟩ | ⟨d, he, hd⟩ := escapeChar_cases quote c
    · rw [he, List.mem_singleton] at hc
      exact hline hc.symm
    · have hline : d ≠ '\n' := by
        obtain rfl | hd := hd
        · exact hquote
        · exact hd
      rw [he] at hc
      simp [Ne.symm hline] at hc
  closed := quotedTail_escape hq cs

theorem escapeChar_octal (hq : quote = '"' ∨ quote = '\x27') (hc : isOctal c = true) :
    Text.escapeChar quote c = [c] := by
  have hne {d : Char} (hd : isOctal d = false) : c ≠ d := by
    rintro rfl
    rw [hc] at hd
    cases hd
  have hquote : c ≠ quote := by
    obtain rfl | rfl := hq
    · exact hne rfl
    · exact hne rfl
  have hslash : c ≠ '\\' := hne rfl
  have hline : c ≠ '\n' := hne rfl
  have hreturn : c ≠ '\r' := hne rfl
  have htab : c ≠ '\t' := hne rfl
  have hzero : c ≠ '\x00' := hne rfl
  simp only [Text.escapeChar, hslash, hline, hreturn, htab, hzero, hquote, if_false]

theorem denoted_escapeChar (hq : quote = '"' ∨ quote = '\x27') (hc : c ≠ '\x00') :
    denoted? (Text.escapeChar quote c ++ rest) = (denoted? rest).map (c :: ·) := by
  have hquote : isOctal quote = false ∧ simpleEscape? quote = some quote := by
    obtain rfl | rfl := hq <;> exact ⟨rfl, rfl⟩
  unfold Text.escapeChar
  rw [if_neg hc]
  by_cases hslash : c = '\\'
  · subst hslash
    exact denoted_simple rfl rfl
  by_cases hline : c = '\n'
  · subst hline
    exact denoted_simple rfl rfl
  by_cases hreturn : c = '\r'
  · subst hreturn
    exact denoted_simple rfl rfl
  by_cases htab : c = '\t'
  · subst htab
    exact denoted_simple rfl rfl
  rw [if_neg hslash, if_neg hline, if_neg hreturn, if_neg htab]
  by_cases hc : c = quote
  · subst hc
    rw [if_pos rfl]
    exact denoted_simple hquote.1 hquote.2
  · rw [if_neg hc]
    exact denoted_plain hslash

theorem octalDigits_escape (hq : quote = '"' ∨ quote = '\x27') (count : Nat) (cs : List Char) :
    octalDigits count (Text.escape quote cs) = octalDigits count cs := by
  induction count generalizing cs with
  | zero => rfl
  | succ count ih =>
    cases cs with
    | nil => rfl
    | cons c cs =>
      by_cases hc : isOctal c = true
      · rw [escape_cons, escapeChar_octal hq hc, List.singleton_append, octalDigits_cons hc,
          octalDigits_cons hc, ih]
      · rw [Bool.not_eq_true] at hc
        rw [octalDigits_of_not hc, escape_cons]
        obtain ⟨he, -⟩ | ⟨d, he, -⟩ := escapeChar_cases quote c
        · rw [he, List.singleton_append, octalDigits_of_not hc]
        · rw [he, List.cons_append, octalDigits_of_not rfl]

theorem drop_escape (hq : quote = '"' ∨ quote = '\x27') (count : Nat) (cs : List Char) :
    (Text.escape quote cs).drop (octalDigits count cs).length =
      Text.escape quote (cs.drop (octalDigits count cs).length) := by
  induction count generalizing cs with
  | zero => rfl
  | succ count ih =>
    cases cs with
    | nil => rfl
    | cons c cs =>
      by_cases hc : isOctal c = true
      · rw [octalDigits_cons hc, escape_cons, escapeChar_octal hq hc]
        exact ih cs
      · rw [Bool.not_eq_true] at hc
        rw [octalDigits_of_not hc]
        rfl

theorem denoted_escape (hq : quote = '"' ∨ quote = '\x27') (cs : List Char) :
    denoted? (Text.escape quote cs) = some (readBack cs) := by
  fun_induction readBack cs with
  | case1 => exact denoted_nil
  | case2 cs ih =>
    have hzero : Text.escapeChar quote '\x00' = ['\\', '0'] := rfl
    rw [escape_cons, hzero]
    change denoted? ('\\' :: '0' :: Text.escape quote cs) = _
    rw [denoted_octal rfl, octalDigits_escape hq, drop_escape hq, ih, Option.map_some]
  | case3 c cs hc ih => rw [escape_cons, denoted_escapeChar hq hc, ih, Option.map_some]

end Escaping

section ReadBack

variable {c : Char} {cs : List Char}

theorem readBack_length (cs : List Char) : (readBack cs).length ≤ cs.length := by
  fun_induction readBack cs with
  | case1 => exact Nat.le_refl _
  | case2 cs ih =>
    rw [List.length_drop] at ih
    rw [List.length_cons, List.length_cons]
    omega
  | case3 c cs _ ih => exact Nat.succ_le_succ ih

theorem zeroBeforeOctal_cons : ZeroBeforeOctal (c :: cs) ↔
    c = '\x00' ∧ octalDigits 2 cs ≠ [] ∨ ZeroBeforeOctal cs := by
  constructor
  · rintro ⟨before, d, after, h, hd⟩
    cases before with
    | nil =>
      cases h
      refine .inl ⟨rfl, ?_⟩
      rw [octalDigits_cons hd]
      exact List.cons_ne_nil _ _
    | cons c' before =>
      cases h
      exact .inr ⟨before, d, after, rfl, hd⟩
  · rintro (⟨rfl, h⟩ | ⟨before, d, after, rfl, hd⟩)
    · cases cs with
      | nil => exact absurd octalDigits_nil h
      | cons d cs =>
        by_cases hd : isOctal d = true
        · exact ⟨[], d, cs, rfl, hd⟩
        · exact absurd (octalDigits_of_not (Bool.not_eq_true _ ▸ hd)) h
    · exact ⟨c :: before, d, after, rfl, hd⟩

/-- A text comes back unless a zero character has an octal digit behind it. -/
theorem readBack_eq_iff (cs : List Char) : readBack cs = cs ↔ ¬ZeroBeforeOctal cs := by
  fun_induction readBack cs with
  | case1 => simp [ZeroBeforeOctal]
  | case2 cs ih =>
    rw [zeroBeforeOctal_cons]
    by_cases hd : octalDigits 2 cs = []
    · have hzero : octalChar ['0'] = '\x00' := by decide
      rw [hd, List.length_nil, List.drop_zero] at ih ⊢
      simp [hzero, ih]
    · -- The digits are lost, so that the text that comes back is too short.
      have hpos : 0 < (octalDigits 2 cs).length := List.length_pos_iff.2 hd
      have hshort : (readBack (cs.drop (octalDigits 2 cs).length)).length ≤
          cs.length - (octalDigits 2 cs).length := by
        rw [← List.length_drop]
        exact readBack_length _
      have hle : (octalDigits 2 cs).length ≤ cs.length :=
        ((List.takeWhile_prefix _).trans (List.take_prefix _ _)).length_le
      refine iff_of_false (fun h => ?_) (by simp [hd])
      have hlen := congrArg List.length (List.cons.inj h).2
      omega
  | case3 c cs hc ih =>
    rw [zeroBeforeOctal_cons]
    simp [hc, ih]

end ReadBack

section Literals

variable {quote : Char}

theorem literalChars_escape (hq : quote = '"' ∨ quote = '\x27') (cs : List Char) :
    literalChars? (quote :: Text.escape quote cs ++ [quote]) = some (readBack cs) := by
  have htail : quotedTail quote false (Text.escape quote cs ++ [quote]) =
      some (Text.escape quote cs ++ [quote], []) := quotedTail_escape hq cs []
  rw [List.cons_append, literalChars?, if_pos hq, htail]
  exact (congrArg denoted? List.dropLast_concat).trans (denoted_escape hq cs)

theorem readBack_singleton (c : Char) : readBack [c] = [c] := by
  rw [readBack_eq_iff]
  rintro ⟨before, d, after, h, -⟩
  have hlen := congrArg List.length h
  simp at hlen
  omega

/-- The text made of a string can stand in a literal, and denotes the string unless a zero character
in the string has an octal digit right behind it. The text made of a character denotes the
character. So it is with the literals in generated code. -/
theorem literals_denote (classes : List String) (s : String) (c : Char) :
    FillsLiteral '"' (Text.escape '"' s.toList) ∧
      (denoted? (Text.escape '"' s.toList) = some s.toList ↔ ¬ZeroBeforeOctal s.toList) ∧
      (literalChars? ((Expr.string s).cpp classes).toList = some s.toList ↔
        ¬ZeroBeforeOctal s.toList) ∧
      FillsLiteral '\x27' (Text.escapeChar '\x27' c) ∧
      denoted? (Text.escapeChar '\x27' c) = some [c] ∧
      literalChars? ((Expr.char c).cpp classes).toList = some [c] := by
  have hsingle : Text.escape '\x27' [c] = Text.escapeChar '\x27' c := List.flatMap_singleton _ _
  have hstring : ((Expr.string s).cpp classes).toList =
      '"' :: Text.escape '"' s.toList ++ ['"'] := String.toList_ofList
  have hchar : ((Expr.char c).cpp classes).toList =
      '\x27' :: Text.escape '\x27' [c] ++ ['\x27'] := hsingle ▸ String.toList_ofList
  refine ⟨fillsLiteral_escape (.inl rfl) _, ?_, ?_, ?_, ?_, ?_⟩
  · rw [denoted_escape (.inl rfl), Option.some_inj]
    exact readBack_eq_iff s.toList
  · rw [hstring, literalChars_escape (.inl rfl), Option.some_inj]
    exact readBack_eq_iff s.toList
  · rw [← hsingle]
    exact fillsLiteral_escape (.inr rfl) [c]
  · rw [← hsingle, denoted_escape (.inr rfl), readBack_singleton]
  · rw [hchar, literalChars_escape (.inr rfl), readBack_singleton]

/-- A zero character before the digit one: the literal denotes the character of code one. -/
theorem zero_digit_misread :
    let p : Program := ⟨[.function ⟨none, "main", [], [.expr (.assign "x" (.string "\x001"))]⟩]⟩
    parse "func main() \x7b x = \"\x001\"; \x7d" = .ok p ∧
      p.cppBody = "int main() \x7b\n    std::cout << std::boolalpha;\n" ++
        "    auto x = std::string(\"\\01\");\n\x7d\n\n" ∧
      literalChars? "\"\\01\"".toList = some ['\x01'] ∧ ['\x01'] ≠ "\x001".toList := by
  refine ⟨by decide +kernel, by decide, ?_, by decide⟩
  exact (literalChars_escape (.inl rfl) "\x001".toList).trans (by decide +kernel)

end Literals

end VnScript.Cpp
