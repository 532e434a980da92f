import VnScript.Token.Lexer
import Mathlib.Data.List.TakeWhile

namespace VnScript

/-- The text of a token whose kind leaves no choice. -/
def TokenKind.text? : TokenKind → Option String
  | keyword k => some k.text
  | assign => some "="
  | plus => some "+"
  | minus => some "-"
  | star => some "*"
  | slash => some "/"
  | percent => some "%"
  | shiftLeft => some "<<"
  | shiftRight => some ">>"
  | equal => some "=="
  | notEqual => some "!="
  | less => some "<"
  | lessEqual => some "<="
  | greater => some ">"
  | greaterEqual => some ">="
  | plusAssign => some "+="
  | minusAssign => some "-="
  | starAssign => some "*="
  | slashAssign => some "/="
  | percentAssign => some "%="
  | dot => some "."
  | colon => some ":"
  | semicolon => some ";"
  | comma => some ","
  | leftParen => some "("
  | rightParen => some ")"
  | leftBrace => some "\x7b"
  | rightBrace => some "\x7d"
  | identifier | comment | string | char | integer | float | double | endOfFile => none

/-- A letter, then letters, digits, dashes and underscores. -/
def IsWord (w : List Char) : Prop := ∃ c cs, w = c :: cs ∧ c.isAlpha ∧ ∀ d ∈ cs, Reading.inWord d

instance : DecidablePred IsWord
  | [] => .isFalse nofun
  | c :: cs => decidable_of_iff (c.isAlpha ∧ cs.all Reading.inWord)
    ⟨fun h => ⟨c, cs, rfl, h.1, List.all_eq_true.1 h.2⟩,
      fun ⟨_, _, h, hc, hcs⟩ => by cases h; exact ⟨hc, List.all_eq_true.2 hcs⟩⟩

def IsIdentifier (w : List Char) : Prop := IsWord w ∧ Keyword.lookup? (String.ofList w) = none
  deriving Decidable

def IsWhole (ds : List Char) : Prop := ds ≠ [] ∧ ∀ d ∈ ds, d.isDigit

/-- Digits with a point behind at least one of them. -/
def IsPointed (ds : List Char) : Prop :=
  ∃ whole part, ds = whole ++ '.' :: part ∧ IsWhole whole ∧ ∀ d ∈ part, d.isDigit

/-- The texts that spell a token of a kind with a lexeme. -/
inductive Spelling : TokenKind → List Char → List Char → Prop
  | fixed {kind : TokenKind} {text : String} (h : kind.text? = some text) :
    Spelling kind text.toList text.toList
  | identifier {w : List Char} (h : IsIdentifier w) : Spelling .identifier w w
  | comment {body : List Char} (h : ∀ c ∈ body, c ≠ '\n' ∧ c ≠ '}') :
    Spelling .comment body ('|' :: body)
  | string {body : List Char} (h : '"' ∉ body) : Spelling .string body ('"' :: body ++ ['"'])
  | char {body : List Char} (h : '\x27' ∉ body) :
    Spelling .char body ('\x27' :: body ++ ['\x27'])
  | integer {ds : List Char} (h : IsWhole ds) : Spelling .integer ds ds
  | double {ds : List Char} (h : IsPointed ds) : Spelling .double ds ds
  | float {ds : List Char} {s : Char} (h : IsWhole ds ∨ IsPointed ds) (hs : s = 'f' ∨ s = 'F') :
    Spelling .float ds (ds ++ [s])
  | suffixedDouble {ds : List Char} {s : Char} (h : IsWhole ds ∨ IsPointed ds)
      (hs : s = 'd' ∨ s = 'D') : Spelling .double ds (ds ++ [s])

theorem Keyword.isWord (k : Keyword) : IsWord k.text.toList := by
  cases k with
  | type name => cases name <;> decide
  | _ => decide

theorem Keyword.lookup?_eq_some_iff {w : String} {k : Keyword} :
    Keyword.lookup? w = some k ↔ k.text = w := by
  constructor
  · intro h
    have hp := List.find?_some h
    exact eq_of_beq hp
  · rintro rfl
    cases k with
    | type name => cases name <;> decide
    | _ => decide

theorem TokenKind.text?_ne_empty {kind : TokenKind} {text : String} (h : kind.text? = some text) :
    text ≠ "" := by
  cases kind with
  | keyword k =>
    obtain rfl := Option.some.inj h
    cases k with
    | type name => cases name <;> decide
    | _ => decide
  | _ => cases h <;> decide

namespace Spelling

variable {kind : TokenKind} {lexeme text : List Char}

theorem kind_ne_endOfFile (h : Spelling kind lexeme text) : kind ≠ .endOfFile := by
  rintro rfl
  cases h with
  | fixed h => simp [TokenKind.text?] at h

theorem text_ne_nil (h : Spelling kind lexeme text) : text ≠ [] := by
  cases h with
  | fixed h =>
    rw [ne_eq, String.toList_eq_nil_iff]
    exact TokenKind.text?_ne_empty h
  | identifier h =>
    obtain ⟨⟨c, cs, rfl, -⟩, -⟩ := h
    exact List.cons_ne_nil c cs
  | integer h => exact h.1
  | double h =>
    obtain ⟨whole, part, rfl, -⟩ := h
    simp
  | _ => simp

theorem fixed_text (h : Spelling kind lexeme text) {s : String} (hk : kind.text? = some s) :
    lexeme = s.toList := by
  cases h with
  | fixed h => rw [Option.some.inj (h.symm.trans hk)]
  | _ => simp [TokenKind.text?] at hk

theorem identifier_word (h : Spelling .identifier lexeme text) : IsIdentifier lexeme := by
  cases h with
  | fixed h => simp [TokenKind.text?] at h
  | identifier h => exact h

theorem comment_text (h : Spelling .comment lexeme text) : text = '|' :: lexeme := by
  cases h with
  | fixed h => simp [TokenKind.text?] at h
  | comment h => rfl

theorem comment_body (h : Spelling .comment lexeme text) : ∀ c ∈ lexeme, c ≠ '\n' ∧ c ≠ '}' := by
  cases h with
  | fixed h => simp [TokenKind.text?] at h
  | comment h => exact h

theorem string_body (h : Spelling .string lexeme text) : '"' ∉ lexeme := by
  cases h with
  | fixed h => simp [TokenKind.text?] at h
  | string h => exact h

theorem char_body (h : Spelling .char lexeme text) : '\x27' ∉ lexeme := by
  cases h with
  | fixed h => simp [TokenKind.text?] at h
  | char h => exact h

theorem integer_digits (h : Spelling .integer lexeme text) : IsWhole lexeme := by
  cases h with
  | fixed h => simp [TokenKind.text?] at h
  | integer h => exact h

end Spelling

namespace Reading

variable {c : Char} {cs : List Char} {kind : TokenKind} {lexeme : List Char}

theorem false_of_dropWhile_eq_cons {p : Char → Bool} {l rest : List Char} {d : Char}
    (h : l.dropWhile p = d :: rest) : p d = false := by
  have hd := List.head_dropWhile_not (p := p) (l := l) (by simp [h])
  simpa [h] using hd

theorem symbol?_text (h : symbol? c = some kind) : kind.text? = some (String.ofList [c]) := by
  unfold symbol? at h
  split at h <;> first | cases h; rfl | cases h

theorem doubleSymbol?_text {d : Char} (h : doubleSymbol? c d = some kind) :
    kind.text? = some (String.ofList [c, d]) := by
  unfold doubleSymbol? at h
  split at h <;> first | cases h; rfl | cases h

theorem symbol_append (c : Char) (cs : List Char) :
    (symbol c cs).text ++ (symbol c cs).rest = c :: cs := by
  unfold symbol
  split
  · cases cs <;> simp
  · simp
  · split <;> simp

theorem symbol_spelling (h : (symbol c cs).outcome = .ok (kind, lexeme)) :
    Spelling kind lexeme (symbol c cs).text := by
  unfold symbol at h ⊢
  split at h
  · next k hd =>
    obtain ⟨rfl, rfl⟩ := Prod.mk.inj (Except.ok.inj h)
    cases cs with
    | nil => simp at hd
    | cons d cs =>
      have hs := Spelling.fixed (doubleSymbol?_text hd)
      rwa [String.toList_ofList] at hs
  · next k hk =>
    obtain ⟨rfl, rfl⟩ := Prod.mk.inj (Except.ok.inj h)
    have hs := Spelling.fixed (symbol?_text hk)
    rwa [String.toList_ofList] at hs
  · split at h <;> cases h

theorem comment_append (bar : Char) (cs : List Char) :
    (comment bar cs).text ++ (comment bar cs).rest = bar :: cs := by
  simp [comment]

theorem comment_spelling (h : (comment '|' cs).outcome = .ok (kind, lexeme)) :
    Spelling kind lexeme (comment '|' cs).text := by
  obtain ⟨rfl, rfl⟩ := Prod.mk.inj (Except.ok.inj h)
  refine Spelling.comment fun c hc => ?_
  have hin : inComment c = true := List.mem_takeWhile_imp hc
  simpa [inComment] using hin

theorem comment_rest (bar : Char) (cs : List Char) :
    (comment bar cs).rest.head? ∈ [none, some '\n', some '}'] := by
  cases hr : cs.dropWhile inComment with
  | nil => simp [comment, hr]
  | cons d rest =>
    have hd := false_of_dropWhile_eq_cons hr
    have hd' : d = '\n' ∨ d = '}' := by simpa [inComment, Classical.or_iff_not_imp_left] using hd
    obtain rfl | rfl := hd' <;> simp [comment, hr]

theorem quoted_append (fault : LexFault) (delimiter : Char) (cs : List Char) :
    (quoted kind fault delimiter cs).text ++ (quoted kind fault delimiter cs).rest =
      delimiter :: cs := by
  unfold quoted
  have happ := List.takeWhile_append_dropWhile (p := (· != delimiter)) (l := cs)
  cases hr : cs.dropWhile (· != delimiter) with
  | nil =>
    rw [hr] at happ
    simpa [hr] using happ
  | cons close rest =>
    rw [hr] at happ
    simpa [hr] using happ

theorem quoted_ok {k : TokenKind} {fault : LexFault} {delimiter : Char}
    (h : (quoted k fault delimiter cs).outcome = .ok (kind, lexeme)) :
    kind = k ∧ delimiter ∉ lexeme ∧
      (quoted k fault delimiter cs).text = delimiter :: lexeme ++ [delimiter] := by
  unfold quoted at h ⊢
  cases hr : cs.dropWhile (· != delimiter) with
  | nil =>
    rw [hr] at h
    cases h
  | cons close rest =>
    rw [hr] at h
    obtain ⟨rfl, rfl⟩ := Prod.mk.inj (Except.ok.inj h)
    have hclose : close = delimiter := by simpa using false_of_dropWhile_eq_cons hr
    refine ⟨rfl, ?_, by simp [hclose]⟩
    intro hm
    have := List.mem_takeWhile_imp hm
    simp at this

theorem word_append (cs : List Char) : (word cs).text ++ (word cs).rest = cs := by
  simp [word]

theorem word_spelling (hc : c.isAlpha) (h : (word (c :: cs)).outcome = .ok (kind, lexeme)) :
    Spelling kind lexeme (word (c :: cs)).text := by
  have hw : IsWord ((c :: cs).takeWhile inWord) := by
    refine ⟨c, cs.takeWhile inWord, ?_, hc, fun d hd => List.mem_takeWhile_imp hd⟩
    simp [inWord, Char.isAlphanum, hc]
  obtain ⟨hk, rfl⟩ := Prod.mk.inj (Except.ok.inj h)
  change Spelling kind ((c :: cs).takeWhile inWord) ((c :: cs).takeWhile inWord)
  cases hl : Keyword.lookup? (String.ofList ((c :: cs).takeWhile inWord)) with
  | none =>
    rw [hl] at hk
    subst hk
    exact Spelling.identifier ⟨hw, hl⟩
  | some k =>
    rw [hl] at hk
    subst hk
    have ht := Keyword.lookup?_eq_some_iff.1 hl
    have hs := Spelling.fixed (show TokenKind.text? (.keyword k) = some k.text from rfl)
    rwa [ht, String.toList_ofList] at hs

theorem fraction_isPrefix (cs : List Char) : fraction cs <+: cs := by
  unfold fraction
  split
  · exact List.prefix_cons_iff.2 (Or.inr ⟨_, rfl, List.takeWhile_prefix _⟩)
  · exact List.nil_prefix

/-- What stands behind the digits and the point of a number. -/
def behindNumber (cs : List Char) : List Char :=
  (cs.dropWhile Char.isDigit).drop (fraction (cs.dropWhile Char.isDigit)).length

def numberDigits (cs : List Char) : List Char :=
  cs.takeWhile Char.isDigit ++ fraction (cs.dropWhile Char.isDigit)

theorem numberDigits_append (cs : List Char) : numberDigits cs ++ behindNumber cs = cs := by
  have hf := List.prefix_iff_eq_append.1 (fraction_isPrefix (cs.dropWhile Char.isDigit))
  rw [numberDigits, behindNumber, List.append_assoc, hf, List.takeWhile_append_dropWhile]

theorem number_eq (cs : List Char) : number cs =
    match (behindNumber cs).head?.bind suffix? with
    | some kind => ⟨.ok (kind, numberDigits cs), numberDigits cs ++ (behindNumber cs).take 1,
        (behindNumber cs).drop 1⟩
    | none => ⟨.ok (if (fraction (cs.dropWhile Char.isDigit)).isEmpty then .integer else .double,
        numberDigits cs), numberDigits cs, behindNumber cs⟩ := rfl

theorem number_append (cs : List Char) : (number cs).text ++ (number cs).rest = cs := by
  have h := numberDigits_append cs
  rw [number_eq]
  split
  · simpa only [List.append_assoc, List.take_append_drop] using h
  · exact h

theorem whole_takeWhile {ds : List Char} (hd : c.isDigit) (hc : ds = c :: cs) :
    IsWhole (ds.takeWhile Char.isDigit) := by
  subst hc
  exact ⟨by simp [hd], fun d hm => List.mem_takeWhile_imp hm⟩

theorem numberDigits_whole (hd : c.isDigit)
    (hf : fraction ((c :: cs).dropWhile Char.isDigit) = []) :
    IsWhole (numberDigits (c :: cs)) := by
  rw [numberDigits, hf, List.append_nil]
  exact whole_takeWhile hd rfl

theorem numberDigits_pointed (hd : c.isDigit)
    (hf : fraction ((c :: cs).dropWhile Char.isDigit) ≠ []) :
    IsPointed (numberDigits (c :: cs)) := by
  rw [numberDigits]
  unfold fraction at hf ⊢
  split at hf
  · next more hm =>
    exact ⟨_, more.takeWhile Char.isDigit, rfl, whole_takeWhile hd rfl,
      fun d hm => List.mem_takeWhile_imp hm⟩
  · exact absurd rfl hf

theorem numberDigits_digits (hd : c.isDigit) (cs : List Char) :
    IsWhole (numberDigits (c :: cs)) ∨ IsPointed (numberDigits (c :: cs)) := by
  by_cases hf : fraction ((c :: cs).dropWhile Char.isDigit) = []
  · exact Or.inl (numberDigits_whole hd hf)
  · exact Or.inr (numberDigits_pointed hd hf)

theorem suffix_spelling {s : Char} {ds : List Char} (hs : suffix? s = some kind)
    (hd : IsWhole ds ∨ IsPointed ds) : Spelling kind ds (ds ++ [s]) := by
  unfold suffix? at hs
  split at hs
  · cases hs
    exact .float hd (Or.inl rfl)
  · cases hs
    exact .float hd (Or.inr rfl)
  · cases hs
    exact .suffixedDouble hd (Or.inl rfl)
  · cases hs
    exact .suffixedDouble hd (Or.inr rfl)
  · cases hs

theorem number_spelling (hd : c.isDigit) (h : (number (c :: cs)).outcome = .ok (kind, lexeme)) :
    Spelling kind lexeme (number (c :: cs)).text := by
  rw [number_eq] at h ⊢
  split at h
  · next k hs =>
    obtain ⟨rfl, rfl⟩ := Prod.mk.inj (Except.ok.inj h)
    cases hb : behindNumber (c :: cs) with
    | nil =>
      rw [hb] at hs
      cases hs
    | cons s rest =>
      rw [hb] at hs
      exact suffix_spelling hs (numberDigits_digits hd cs)
  · obtain ⟨rfl, rfl⟩ := Prod.mk.inj (Except.ok.inj h)
    by_cases hf : fraction ((c :: cs).dropWhile Char.isDigit) = []
    · rw [hf]
      exact .integer (numberDigits_whole hd hf)
    · rw [if_neg (by simpa using hf)]
      exact .double (numberDigits_pointed hd hf)

theorem first_append (c : Char) (cs : List Char) :
    (first c cs).text ++ (first c cs).rest = c :: cs := by
  unfold first
  split_ifs
  · exact comment_append c cs
  · exact quoted_append _ c cs
  · exact quoted_append _ c cs
  · exact number_append _
  · exact word_append _
  · exact symbol_append c cs

/-- What reading a token consumes spells it. -/
theorem first_spelling (h : (first c cs).outcome = .ok (kind, lexeme)) :
    Spelling kind lexeme (first c cs).text := by
  unfold first at h ⊢
  split_ifs at h ⊢ with hbar hquote hsingle hd ha
  · subst hbar
    exact comment_spelling h
  · subst hquote
    obtain ⟨rfl, hbody, ht⟩ := quoted_ok h
    rw [ht]
    exact .string hbody
  · subst hsingle
    obtain ⟨rfl, hbody, ht⟩ := quoted_ok h
    rw [ht]
    exact .char hbody
  · exact number_spelling hd h
  · exact word_spelling ha h
  · exact symbol_spelling h

theorem first_comment_rest (h : (first c cs).outcome = .ok (.comment, lexeme)) :
    (first c cs).rest.head? ∈ [none, some '\n', some '}'] := by
  by_cases hbar : c = '|'
  · subst hbar
    exact comment_rest '|' cs
  · have hb := (first_spelling h).comment_text
    have happ := first_append c cs
    rw [hb] at happ
    exact absurd (List.cons.inj happ).1.symm hbar

end Reading

end VnScript
