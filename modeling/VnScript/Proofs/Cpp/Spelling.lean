import VnScript.Cpp.Literal
import VnScript.Proofs.Cpp.Lexeme

namespace VnScript.Cpp

/-- Neither a word nor a number goes on here. -/
def Apart (rest : List Char) : Prop := ∀ c ∈ rest.head?, isWordPart c = false ∧ c ≠ '.'

/-- A text is read as these lexemes, unless a word or a number goes on behind it. -/
def Spells (cs : List Char) (ls : List Lexeme) : Prop :=
  ∀ rest, Apart rest → lexemes (cs ++ rest) = (lexemes rest).map (ls ++ ·)

/-- A text is read as these lexemes, whatever is behind it. -/
def SpellsAlways (cs : List Char) (ls : List Lexeme) : Prop :=
  ∀ rest, lexemes (cs ++ rest) = (lexemes rest).map (ls ++ ·)

def isNameText : List Char → Bool
  | [] => false
  | c :: cs => isWordStart c && cs.all isWordPart &&
      (wordSigns.lookup (String.ofList (c :: cs))).isNone

def IsNameText (text : String) : Prop := isNameText text.toList = true
  deriving Decidable

section Joining

variable {cs cs' rest : List Char} {ls ls' : List Lexeme}

theorem apart_nil : Apart [] := nofun

theorem Apart.append (h : Apart cs) (hne : cs ≠ []) (rest : List Char) : Apart (cs ++ rest) := by
  cases cs with
  | nil => exact absurd rfl hne
  | cons c cs => exact h

theorem map_append_map (o : Option (List Lexeme)) :
    (o.map (ls' ++ ·)).map (ls ++ ·) = o.map (ls ++ ls' ++ ·) := by
  simp [Option.map_map, Function.comp_def]

theorem Spells.lexemes_eq (h : Spells cs ls) : lexemes cs = some ls := by
  have := h [] apart_nil
  simpa using this

theorem SpellsAlways.spells (h : SpellsAlways cs ls) : Spells cs ls := fun rest _ => h rest

theorem SpellsAlways.append (h : SpellsAlways cs ls) (h' : SpellsAlways cs' ls') :
    SpellsAlways (cs ++ cs') (ls ++ ls') := fun rest => by
  rw [List.append_assoc, h, h', map_append_map]

theorem SpellsAlways.append_spells (h : SpellsAlways cs ls) (h' : Spells cs' ls') :
    Spells (cs ++ cs') (ls ++ ls') := fun rest hr => by
  rw [List.append_assoc, h, h' rest hr, map_append_map]

theorem Spells.append_always (h : Spells cs ls) (h' : SpellsAlways cs' ls') (ha : Apart cs')
    (hne : cs' ≠ []) : SpellsAlways (cs ++ cs') (ls ++ ls') := fun rest => by
  rw [List.append_assoc, h _ (ha.append hne rest), h', map_append_map]

theorem Spells.append (h : Spells cs ls) (h' : Spells cs' ls') (ha : Apart cs') (hne : cs' ≠ []) :
    Spells (cs ++ cs') (ls ++ ls') := fun rest hr => by
  rw [List.append_assoc, h _ (ha.append hne rest), h' rest hr, map_append_map]

end Joining

section Signs

variable {c d : Char} {cs : List Char}

theorem not_special_of_single : ∀ c ∈ singleSigns, c.isWhitespace = false ∧ isWordStart c = false ∧
    c.isDigit = false ∧ c ≠ '"' ∧ c ≠ '\x27' :=
  List.forall_iff_forall_mem.1 (by decide)

theorem single_of_pair : ∀ p ∈ pairSigns, p.1 ∈ singleSigns ∧ p.2 ≠ '*' := by
  decide

theorem first_of_single (hc : c ∈ singleSigns) (hd : c = '/' → cs.head? ≠ some '*') :
    first c cs = (sign? c cs).map fun (s, rest) => ([.sign (String.ofList s)], rest) := by
  obtain ⟨hb, hw, hn, hq, hq'⟩ := not_special_of_single c hc
  have hcomment : ¬(c = '/' ∧ cs.head? = some '*') := fun h => hd h.1 h.2
  simp only [first, hb, hw, hn, hq, hq', hcomment, or_self, if_false, Bool.false_eq_true]

theorem pair_spells (h : (c, d) ∈ pairSigns) :
    SpellsAlways [c, d] [.sign (String.ofList [c, d])] := by
  obtain ⟨hc, hd⟩ := single_of_pair _ h
  intro rest
  apply lexemes_cons
  rw [first_of_single hc fun _ => by simpa using hd]
  simp [sign?, h]

theorem lexemes_single (hc : c ∈ singleSigns)
    (hd : ∀ d ∈ cs.head?, (c, d) ∉ pairSigns ∧ (c = '/' → d ≠ '*')) :
    lexemes (c :: cs) = (lexemes cs).map ([.sign (String.ofList [c])] ++ ·) := by
  apply lexemes_cons
  rw [first_of_single hc]
  · cases cs with
    | nil => simp [sign?, hc]
    | cons d cs => simp [sign?, (hd d rfl).1, hc]
  · intro hc' hh
    exact (hd '*' hh).2 hc' rfl

theorem single_spells (hc : c ∈ ['(', ')', '[', ']', '{', '}', ';', ',']) :
    SpellsAlways [c] [.sign (String.ofList [c])] := by
  have hsingle : ∀ c ∈ ['(', ')', '[', ']', '{', '}', ';', ','], c ∈ singleSigns ∧
      (∀ p ∈ pairSigns, p.1 ≠ c) ∧ c ≠ '/' := List.forall_iff_forall_mem.1 (by decide)
  obtain ⟨hs, hp, hslash⟩ := hsingle c hc
  exact fun rest => lexemes_single hs fun d _ => ⟨fun h => hp _ h rfl, fun h => absurd h hslash⟩

theorem blank_spells : SpellsAlways [' '] [] := by
  intro rest
  apply lexemes_cons
  rfl

theorem single_blank_spells (hc : c ∈ singleSigns) :
    SpellsAlways [c, ' '] [.sign (String.ofList [c])] := by
  have hp : ∀ c ∈ singleSigns, (c, ' ') ∉ pairSigns :=
    List.forall_iff_forall_mem.1 (by decide)
  intro rest
  have hs : lexemes (c :: ' ' :: rest) = _ := lexemes_single hc fun d hd => by
    cases hd
    exact ⟨hp c hc, fun _ => by decide⟩
  have hb : lexemes (' ' :: rest) = _ := blank_spells rest
  rw [hb, map_append_map] at hs
  exact hs

end Signs

section Words

variable {text : String}

theorem isWordPart_of_start {c : Char} (h : isWordStart c = true) : isWordPart c = true := by
  simp [isWordPart, h]

theorem isWordStart_not_blank {c : Char} (h : isWordStart c = true) :
    c.isWhitespace = false ∧ c ≠ '/' := by
  refine ⟨Bool.eq_false_iff.2 fun hb => ?_, by rintro rfl; cases h⟩
  simp only [Char.isWhitespace, Bool.or_eq_true, decide_eq_true_eq] at hb
  obtain ((rfl | rfl) | rfl) | rfl := hb <;> cases h

theorem name_spells (h : IsNameText text) : Spells text.toList [.word text] := by
  unfold IsNameText isNameText at h
  split at h
  · cases h
  · next c cs htext =>
    simp only [Bool.and_eq_true, List.all_eq_true, Option.isNone_iff_eq_none] at h
    obtain ⟨⟨hc, hcs⟩, hl⟩ := h
    intro rest hr
    obtain ⟨ht, hd⟩ := Reading.takeWhile_append_of_head hcs rest fun d hd => (hr d hd).1
    obtain ⟨hb, hslash⟩ := isWordStart_not_blank hc
    rw [htext, List.cons_append]
    apply lexemes_cons
    have hword : wordLexeme (c :: cs) = .word text := by
      rw [wordLexeme, hl, ← htext, String.ofList_toList]
    simp [first, hb, hslash, hc, ht, hd, hword]

end Words

section Numbers

/-- How a number goes on to its end. It does not end with the letter of an exponent. -/
inductive NumberTail : Bool → List Char → Prop
  | nil : NumberTail false []
  | cons {exponent : Bool} {c : Char} {cs : List Char} (h : inNumber exponent c = true)
      (tail : NumberTail (isExponent c) cs) : NumberTail exponent (c :: cs)

variable {c : Char} {cs ds : List Char} {exponent : Bool}

theorem not_inNumber_of_apart {rest : List Char} (h : Apart rest) :
    numberTail false rest = ([], rest) := by
  cases rest with
  | nil => rfl
  | cons c rest =>
    obtain ⟨hw, hp⟩ := h c rfl
    simp [numberTail, inNumber, hw, hp]

theorem NumberTail.append {rest : List Char} (h : NumberTail exponent cs) (hr : Apart rest) :
    numberTail exponent (cs ++ rest) = (cs, rest) := by
  induction h with
  | nil => exact not_inNumber_of_apart hr
  | cons h tail ih => simp [numberTail, h, ih]

theorem digit_not_start (h : c.isDigit = true) : c.isWhitespace = false ∧ c ≠ '/' ∧
    isWordStart c = false := by
  have hn := Reading.isDigit_iff.1 h
  refine ⟨Bool.eq_false_iff.2 fun hb => ?_, ?_, ?_⟩
  · simp only [Char.isWhitespace, Bool.or_eq_true, decide_eq_true_eq] at hb
    obtain ((rfl | rfl) | rfl) | rfl := hb <;> cases h
  · rintro rfl
    cases h
  · have ha : c.isAlpha = false := Bool.eq_false_iff.2 fun ha => by
      rw [Reading.isAlpha_iff] at ha
      omega
    have hu : c ≠ '_' := by
      rintro rfl
      cases h
    simp only [isWordStart, ha, Bool.false_or, Bool.or_eq_false_iff, beq_eq_false_iff_ne, ne_eq, hu,
      not_false_eq_true, decide_eq_false_iff_not, true_and]
    omega

theorem number_spells (hc : c.isDigit = true) (h : NumberTail false cs) :
    Spells (c :: cs) [.literal (String.ofList (c :: cs))] := by
  intro rest hr
  obtain ⟨hb, hslash, hw⟩ := digit_not_start hc
  apply lexemes_cons
  simp [first, hb, hslash, hw, hc, h.append hr]

theorem NumberTail.digit (h : c.isDigit = true) (tail : NumberTail false cs) :
    NumberTail exponent (c :: cs) := by
  have he : isExponent c = false := by
    have hn := Reading.isDigit_iff.1 h
    simp only [isExponent, Bool.or_eq_false_iff, beq_eq_false_iff_ne]
    refine ⟨⟨⟨?_, ?_⟩, ?_⟩, ?_⟩ <;> (rintro rfl; cases h)
  exact .cons (by simp [inNumber, isWordPart, h]) (he ▸ tail)

theorem NumberTail.digits (h : ∀ d ∈ ds, d.isDigit = true) (tail : NumberTail false cs) :
    NumberTail false (ds ++ cs) := by
  induction ds with
  | nil => exact tail
  | cons d ds ih =>
    obtain ⟨hd, hds⟩ := List.forall_mem_cons.1 h
    exact .digit hd (ih hds)

end Numbers

section Quotes

variable {quote : Char}

theorem quotedTail_escapeChar (hq : quote = '"' ∨ quote = '\x27') (c : Char) (cs : List Char) :
    quotedTail quote false (Text.escapeChar quote c ++ cs) =
      (quotedTail quote false cs).map
        fun (tail, rest) => (Text.escapeChar quote c ++ tail, rest) := by
  have hb : ('\\' : Char) ≠ quote := by obtain rfl | rfl := hq <;> decide
  have hn : quote ≠ '\n' := by obtain rfl | rfl := hq <;> decide
  -- An escape is a backslash and a character that does not end the line, so both are passed.
  have hpair (d : Char) (hd : d ≠ '\n') : quotedTail quote false ('\\' :: d :: cs) =
      (quotedTail quote false cs).map fun (tail, rest) => ('\\' :: d :: tail, rest) := by
    simp [quotedTail, hb, hd, Option.map_map, Function.comp_def]
  unfold Text.escapeChar
  split
  · exact hpair _ (by decide)
  split
  · exact hpair _ (by decide)
  split
  · exact hpair _ (by decide)
  split
  · exact hpair _ (by decide)
  split
  · exact hpair _ (by decide)
  split
  · next h => exact hpair _ (h ▸ hn)
  · next hslash hline _ _ _ hquote =>
    have hs : (c == '\\') = false := beq_eq_false_iff_ne.2 hslash
    simp [quotedTail, hs, hline, hquote]

theorem quotedTail_escape (hq : quote = '"' ∨ quote = '\x27') (cs rest : List Char) :
    quotedTail quote false (Text.escape quote cs ++ quote :: rest) =
      some (Text.escape quote cs ++ [quote], rest) := by
  induction cs with
  | nil =>
    have hn : quote ≠ '\n' := by obtain rfl | rfl := hq <;> decide
    simp [Text.escape, quotedTail, hn]
  | cons c cs ih =>
    have hc : Text.escape quote (c :: cs) = Text.escapeChar quote c ++ Text.escape quote cs := by
      simp [Text.escape]
    rw [hc, List.append_assoc, quotedTail_escapeChar hq, ih, List.append_assoc]
    rfl

theorem escape_spells (hq : quote = '"' ∨ quote = '\x27') (cs : List Char) :
    SpellsAlways (quote :: (Text.escape quote cs ++ [quote]))
      [.literal (String.ofList (quote :: (Text.escape quote cs ++ [quote])))] := by
  intro rest
  rw [List.cons_append, List.append_assoc, List.singleton_append]
  apply lexemes_cons
  have ht := quotedTail_escape hq cs rest
  obtain rfl | rfl := hq
  · simp only [first, ht]
    rfl
  · simp only [first, ht]
    rfl

end Quotes

theorem behindComment_eq {what : List Char} (h : '*' ∉ what) (rest : List Char) :
    behindComment false (what ++ '*' :: '/' :: rest) = some rest := by
  induction what with
  | nil => rfl
  | cons c cs ih =>
    obtain ⟨hc, hcs⟩ : '*' ≠ c ∧ '*' ∉ cs := by simpa using h
    have he : (c == '*') = false := beq_eq_false_iff_ne.2 (Ne.symm hc)
    simp [behindComment, he, ih hcs]

end VnScript.Cpp
