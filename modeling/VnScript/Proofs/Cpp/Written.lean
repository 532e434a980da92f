import VnScript.Proofs.Cpp.Grouped

namespace VnScript.Cpp

section Levels

variable {ls : List Lexeme} {t : Tree} {s s' : Strength}

/-- How tightly the operators bind, level by level. -/
def strengths : List Strength :=
  [.logicalOr, .logicalAnd, .equality, .relational, .shift, .additive, .multiplicative]

/-- The levels of operators that bind at least as tightly. -/
def levelsFrom (s : Strength) : List (List String) := ladder.drop (strengths.countP (· < s))

/-- What an expression of this strength is in the grammar. -/
def nodeAt (s : Strength) (t : Tree) : Node :=
  if s ≤ .assignment then .expression t
  else if s < .access then .binary (levelsFrom s) t
  else .suffixed t

theorem levelsFrom_suffix (h : s' ≤ s) : levelsFrom s <:+ levelsFrom s' := by
  apply List.drop_suffix_drop_left
  apply List.countP_mono_left
  intro x _ hx
  exact decide_eq_true (Nat.lt_of_lt_of_le (of_decide_eq_true hx) h)

theorem Phrase.looser_levels {levels levels' : List (List String)}
    (h : Phrase ls (.binary levels t)) (hl : levels <:+ levels') :
    Phrase ls (.binary levels' t) := by
  obtain ⟨more, rfl⟩ := hl
  induction more with
  | nil => exact h
  | cons signs more ih => exact .tighter ih

theorem Phrase.expression_of_levels (h : Phrase ls (.binary (levelsFrom s) t)) :
    Phrase ls (.expression t) := .simple (h.looser_levels (levelsFrom_suffix (Nat.zero_le s)))

theorem Phrase.atom (h : Phrase ls (.suffixed t)) (s : Strength) : Phrase ls (nodeAt s t) := by
  have hb : Phrase ls (.binary (levelsFrom s) t) :=
    (Phrase.tightest h).looser_levels List.nil_suffix
  unfold nodeAt
  split
  · exact hb.expression_of_levels
  split
  · exact hb
  · exact h

theorem Phrase.negative_at (h : Phrase ls (.suffixed t)) (hs : s < .access) :
    Phrase (.sign "-" :: ls) (nodeAt s (.negative t)) := by
  have hb : Phrase (.sign "-" :: ls) (.binary (levelsFrom s) (.negative t)) :=
    (Phrase.negative (.tightest h)).looser_levels List.nil_suffix
  rw [nodeAt, if_pos hs]
  split
  · exact hb.expression_of_levels
  · exact hb

theorem Phrase.looser (h : Phrase ls (nodeAt s t)) (hs : s' ≤ s) : Phrase ls (nodeAt s' t) := by
  by_cases hsuffix : .access ≤ s
  · have ha : ¬s ≤ .assignment := fun h => absurd (hsuffix.trans h) (by decide)
    rw [nodeAt, if_neg ha, if_neg (Nat.not_lt.2 hsuffix)] at h
    exact h.atom s'
  have hb (ha : ¬s ≤ .assignment) : Phrase ls (.binary (levelsFrom s) t) := by
    rwa [nodeAt, if_neg ha, if_pos (Nat.lt_of_not_le hsuffix)] at h
  have hs'' : s' < .access := Nat.lt_of_le_of_lt hs (Nat.lt_of_not_le hsuffix)
  by_cases hs' : s' ≤ .assignment
  · rw [nodeAt, if_pos hs']
    by_cases ha : s ≤ .assignment
    · rwa [nodeAt, if_pos ha] at h
    · exact (hb ha).expression_of_levels
  · rw [nodeAt, if_neg hs', if_pos hs'']
    exact (hb fun ha => hs' (hs.trans ha)).looser_levels (levelsFrom_suffix hs)

theorem Phrase.expression_at (h : Phrase ls (nodeAt s t)) : Phrase ls (.expression t) :=
  h.looser (Nat.zero_le s)

end Levels

section Marks

variable {m m' : String} {lm lm' : List Lexeme}

/-- A text of signs that belong neither to a word before them nor to what is behind them. -/
structure IsMark (m : String) (lm : List Lexeme) : Prop where
  always : SpellsAlways m.toList lm
  apart : Apart m.toList
  ne_nil : m.toList ≠ []

theorem isMark_single {c : Char} (hc : c ∈ ['(', ')', '[', ']', '{', '}', ';', ',']) :
    IsMark (String.ofList [c]) [.sign (String.ofList [c])] := by
  have ha : ∀ c ∈ ['(', ')', '[', ']', '{', '}', ';', ','], isWordPart c = false ∧ c ≠ '.' :=
    List.forall_iff_forall_mem.1 (by decide)
  refine ⟨?_, ?_, by simp⟩
  · rw [String.toList_ofList]
    exact single_spells hc
  · rw [String.toList_ofList]
    rintro d ⟨⟩
    exact ha c hc

theorem isMark_pair {c d : Char} (h : (c, d) ∈ pairSigns) :
    IsMark (String.ofList [c, d]) [.sign (String.ofList [c, d])] := by
  have ha : ∀ p ∈ pairSigns, isWordPart p.1 = false ∧ p.1 ≠ '.' := by decide
  refine ⟨?_, ?_, by simp⟩
  · rw [String.toList_ofList]
    exact pair_spells h
  · rw [String.toList_ofList]
    rintro d ⟨⟩
    exact ha _ h

theorem isMark_blank : IsMark " " [] := by
  refine ⟨blank_spells, ?_, by simp⟩
  rintro d ⟨⟩
  decide

theorem IsMark.append (h : IsMark m lm) (h' : IsMark m' lm') : IsMark (m ++ m') (lm ++ lm') := by
  refine ⟨?_, ?_, by simp [h.ne_nil]⟩
  · rw [String.toList_append]
    exact h.always.append h'.always
  · rw [String.toList_append]
    exact h.apart.append h.ne_nil _

def spaced (sign : String) : String := " " ++ sign ++ " "

theorem isMark_spaced_pair {c d : Char} (h : (c, d) ∈ pairSigns) :
    IsMark (spaced (String.ofList [c, d])) [.sign (String.ofList [c, d])] :=
  (isMark_blank.append (isMark_pair h)).append isMark_blank

theorem isMark_spaced_single {c : Char} (h : c ∈ singleSigns) :
    IsMark (spaced (String.ofList [c])) [.sign (String.ofList [c])] := by
  have hs : SpellsAlways (' ' :: [c, ' ']) [.sign (String.ofList [c])] :=
    blank_spells.append (single_blank_spells h)
  have ht : (spaced (String.ofList [c])).toList = ' ' :: [c, ' '] := by
    simp [spaced]
  constructor
  · rw [ht]
    exact hs
  · rw [ht]
    rintro d ⟨⟩
    decide
  · rw [ht]
    simp

theorem isMark_operator (op : Operator) : IsMark (spaced op.cppSymbol) [.sign op.cppSymbol] := by
  have hop : (∃ c ∈ singleSigns, op.cppSymbol = String.ofList [c]) ∨
      ∃ p ∈ pairSigns, op.cppSymbol = String.ofList [p.1, p.2] := by
    have hany : (singleSigns.any fun c => op.cppSymbol = String.ofList [c]) ∨
        pairSigns.any fun p => op.cppSymbol = String.ofList [p.1, p.2] := by
      cases op <;> decide
    simpa only [List.any_eq_true, decide_eq_true_eq] using hany
  obtain ⟨c, hc, h⟩ | ⟨p, hp, h⟩ := hop
  · rw [h]
    exact isMark_spaced_single hc
  · rw [h]
    exact isMark_spaced_pair hp

theorem isMark_paren : IsMark "(" [.sign "("] := isMark_single (by decide)

theorem isMark_close : IsMark ")" [.sign ")"] := isMark_single (by decide)

theorem isMark_comma : IsMark ", " [.sign ","] :=
  (isMark_single (c := ',') (by decide)).append isMark_blank

theorem isMark_semicolon : IsMark "; " [.sign ";"] :=
  (isMark_single (c := ';') (by decide)).append isMark_blank

theorem isMark_arrow : IsMark "->" [.sign "->"] := isMark_pair (by decide)

theorem isMark_scope : IsMark "::" [.sign "::"] := isMark_pair (by decide)

theorem isMark_assign : IsMark " = " [.sign "="] := by
  have hs : " = " = spaced (String.ofList ['=']) := by decide
  rw [hs]
  exact isMark_spaced_single (by decide)

end Marks

section Texts

variable {a b m m' : String} {ls ls' lm lm' : List Lexeme}

theorem Spells.mark (h : Spells a.toList ls) (hm : IsMark m lm) :
    SpellsAlways (a ++ m).toList (ls ++ lm) := by
  rw [String.toList_append]
  exact h.append_always hm.always hm.apart hm.ne_nil

theorem Spells.joined (h : Spells a.toList ls) (hm : IsMark m lm) (h' : Spells b.toList ls') :
    Spells (a ++ m ++ b).toList (ls ++ lm ++ ls') := by
  rw [String.toList_append]
  exact (h.mark hm).append_spells h'

theorem Spells.enclosed (hm : IsMark m lm) (h : Spells a.toList ls) (hm' : IsMark m' lm') :
    SpellsAlways (m ++ a ++ m').toList (lm ++ ls ++ lm') := by
  have hs : Spells (m ++ a).toList (lm ++ ls) := by
    rw [String.toList_append]
    exact hm.always.append_spells h
  exact hs.mark hm'

end Texts

section Written

variable {text text' : String} {t t' : Tree} {node : Node} {s : Strength}

/-- A text whose lexemes are a phrase, also where signs follow it. -/
def Written (text : String) (node : Node) : Prop :=
  ∃ ls, Spells text.toList ls ∧ Phrase ls node

theorem Written.reads (h : Written text (.expression t)) : Reads text t := by
  obtain ⟨ls, hs, hp⟩ := h
  exact ⟨ls, hs.lexemes_eq, hp⟩

theorem Written.map {node' : Node} (h : Written text node)
    (hn : ∀ ls, Phrase ls node → Phrase ls node') : Written text node' := by
  obtain ⟨ls, hs, hp⟩ := h
  exact ⟨ls, hs, hn ls hp⟩

theorem Written.atom (h : Written text (.suffixed t)) (s : Strength) : Written text (nodeAt s t) :=
  h.map fun _ hp => hp.atom s

theorem Written.expression (h : Written text (nodeAt s t)) : Written text (.expression t) :=
  h.map fun _ hp => hp.expression_at

theorem written_name (h : IsNameText text) : Written text (.suffixed (.leaf text)) :=
  ⟨_, name_spells h, .operand (.word text)⟩

theorem written_literal (h : Spells text.toList [.literal text]) :
    Written text (.suffixed (.leaf text)) := ⟨_, h, .operand (.literal text)⟩

theorem written_qualified (h : IsNameText text) (h' : IsNameText text')
    (ht : ¬IsTemplate text text') :
    Written (text ++ "::" ++ text') (.suffixed (.qualified text text')) :=
  ⟨_, (name_spells h).joined isMark_scope (name_spells h'), .operand (.qualified ht)⟩

theorem Written.parenthesized (h : Written text (.expression t)) :
    Written ("(" ++ text ++ ")") (.suffixed t) := by
  obtain ⟨ls, hs, hp⟩ := h
  exact ⟨_, (hs.enclosed isMark_paren isMark_close).spells, .operand (.parenthesized hp)⟩

theorem Written.member (h : Written text (.suffixed t)) {name : String} (hn : IsNameText name) :
    Written (text ++ "->" ++ name) (.suffixed (.member t name)) := by
  obtain ⟨ls, hs, hp⟩ := h
  have hw := hs.joined isMark_arrow (name_spells hn)
  rw [List.append_assoc] at hw
  exact ⟨_, hw, .member hp name⟩

theorem Written.assign (h : Written text (.suffixed t)) (h' : Written text' (.expression t')) :
    Written (text ++ " = " ++ text') (.expression (.assign t t')) := by
  obtain ⟨ls, hs, hp⟩ := h
  obtain ⟨ls', hs', hp'⟩ := h'
  have hw := hs.joined isMark_assign hs'
  rw [List.append_assoc] at hw
  exact ⟨_, hw, .assign ((Phrase.tightest hp).looser_levels List.nil_suffix) hp'⟩

/-- Parentheses stand where the operand would group otherwise. -/
theorem written_operand_of {e : Expr} {parent : Strength} {right : Bool}
    (h : Written text (nodeAt s t))
    (hs : (if right then parent + 1 else parent) ≤ e.strength →
      (if right then parent + 1 else parent) ≤ s) :
    Written (operand e text parent right) (nodeAt (if right then parent + 1 else parent) t) := by
  unfold operand
  split
  · exact h.expression.parenthesized.atom _
  · next ho =>
    simp only [Bool.or_eq_true, decide_eq_true_eq, Bool.and_eq_true, beq_iff_eq, not_or,
      not_and] at ho
    refine h.map fun ls hp => hp.looser (hs ?_)
    cases right with
    | false => exact Nat.le_of_not_lt ho.1
    | true => exact Nat.lt_of_le_of_ne (Nat.le_of_not_lt ho.1) (Ne.symm (ho.2 rfl))

theorem written_operand {e : Expr} (h : Written text (nodeAt e.strength t)) (parent : Strength)
    (right : Bool) :
    Written (operand e text parent right) (nodeAt (if right then parent + 1 else parent) t) :=
  written_operand_of h id

theorem Operator.level (op : Operator) : ∃ signs, op.cppSymbol ∈ signs ∧
    (∀ t, nodeAt op.strength t = .binary (signs :: levelsFrom (op.strength + 1)) t) ∧
      ∀ t, nodeAt (op.strength + 1) t = .binary (levelsFrom (op.strength + 1)) t := by
  cases op <;> exact ⟨_, by decide, fun _ => rfl, fun _ => rfl⟩

theorem Written.operation (op : Operator) (h : Written text (nodeAt op.strength t))
    (h' : Written text' (nodeAt (op.strength + 1) t')) :
    Written (text ++ spaced op.cppSymbol ++ text')
      (nodeAt op.strength (.binary op.cppSymbol t t')) := by
  obtain ⟨signs, hm, hl, hr⟩ := Operator.level op
  obtain ⟨ls, hs, hp⟩ := h
  obtain ⟨ls', hs', hp'⟩ := h'
  have hw := hs.joined (isMark_operator op) hs'
  rw [List.append_assoc] at hw
  rw [hl] at hp ⊢
  rw [hr] at hp'
  exact ⟨_, hw, .operation hp hm hp'⟩

end Written

section Calls

variable {text : String} {t : Tree} {texts : List String} {ts : List Tree}

abbrev AllWritten (texts : List String) (ts : List Tree) : Prop :=
  List.Forall₂ (fun text t => Written text (.expression t)) texts ts

theorem AllWritten.items (h : AllWritten (text :: texts) (t :: ts)) :
    Written (argumentList (text :: texts)) (.items (t :: ts)) := by
  induction texts generalizing text t ts with
  | nil =>
    obtain ⟨⟨ls, hs, hp⟩, hr⟩ := List.forall₂_cons.1 h
    cases hr
    refine ⟨ls, ?_, .lastItem hp⟩
    rwa [argumentList, String.intercalate_singleton]
  | cons text' texts ih =>
    obtain ⟨⟨ls, hs, hp⟩, hr⟩ := List.forall₂_cons.1 h
    cases ts with
    | nil => cases hr
    | cons t' ts =>
      obtain ⟨ls', hs', hp'⟩ := ih hr
      have hw := hs.joined isMark_comma hs'
      rw [List.append_assoc] at hw
      refine ⟨_, ?_, .item hp hp'⟩
      rwa [argumentList, String.intercalate_cons_cons]

theorem AllWritten.arguments (h : AllWritten texts ts) :
    Written ("(" ++ argumentList texts ++ ")") (.arguments ts) := by
  cases h with
  | nil => exact ⟨_, (isMark_paren.append isMark_close).always.spells, .noArguments⟩
  | cons h hr =>
    obtain ⟨ls, hs, hp⟩ := (AllWritten.items (List.Forall₂.cons h hr))
    exact ⟨_, (hs.enclosed isMark_paren isMark_close).spells, .arguments hp⟩

theorem Written.call {f : String} {g : Tree} (h : Written f (.suffixed g))
    (ha : AllWritten texts ts) :
    Written (f ++ "(" ++ argumentList texts ++ ")") (.suffixed (.call g ts)) := by
  obtain ⟨ls, hs, hp⟩ := h
  obtain ⟨ls', hs', hp'⟩ := ha.arguments
  have hw : Spells (f ++ ("(" ++ argumentList texts ++ ")")).toList (ls ++ ls') := by
    rw [String.toList_append]
    refine hs.append hs' ?_ (by simp)
    simp only [String.toList_append]
    exact (isMark_paren.apart.append isMark_paren.ne_nil _).append (by simp) _
  exact ⟨_, by simpa only [String.append_assoc] using hw, .call hp hp'⟩

theorem Written.wrapped {f : String} {g : Tree} (h : Written f (.suffixed g))
    (ht : Written text (.expression t)) :
    Written (f ++ "(" ++ text ++ ")") (.suffixed (.call g [t])) := by
  have hc := h.call (.cons ht .nil)
  rwa [argumentList, String.intercalate_singleton] at hc

end Calls

section Terms

variable {text text' : String} {ts ts' : List Tree} {t : Tree} {sign : String} {s : Strength}

/-- Operands of this strength, one after the other with the operator between them. -/
inductive Chain (sign : String) (s : Strength) : List Lexeme → List Tree → Prop
  | one {ls : List Lexeme} {t : Tree} (h : Phrase ls (.binary (levelsFrom s) t)) :
    Chain sign s ls [t]
  | more {ls ls' : List Lexeme} {t : Tree} {ts : List Tree} (h : Chain sign s ls ts)
      (h' : Phrase ls' (.binary (levelsFrom s) t)) :
    Chain sign s (ls ++ .sign sign :: ls') (ts ++ [t])

theorem Chain.append {ls ls' : List Lexeme} (h : Chain sign s ls ts) (h' : Chain sign s ls' ts') :
    Chain sign s (ls ++ .sign sign :: ls') (ts ++ ts') := by
  induction h' with
  | one h' => exact .more h h'
  | more h' hp ih =>
    have hm := Chain.more ih hp
    simpa using hm

theorem Chain.ne_nil {ls : List Lexeme} (h : Chain sign s ls ts) : ts ≠ [] := by
  cases h <;> simp

theorem chain_concat (hne : ts ≠ []) : chain sign (ts ++ [t]) = .binary sign (chain sign ts) t := by
  obtain ⟨t', ts, rfl⟩ := List.exists_cons_of_ne_nil hne
  simp [chain]

theorem Chain.phrase {signs : List String} {ls : List Lexeme} (h : Chain sign s ls ts)
    (hs : sign ∈ signs) : Phrase ls (.binary (signs :: levelsFrom s) (chain sign ts)) := by
  induction h with
  | one h => exact .tighter h
  | more h h' ih =>
    rw [chain_concat h.ne_nil]
    exact .operation ih hs h'

def WrittenChain (sign : String) (s : Strength) (text : String) (ts : List Tree) : Prop :=
  ∃ ls, Spells text.toList ls ∧ Chain sign s ls ts

theorem WrittenChain.append (op : Operator) (h : WrittenChain op.cppSymbol s text ts)
    (h' : WrittenChain op.cppSymbol s text' ts') :
    WrittenChain op.cppSymbol s (text ++ spaced op.cppSymbol ++ text') (ts ++ ts') := by
  obtain ⟨ls, hs, hp⟩ := h
  obtain ⟨ls', hs', hp'⟩ := h'
  have hw := hs.joined (isMark_operator op) hs'
  rw [List.append_assoc] at hw
  exact ⟨_, hw, hp.append hp'⟩

theorem Written.one (h : Written text (.binary (levelsFrom s) t)) :
    WrittenChain sign s text [t] := by
  obtain ⟨ls, hs, hp⟩ := h
  exact ⟨ls, hs, .one hp⟩

theorem WrittenChain.written (op : Operator)
    (h : WrittenChain op.cppSymbol (op.strength + 1) text ts) :
    Written text (nodeAt op.strength (chain op.cppSymbol ts)) := by
  obtain ⟨signs, hm, hl, -⟩ := Operator.level op
  obtain ⟨ls, hs, hp⟩ := h
  refine ⟨ls, hs, ?_⟩
  rw [hl]
  exact hp.phrase hm

end Terms

section Atoms

variable {texts : List String} {ts : List Tree} {t : Tree}

theorem written_decimal {n : Int} (h : 0 ≤ n) :
    Written (Text.decimal n) (.suffixed (integerTree n)) := by
  rw [integerTree, if_neg (Int.not_lt.2 h)]
  exact written_literal (decimal_spells h)

theorem written_of_spells {text : String}
    (h : ∃ l, (l = .literal text ∨ l = .word text) ∧ Spells text.toList [l]) :
    Written text (.suffixed (.leaf text)) := by
  obtain ⟨l, rfl | rfl, hs⟩ := h
  · exact written_literal hs
  · exact ⟨_, hs, .operand (.word text)⟩

theorem written_owned (s : String) : Written (ownedLiteral s) (.suffixed (ownedTree s)) := by
  have hn : Written ("std" ++ "::" ++ "string") (.suffixed (.qualified "std" "string")) :=
    written_qualified (by decide) (by decide) (by decide)
  have hq : Written (Text.quoted s) (.suffixed (.leaf (Text.quoted s))) :=
    written_literal (quoted_spells s).spells
  have hs : "std::string(" = "std" ++ "::" ++ "string" ++ "(" := by decide
  rw [ownedLiteral, hs]
  exact hn.wrapped (hq.atom 0)

theorem written_text {text : String} (h : Written text (.expression t)) :
    Written ("vn_to_string(" ++ text ++ ")") (.suffixed (.call (.leaf "vn_to_string") [t])) := by
  have hn : IsNameText "vn_to_string" := by decide
  have hs : "vn_to_string(" = "vn_to_string" ++ "(" := by decide
  rw [hs]
  exact (written_name hn).wrapped h

/-- A sign of one character before another character with which it makes no longer one. -/
theorem Spells.single {c d : Char} {cs : List Char} {ls : List Lexeme} (hc : c ∈ singleSigns)
    (hp : (c, d) ∉ pairSigns) (hd : d ≠ '*') (h : Spells (d :: cs) ls) :
    Spells (c :: d :: cs) (.sign (String.ofList [c]) :: ls) := by
  intro rest hr
  have hs : lexemes (c :: d :: (cs ++ rest)) = _ := lexemes_single hc fun d' hd' => by
    cases hd'
    exact ⟨hp, fun _ => hd⟩
  have ht : lexemes (d :: (cs ++ rest)) = _ := h rest hr
  rw [ht, map_append_map] at hs
  exact hs

theorem Written.negative {text : String} {c : Char} (h : Written text (.suffixed t))
    (hhead : text.toList.head? = some c) (hc : c.isDigit = true) {s : Strength}
    (hs : s < .access) : Written ("-" ++ text) (nodeAt s (.negative t)) := by
  have hp : ∀ p ∈ pairSigns, p.2.isDigit = false := by decide
  have hpair : ('-', c) ∉ pairSigns := fun hm => by
    have hf := hp _ hm
    rw [hc] at hf
    cases hf
  have hstar : c ≠ '*' := by
    rintro rfl
    cases hc
  obtain ⟨cs, ht⟩ := List.head?_eq_some_iff.1 hhead
  obtain ⟨ls, hspelled, hphrase⟩ := h
  have htext : ("-" ++ text).toList = '-' :: c :: cs := by simp [ht]
  rw [ht] at hspelled
  refine ⟨_, ?_, hphrase.negative_at hs⟩
  rw [htext]
  exact hspelled.single (by decide) hpair hstar

theorem decimal_neg {n : Int} (h : n < 0) : Text.decimal n = "-" ++ Text.decimal (-n) := by
  obtain ⟨m, rfl⟩ := Int.eq_negSucc_of_lt_zero h
  have hm : -(Int.negSucc m) = Int.ofNat (m + 1) := rfl
  rw [← String.toList_inj, hm]
  simp only [Text.decimal, Text.decimalDigits, String.toList_append, String.toList_ofList]
  rfl

theorem written_integer (n : Int) {s : Strength} (hs : s < .access) :
    Written (Text.decimal n) (nodeAt s (integerTree n)) := by
  by_cases h : n < 0
  · have hn : 0 ≤ -n := by omega
    have hw : Written (Text.decimal (-n)) (.suffixed (.leaf (Text.decimal (-n)))) :=
      written_literal (decimal_spells hn)
    obtain ⟨hne, hd⟩ := Decimal.isWhole_toDigits (-n).toNat
    obtain ⟨c, cs, hc⟩ := List.exists_cons_of_ne_nil hne
    rw [decimal_neg h, integerTree, if_pos h]
    refine hw.negative ?_ (hd c (hc ▸ List.mem_cons_self ..)) hs
    rw [Text.toList_decimal hn, hc]
    rfl
  · exact (written_decimal (Int.not_lt.1 h)).atom s

theorem IsNameText.start {text : String} (h : IsNameText text) :
    ∃ c cs, text.toList = c :: cs ∧ isWordStart c = true := by
  unfold IsNameText isNameText at h
  split at h
  · cases h
  · next c cs htext =>
    simp only [Bool.and_eq_true] at h
    exact ⟨c, cs, htext, h.1.1⟩

theorem head_spells : SpellsAlways "([&]() \x7b ".toList (.sign "(" :: functionHead) := by
  have hand (rest : List Char) : lexemes ('&' :: ']' :: rest) = _ :=
    lexemes_single (c := '&') (by decide) fun d hd => by
      cases hd
      decide
  have hs (c : Char) (hc : c ∈ ['(', ')', '[', ']', '{', '}', ';', ',']) (rest : List Char) :
      lexemes (c :: rest) = _ := single_spells hc rest
  have hb (rest : List Char) : lexemes (' ' :: rest) = _ := blank_spells rest
  intro rest
  have ht : "([&]() \x7b ".toList ++ rest =
      '(' :: '[' :: '&' :: ']' :: '(' :: ')' :: ' ' :: '{' :: ' ' :: rest := by simp
  rw [ht, hs '(' (by decide), hs '[' (by decide), hand, hs ']' (by decide), hs '(' (by decide),
    hs ')' (by decide), hb, hs '{' (by decide), hb]
  simp only [Option.map_map]
  rfl

theorem apart_cons {c : Char} {cs : List Char} (h : isWordPart c = false ∧ c ≠ '.') :
    Apart (c :: cs) := by
  rintro d ⟨⟩
  exact h

theorem IsNameText.not_pair {c : Char} (hc : isWordStart c = true) :
    ('<', c) ∉ pairSigns ∧ c ≠ '*' := by
  have hp : ∀ p ∈ pairSigns, isWordStart p.2 = false := by decide
  constructor
  · intro h
    have hf := hp _ h
    rw [hc] at hf
    cases hf
  · rintro rfl
    cases hc

theorem written_creation {name : String} {type : Tree} {names : List Lexeme}
    (hn : Spells name.toList names) (hstart : ∃ c cs, name.toList = c :: cs ∧ isWordStart c = true)
    (hp : Phrase ([.word "std", .sign "::", .word "make_unique", .sign "<"] ++ names ++ [.sign ">"])
      (.primary type)) (ha : AllWritten texts ts) :
    Written ("std::make_unique<" ++ name ++ ">(" ++ argumentList texts ++ ")")
      (.suffixed (.call type ts)) := by
  have htemplate : Spells ("std" ++ "::" ++ "make_unique").toList
      [.word "std", .sign "::", .word "make_unique"] :=
    (name_spells (by decide)).joined isMark_scope (name_spells (by decide))
  obtain ⟨c, cs, hc, hw⟩ := hstart
  obtain ⟨ls, hs, hp'⟩ := ha.arguments
  have hopen : Spells ('<' :: name.toList) (.sign "<" :: names) := by
    rw [hc] at hn ⊢
    exact hn.single (by decide) (IsNameText.not_pair hw).1 (IsNameText.not_pair hw).2
  have hclose : Spells ('>' :: ("(" ++ argumentList texts ++ ")").toList) (.sign ">" :: ls) := by
    have ht : ("(" ++ argumentList texts ++ ")").toList =
        '(' :: (argumentList texts ++ ")").toList := by simp
    rw [ht] at hs ⊢
    exact hs.single (by decide) (by decide) (by decide)
  have hall := (htemplate.append hopen (apart_cons (by decide)) (by simp)).append hclose
    (apart_cons (by decide)) (by simp)
  refine ⟨_, ?_, .call (.operand hp) hp'⟩
  simpa using hall

end Atoms

section Reading

variable {prompt : String} {t : Tree}

/-- The words with which a line is read, each with the signs behind it. -/
def readWords : List (String × String × List Lexeme) :=
  [("std", "::", [.sign "::"]), ("string", " ", []), ("vn_line", "; ", [.sign ";"]),
    ("std", "::", [.sign "::"]), ("getline", "(", [.sign "("]), ("std", "::", [.sign "::"]),
    ("cin", ", ", [.sign ","]), ("vn_line", "); ", [.sign ")", .sign ";"]), ("return", " ", []),
    ("vn_line", "; ", [.sign ";"])]

theorem isMark_readWords : ∀ p ∈ readWords, IsNameText p.1 ∧ IsMark p.2.1 p.2.2 := by
  have hs := isMark_scope
  have hb := isMark_blank
  have hl := isMark_semicolon
  have hp := isMark_paren
  have hc := isMark_comma
  have he : IsMark "); " [.sign ")", .sign ";"] := isMark_close.append isMark_semicolon
  have hn : ∀ p ∈ readWords, IsNameText p.1 := by decide
  intro p hm
  refine ⟨hn p hm, ?_⟩
  simp only [readWords, List.mem_cons, List.not_mem_nil, or_false] at hm
  obtain rfl | rfl | rfl | rfl | rfl | rfl | rfl | rfl | rfl | rfl := hm <;> assumption

theorem words_spell {words : List (String × String × List Lexeme)}
    (h : ∀ p ∈ words, IsNameText p.1 ∧ IsMark p.2.1 p.2.2) :
    SpellsAlways (words.flatMap fun p => p.1.toList ++ p.2.1.toList)
      (words.flatMap fun p => .word p.1 :: p.2.2) := by
  induction words with
  | nil => intro rest; simp
  | cons p words ih =>
    obtain ⟨⟨hw, hm⟩, hwords⟩ := List.forall_mem_cons.1 h
    exact ((name_spells hw).append_always hm.always hm.apart hm.ne_nil).append (ih hwords)

def readText : String :=
  "std::string vn_line; std::getline(std::cin, vn_line); return vn_line; \x7d())"

theorem readText_spells :
    SpellsAlways readText.toList (readBody ++ [.sign "(", .sign ")", .sign ")"]) := by
  have ht : readText.toList =
      readWords.flatMap (fun p => p.1.toList ++ p.2.1.toList) ++ ['\x7d', '(', ')', ')'] := by
    decide
  have hl : readBody ++ [.sign "(", .sign ")", .sign ")"] =
      readWords.flatMap (fun p => .word p.1 :: p.2.2) ++
        [.sign "\x7d", .sign "(", .sign ")", .sign ")"] := by decide
  have hs (c : Char) (hc : c ∈ ['(', ')', '[', ']', '{', '}', ';', ',']) (rest : List Char) :
      lexemes (c :: rest) = _ := single_spells hc rest
  have hsigns : SpellsAlways ['\x7d', '(', ')', ')']
      [.sign "\x7d", .sign "(", .sign ")", .sign ")"] := by
    intro rest
    rw [List.cons_append, List.cons_append, List.cons_append, List.cons_append, List.nil_append,
      hs _ (by decide), hs _ (by decide), hs _ (by decide), hs _ (by decide)]
    simp only [Option.map_map]
    rfl
  rw [ht, hl]
  exact (words_spell isMark_readWords).append hsigns

theorem Phrase.called {ls : List Lexeme} (h : Phrase ls (.primary t)) :
    Phrase (.sign "(" :: (ls ++ [.sign "(", .sign ")"]) ++ [.sign ")"])
      (.suffixed (.call t [])) := by
  have hc : Phrase (ls ++ [.sign "(", .sign ")"]) (.suffixed (.call t [])) :=
    .call (.operand h) .noArguments
  exact .operand (.parenthesized ((hc.atom 0).expression_at))

theorem inputText_eq (prompt : String) :
    inputText prompt = "([&]() \x7b " ++ prompt ++ readText := rfl

theorem written_input : Written (inputText "") (.suffixed (.call .readLine [])) := by
  refine ⟨_, ?_, Phrase.called .readLine⟩
  have h := (head_spells.append readText_spells).spells
  rw [inputText_eq, String.append_empty, String.toList_append]
  simpa only [List.cons_append, List.append_assoc, List.nil_append] using h

theorem written_prompt (h : Written prompt (.expression t)) :
    Written (inputText (prompt ++ "; ")) (.suffixed (.call (.readLineAfter t) [])) := by
  obtain ⟨ls, hs, hp⟩ := h
  refine ⟨_, ?_, Phrase.called (.readLineAfter hp)⟩
  have h := (head_spells.append ((hs.mark isMark_semicolon).append readText_spells)).spells
  rw [inputText_eq, String.toList_append, String.toList_append]
  simpa only [List.cons_append, List.append_assoc, List.nil_append] using h

end Reading

section Placeholders

variable {what : List Char}

theorem comment_spells (h : '*' ∉ what) :
    SpellsAlways ('/' :: '*' :: (what ++ ['*', '/'])) [] := by
  intro rest
  apply lexemes_cons
  simp [first, behindComment_eq h]

theorem written_placeholder {what : String} (h : '*' ∉ what.toList) :
    Written (placeholder what) (.suffixed (.value dynamicType)) := by
  refine ⟨_, ?_, .operand (.value dynamicType)⟩
  have hc : SpellsAlways
      ('/' :: '*' :: (" unsupported: ".toList ++ what.toList ++ [' '] ++ ['*', '/'])) [] :=
    comment_spells (by simpa using h)
  have hv : IsMark "\x7b\x7d" _ :=
    (isMark_single (c := '{') (by decide)).append (isMark_single (c := '}') (by decide))
  have hn : IsNameText dynamicType := by decide
  have hs := ((name_spells hn).mark hv).append (blank_spells.append hc)
  simpa [placeholder] using hs.spells

end Placeholders

end VnScript.Cpp
