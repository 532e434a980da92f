import VnScript.Proofs.Cpp.Literal

namespace VnScript.Cpp

inductive Bracket where
  | round | square | curly
  deriving DecidableEq

namespace Bracket

def opening? (c : Char) : Option Bracket :=
  if c = '(' then some round else if c = '[' then some square
  else if c = '\x7b' then some curly else none

def closing? (c : Char) : Option Bracket :=
  if c = ')' then some round else if c = ']' then some square
  else if c = '\x7d' then some curly else none

end Bracket

/-- Where a place in a text is: outside comments and literals, perhaps right behind a word or a
number; behind a slash there; within a comment that ends with its line, or behind one of its
`*` with `*/`; or within a literal, perhaps behind a backslash. -/
inductive Mode where
  | outside (word : Bool)
  | slash
  | line
  | block (star : Bool)
  | literal (quote : Char) (escaped : Bool)
  deriving DecidableEq

/-- A place in a text, and the brackets that are open there, the innermost first. -/
structure Scanner where
  mode : Mode
  opened : List Bracket
  deriving DecidableEq

namespace Scanner

def code (word : Bool) (opened : List Bracket) : Scanner := ⟨.outside word, opened⟩

def start : Scanner := .code false []

/-- Go past a character outside comments and literals. A closing bracket pairs with the innermost
one that is open. A quote right behind a word would belong to it. -/
def outside (word : Bool) (opened : List Bracket) (c : Char) : Option Scanner :=
  if c = '"' ∨ c = '\x27' then if word then none else some ⟨.literal c false, opened⟩
  else if c = '/' then some ⟨.slash, opened⟩
  else
    match Bracket.opening? c, Bracket.closing? c, opened with
    | some b, _, _ => some (.code false (b :: opened))
    | none, some b, b' :: outer => if b = b' then some (.code false outer) else none
    | none, some _, [] => none
    | none, none, _ => some (.code (isWordPart c) opened)

/-- Go past a character. A literal holds no end of a line. -/
def next (s : Scanner) (c : Char) : Option Scanner :=
  match s.mode with
  | .outside word => outside word s.opened c
  | .slash =>
    if c = '/' then some ⟨.line, s.opened⟩
    else if c = '*' then some ⟨.block false, s.opened⟩
    else outside false s.opened c
  | .line => some (if c = '\n' then .code false s.opened else s)
  | .block star =>
    some (if star && c == '/' then .code false s.opened else ⟨.block (c == '*'), s.opened⟩)
  | .literal quote escaped =>
    if c = '\n' then none
    else if escaped then some ⟨.literal quote false, s.opened⟩
    else if c = quote then some (.code false s.opened)
    else some ⟨.literal quote (c == '\\'), s.opened⟩

def scan (s : Scanner) (text : String) : Option Scanner := text.toList.foldlM next s

def nextInLine (s : Scanner) (c : Char) : Option Scanner := if c = '\n' then none else s.next c

def scanLine (s : Scanner) (text : String) : Option Scanner := text.toList.foldlM nextInLine s

end Scanner

/-- The text ends outside comments and literals, and outside them its brackets are balanced and
properly nested. -/
def IsClosed (text : String) : Prop := ∃ word, Scanner.start.scan text = some (.code word [])
  deriving Decidable

example : IsClosed "f('(', \"]\") /* ) */" ∧ ¬IsClosed "f([)]" ∧ ¬IsClosed "f() // )" := by
  decide

open Scanner

section Scanning

variable {k k' k'' : List Bracket} {a b : String}

theorem scan_append (s : Scanner) (a b : String) :
    s.scan (a ++ b) = (s.scan a).bind (scan · b) := by
  simp only [scan, String.toList_append, List.foldlM_append]
  rfl

theorem scanLine_append (s : Scanner) (a b : String) :
    s.scanLine (a ++ b) = (s.scanLine a).bind (scanLine · b) := by
  simp only [scanLine, String.toList_append, List.foldlM_append]
  rfl

theorem scan_of_cons {f : Scanner → Char → Option Scanner} {s s' : Scanner} {c : Char}
    {cs : List Char} (h : f s c = some s') : (c :: cs).foldlM f s = cs.foldlM f s' := by
  simp only [List.foldlM_cons, h]
  rfl

theorem nextInLine_of_ne {c : Char} (h : c ≠ '\n') (s : Scanner) : s.nextInLine c = s.next c :=
  if_neg h

theorem nextInLine_eq_some {s s' : Scanner} {c : Char} (h : s.nextInLine c = some s') :
    c ≠ '\n' ∧ s.next c = some s' := by
  by_cases hc : c = '\n'
  · rw [nextInLine, if_pos hc] at h
    cases h
  · exact ⟨hc, nextInLine_of_ne hc s ▸ h⟩

theorem scan_of_scanLine {s s' : Scanner} (h : s.scanLine a = some s') :
    '\n' ∉ a.toList ∧ s.scan a = some s' := by
  unfold scanLine at h
  unfold scan
  generalize a.toList = cs at h ⊢
  induction cs generalizing s with
  | nil => exact ⟨List.not_mem_nil, h⟩
  | cons c cs ih =>
    obtain ⟨s₁, hfirst, hrest⟩ := Option.bind_eq_some_iff.1 h
    obtain ⟨hc, hnext⟩ := nextInLine_eq_some hfirst
    obtain ⟨hcs, hscan⟩ := ih hrest
    rw [scan_of_cons hnext, List.mem_cons, not_or]
    exact ⟨⟨Ne.symm hc, hcs⟩, hscan⟩

theorem outside_around {s : Scanner} {word : Bool} {c : Char} (h : outside word k c = some s)
    (outer : List Bracket) :
    outside word (k ++ outer) c = some ⟨s.mode, s.opened ++ outer⟩ := by
  by_cases hquote : c = '"' ∨ c = '\x27'
  · cases word with
    | true => simp [outside, hquote] at h
    | false =>
      simp only [outside, hquote, if_true, Bool.false_eq_true, if_false, Option.some.injEq] at h ⊢
      subst h
      rfl
  by_cases hslash : c = '/'
  · simp only [outside, if_neg hquote, if_pos hslash] at h ⊢
    cases h
    rfl
  simp only [outside, if_neg hquote, if_neg hslash] at h ⊢
  cases ho : Bracket.opening? c with
  | some b =>
    rw [ho] at h
    cases h
    rfl
  | none =>
    rw [ho] at h
    cases hc : Bracket.closing? c with
    | none =>
      rw [hc] at h
      cases h
      rfl
    | some b =>
      rw [hc] at h
      -- What the text closes it has opened itself.
      cases k with
      | nil => cases h
      | cons b' k =>
        obtain ⟨hb, hs⟩ := Option.ite_none_right_eq_some.1 h
        cases hs
        exact if_pos hb

theorem literal_around {s' : Scanner} {quote c : Char} {escaped : Bool}
    (h : next ⟨.literal quote escaped, k⟩ c = some s') (outer : List Bracket) :
    next ⟨.literal quote escaped, k ++ outer⟩ c = some ⟨s'.mode, s'.opened ++ outer⟩ := by
  simp only [next] at h ⊢
  by_cases hline : c = '\n'
  · rw [if_pos hline] at h
    cases h
  rw [if_neg hline] at h ⊢
  by_cases hescaped : escaped = true
  · rw [if_pos hescaped] at h ⊢
    cases h
    rfl
  rw [if_neg hescaped] at h ⊢
  by_cases hend : c = quote
  · rw [if_pos hend] at h ⊢
    cases h
    rfl
  · rw [if_neg hend] at h ⊢
    cases h
    rfl

theorem next_around {s s' : Scanner} {c : Char} (h : s.next c = some s') (outer : List Bracket) :
    next ⟨s.mode, s.opened ++ outer⟩ c = some ⟨s'.mode, s'.opened ++ outer⟩ := by
  obtain ⟨mode, opened⟩ := s
  cases mode with
  | outside word => exact outside_around h outer
  | slash =>
    by_cases hline : c = '/'
    · subst hline
      cases h
      rfl
    by_cases hblock : c = '*'
    · subst hblock
      cases h
      rfl
    simp only [next, hline, hblock, if_false] at h ⊢
    exact outside_around h outer
  | line =>
    cases h
    simp only [next]
    split <;> rfl
  | block star =>
    cases h
    simp only [next]
    split <;> rfl
  | literal quote escaped => exact literal_around h outer

theorem nextInLine_around {s s' : Scanner} {c : Char} (h : s.nextInLine c = some s')
    (outer : List Bracket) :
    nextInLine ⟨s.mode, s.opened ++ outer⟩ c = some ⟨s'.mode, s'.opened ++ outer⟩ := by
  obtain ⟨hc, hnext⟩ := nextInLine_eq_some h
  rw [nextInLine_of_ne hc]
  exact next_around hnext outer

theorem foldlM_around {f : Scanner → Char → Option Scanner} {outer : List Bracket}
    (hf : ∀ {s s' c}, f s c = some s' →
      f ⟨s.mode, s.opened ++ outer⟩ c = some ⟨s'.mode, s'.opened ++ outer⟩)
    {s s' : Scanner} {cs : List Char} (h : cs.foldlM f s = some s') :
    cs.foldlM f ⟨s.mode, s.opened ++ outer⟩ = some ⟨s'.mode, s'.opened ++ outer⟩ := by
  induction cs generalizing s with
  | nil =>
    cases h
    rfl
  | cons c cs ih =>
    obtain ⟨s₁, hfirst, hrest⟩ := Option.bind_eq_some_iff.1 h
    rw [scan_of_cons (hf hfirst)]
    exact ih hrest

theorem scan_around {s s' : Scanner} (h : s.scan a = some s') (outer : List Bracket) :
    scan ⟨s.mode, s.opened ++ outer⟩ a = some ⟨s'.mode, s'.opened ++ outer⟩ :=
  foldlM_around (fun h => next_around h outer) h

theorem scanLine_around {s s' : Scanner} (h : s.scanLine a = some s') (outer : List Bracket) :
    scanLine ⟨s.mode, s.opened ++ outer⟩ a = some ⟨s'.mode, s'.opened ++ outer⟩ :=
  foldlM_around (fun h => nextInLine_around h outer) h

/-- The text is on one line and takes the brackets `k`, where they are open, to `k'`. -/
def Takes (k k' : List Bracket) (text : String) : Prop :=
  ∀ word, ∃ word', (Scanner.code word k).scanLine text = some (.code word' k')

/-- The same for a text that may start with a literal, so that it cannot stand behind a word. -/
def TakesApart (k k' : List Bracket) (text : String) : Prop :=
  ∃ word', (Scanner.code false k).scanLine text = some (.code word' k')

/-- The same for a text that does not end with a word. -/
def Separates (k k' : List Bracket) (text : String) : Prop :=
  ∀ word, (Scanner.code word k).scanLine text = some (.code false k')

theorem Takes.apart (h : Takes k k' a) : TakesApart k k' a := h false

theorem Separates.takes (h : Separates k k' a) : Takes k k' a := fun word => ⟨false, h word⟩

theorem Takes.append (ha : Takes k k' a) (hb : Takes k' k'' b) : Takes k k'' (a ++ b) := by
  intro word
  obtain ⟨word', ha⟩ := ha word
  obtain ⟨word'', hb⟩ := hb word'
  exact ⟨word'', by rw [scanLine_append, ha, Option.bind_some, hb]⟩

theorem TakesApart.append (ha : TakesApart k k' a) (hb : Takes k' k'' b) :
    TakesApart k k'' (a ++ b) := by
  obtain ⟨word', ha⟩ := ha
  obtain ⟨word'', hb⟩ := hb word'
  exact ⟨word'', by rw [scanLine_append, ha, Option.bind_some, hb]⟩

theorem Separates.append (ha : Separates k k' a) (hb : TakesApart k' k'' b) :
    Takes k k'' (a ++ b) := by
  intro word
  obtain ⟨word', hb⟩ := hb
  exact ⟨word', by rw [scanLine_append, ha, Option.bind_some, hb]⟩

theorem TakesApart.around (h : TakesApart k k' a) (outer : List Bracket) :
    TakesApart (k ++ outer) (k' ++ outer) a := by
  obtain ⟨word', h⟩ := h
  exact ⟨word', scanLine_around h outer⟩

theorem Takes.around (h : Takes k k' a) (outer : List Bracket) :
    Takes (k ++ outer) (k' ++ outer) a := by
  intro word
  obtain ⟨word', h⟩ := h word
  exact ⟨word', scanLine_around h outer⟩

-- A literal text unifies with the one below, which gives its characters without computing them.
theorem separates_of {cs : List Char}
    (h : ∀ word, cs.foldlM nextInLine (.code word k) = some (.code false k')) :
    Separates k k' (String.ofList cs) := by
  intro word
  rw [scanLine, String.toList_ofList]
  exact h word

theorem takes_of {cs : List Char}
    (h : ∀ word, ∃ word', cs.foldlM nextInLine (.code word k) = some (.code word' k')) :
    Takes k k' (String.ofList cs) := by
  intro word
  rw [scanLine, String.toList_ofList]
  exact h word

end Scanning

section Plain

/-- The characters at the borders of lines, comments and literals, and the brackets. -/
def borders : List Char := ['\n', '"', '\x27', '/', '(', ')', '[', ']', '\x7b', '\x7d']

def isPlain (c : Char) : Bool := !borders.contains c

variable {c : Char} {text : String}

theorem nextInLine_plain (h : isPlain c = true) (word : Bool) (opened : List Bracket) :
    nextInLine (.code word opened) c = some (.code (isWordPart c) opened) := by
  simp only [isPlain, borders, Bool.not_eq_true', List.contains_eq_mem, List.mem_cons,
    List.not_mem_nil, or_false, decide_eq_false_iff_not, not_or] at h
  simp only [nextInLine, next, Scanner.code, outside, Bracket.opening?, Bracket.closing?, h,
    if_false, or_self]

theorem takes_plain (h : ∀ c ∈ text.toList, isPlain c = true) : Takes [] [] text := by
  intro word
  unfold scanLine
  generalize text.toList = cs at h
  induction cs generalizing word with
  | nil => exact ⟨word, rfl⟩
  | cons c cs ih =>
    obtain ⟨hc, hcs⟩ := List.forall_mem_cons.1 h
    rw [scan_of_cons (nextInLine_plain hc word _)]
    exact ih _ hcs

theorem isPlain_of {p : Char → Bool} (hp : (borders.all fun c => !p c) = true) (h : p c = true) :
    isPlain c = true := by
  by_contra hc
  rw [isPlain, Bool.not_eq_true', Bool.not_eq_false, List.contains_eq_mem, decide_eq_true_eq] at hc
  have hborder := List.all_eq_true.1 hp c hc
  rw [h] at hborder
  cases hborder

end Plain

section Borders

variable {cs tail rest : List Char} {opened : List Bracket}

theorem scan_quotedTail {quote : Char} {escaped : Bool}
    (h : quotedTail quote escaped cs = some (tail, rest)) :
    cs.foldlM nextInLine ⟨.literal quote escaped, opened⟩ =
      rest.foldlM nextInLine (.code false opened) := by
  induction cs generalizing escaped tail with
  | nil => cases h
  | cons c cs ih =>
    unfold quotedTail at h
    split at h
    · cases h
    · next hline =>
      split at h
      · next hend =>
        obtain ⟨rfl, he⟩ := hend
        cases h
        refine scan_of_cons ?_
        rw [Bool.not_eq_true'] at he
        simp [nextInLine, next, hline, he]
      · next hgoes =>
        obtain ⟨⟨tail', rest'⟩, ht, heq⟩ := Option.map_eq_some_iff.1 h
        cases heq
        rw [← ih ht]
        refine scan_of_cons ?_
        cases escaped with
        | true => simp [nextInLine, next, hline]
        | false =>
          have hc : c ≠ quote := fun hc => hgoes ⟨hc, rfl⟩
          simp [nextInLine, next, hline, hc]

theorem scan_behindComment {star : Bool} (hn : '\n' ∉ cs)
    (h : behindComment star cs = some rest) :
    cs.foldlM nextInLine ⟨.block star, opened⟩ =
      rest.foldlM nextInLine (.code false opened) := by
  induction cs generalizing star with
  | nil => cases h
  | cons c cs ih =>
    obtain ⟨hc, hcs⟩ : '\n' ≠ c ∧ '\n' ∉ cs := by simpa using hn
    unfold behindComment at h
    split at h
    · next hend =>
      cases h
      refine scan_of_cons ?_
      simp only [nextInLine_of_ne (Ne.symm hc), next, hend, if_true]
    · next hgoes =>
      rw [← ih hcs h]
      refine scan_of_cons ?_
      simp only [nextInLine_of_ne (Ne.symm hc), next, hgoes, if_false, Bool.false_eq_true]

theorem scan_line (h : '\n' ∉ cs) :
    cs.foldlM nextInLine ⟨.line, opened⟩ = some ⟨.line, opened⟩ := by
  induction cs with
  | nil => rfl
  | cons c cs ih =>
    obtain ⟨hc, hcs⟩ : '\n' ≠ c ∧ '\n' ∉ cs := by simpa using h
    rw [← ih hcs]
    refine scan_of_cons ?_
    simp only [nextInLine_of_ne (Ne.symm hc), next, if_neg (Ne.symm hc)]

theorem takesApart_escape {quote : Char} (hq : quote = '"' ∨ quote = '\x27') (cs : List Char) :
    TakesApart [] [] (String.ofList (quote :: Text.escape quote cs ++ [quote])) := by
  refine ⟨false, ?_⟩
  have hfirst : nextInLine (.code false []) quote = some ⟨.literal quote false, []⟩ := by
    obtain rfl | rfl := hq <;> rfl
  rw [scanLine, String.toList_ofList, List.cons_append]
  exact (scan_of_cons hfirst).trans (scan_quotedTail (quotedTail_escape hq cs []))

theorem takesApart_quoted (s : String) : TakesApart [] [] (Text.quoted s) :=
  takesApart_escape (.inl rfl) s.toList

theorem takesApart_quotedChar (c : Char) : TakesApart [] [] (Text.quotedChar c) := by
  have h : TakesApart [] [] (String.ofList ('\x27' :: Text.escape '\x27' [c] ++ ['\x27'])) :=
    takesApart_escape (.inr rfl) [c]
  rwa [Text.escape, List.flatMap_singleton] at h

end Borders

end VnScript.Cpp
