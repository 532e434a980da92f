import VnScript.Cpp.Names
import VnScript.Proofs.Token.Relexing

namespace VnScript.Cpp

inductive Lexeme where
  | word (text : String)
  | literal (text : String)
  | sign (text : String)
  deriving DecidableEq

/-- Letters of other scripts count as letters. -/
def isWordStart (c : Char) : Bool := c.isAlpha || c == '_' || 127 < c.toNat

def isWordPart (c : Char) : Bool := isWordStart c || c.isDigit

def wordSigns : List (String × String) :=
  [("and", "&&"), ("or", "||"), ("not_eq", "!="), ("not", "!"), ("xor", "^"), ("bitand", "&"),
    ("bitor", "|"), ("compl", "~"), ("and_eq", "&="), ("or_eq", "|="), ("xor_eq", "^=")]

def wordLexeme (w : List Char) : Lexeme :=
  match wordSigns.lookup (String.ofList w) with
  | some s => .sign s
  | none => .word (String.ofList w)

def isExponent (c : Char) : Bool := c == 'e' || c == 'E' || c == 'p' || c == 'P'

/-- Whether a number goes on with `c`. A sign belongs to it only behind the letter of an
exponent. -/
def inNumber (exponent : Bool) (c : Char) : Bool :=
  isWordPart c || c == '.' || exponent && (c == '+' || c == '-')

def numberTail (exponent : Bool) : List Char → List Char × List Char
  | [] => ([], [])
  | c :: cs =>
    if inNumber exponent c then
      let (tail, rest) := numberTail (isExponent c) cs
      (c :: tail, rest)
    else ([], c :: cs)

/-- The rest of a literal up to its closing quote, and what is behind it. A backslash and the
character behind it belong together. -/
def quotedTail (quote : Char) (escaped : Bool) : List Char → Option (List Char × List Char)
  | [] => none
  | c :: cs =>
    if c = '\n' then none
    else if c = quote ∧ !escaped then some ([c], cs)
    else (quotedTail quote (c == '\\' && !escaped) cs).map fun (tail, rest) => (c :: tail, rest)

def behindComment (star : Bool) : List Char → Option (List Char)
  | [] => none
  | c :: cs => if star && c == '/' then some cs else behindComment (c == '*') cs

def pairSigns : List (Char × Char) :=
  [('-', '>'), (':', ':'), ('<', '<'), ('>', '>'), ('<', '='), ('>', '='), ('=', '='), ('!', '='),
    ('&', '&'), ('|', '|'), ('+', '+'), ('-', '-'), ('+', '='), ('-', '='), ('*', '='), ('/', '='),
    ('%', '='), ('&', '='), ('|', '='), ('^', '=')]

def singleSigns : List Char :=
  ['(', ')', '[', ']', '{', '}', ';', ',', '.', ':', '?', '<', '>', '=', '+', '-', '*', '/', '%',
    '&', '|', '^', '!', '~']

/-- The longest sign at the start, and what is behind it. -/
def sign? (c : Char) (cs : List Char) : Option (List Char × List Char) :=
  if cs.head?.any fun d => pairSigns.contains (c, d) then some (c :: cs.take 1, cs.drop 1)
  else if singleSigns.contains c then some ([c], cs)
  else none

/-- What stands at the start, nothing for a blank or a comment, and what is behind it. -/
def first (c : Char) (cs : List Char) : Option (List Lexeme × List Char) :=
  if c.isWhitespace then some ([], cs)
  else if c = '/' ∧ cs.head? = some '*' then (behindComment false cs.tail).map ([], ·)
  else if isWordStart c then
    some ([wordLexeme (c :: cs.takeWhile isWordPart)], cs.dropWhile isWordPart)
  else if c.isDigit then
    let (tail, rest) := numberTail false cs
    some ([.literal (String.ofList (c :: tail))], rest)
  else if c = '"' ∨ c = '\x27' then
    (quotedTail c false cs).map fun (tail, rest) => ([.literal (String.ofList (c :: tail))], rest)
  else (sign? c cs).map fun (s, rest) => ([.sign (String.ofList s)], rest)

theorem numberTail_length (exponent : Bool) (cs : List Char) :
    (numberTail exponent cs).2.length ≤ cs.length := by
  induction cs generalizing exponent with
  | nil => simp [numberTail]
  | cons c cs ih =>
    unfold numberTail
    split
    · exact Nat.le_succ_of_le (ih _)
    · exact Nat.le_refl _

theorem quotedTail_length {quote : Char} {escaped : Bool} {cs tail rest : List Char}
    (h : quotedTail quote escaped cs = some (tail, rest)) : rest.length ≤ cs.length := by
  induction cs generalizing escaped tail with
  | nil => cases h
  | cons c cs ih =>
    unfold quotedTail at h
    split at h
    · cases h
    · split at h
      · cases h
        exact Nat.le_succ _
      · obtain ⟨⟨tail', rest'⟩, h', he⟩ := Option.map_eq_some_iff.1 h
        cases he
        exact Nat.le_succ_of_le (ih h')

theorem behindComment_length {star : Bool} {cs rest : List Char}
    (h : behindComment star cs = some rest) : rest.length ≤ cs.length := by
  induction cs generalizing star with
  | nil => cases h
  | cons c cs ih =>
    unfold behindComment at h
    split at h
    · cases h
      exact Nat.le_succ _
    · exact Nat.le_succ_of_le (ih h)

theorem first_length {c : Char} {cs rest : List Char} {ls : List Lexeme}
    (h : first c cs = some (ls, rest)) : rest.length ≤ cs.length := by
  unfold first at h
  split at h
  · cases h
    exact Nat.le_refl _
  split at h
  · obtain ⟨rest', h', he⟩ := Option.map_eq_some_iff.1 h
    cases he
    exact (behindComment_length h').trans (by simp)
  split at h
  · cases h
    exact (List.dropWhile_suffix _).length_le
  split at h
  · cases h
    exact numberTail_length false cs
  split at h
  · obtain ⟨⟨tail, rest'⟩, h', he⟩ := Option.map_eq_some_iff.1 h
    cases he
    exact quotedTail_length h'
  · obtain ⟨⟨s, rest'⟩, h', he⟩ := Option.map_eq_some_iff.1 h
    cases he
    unfold sign? at h'
    split at h'
    · cases h'
      simp
    · split at h' <;> cases h'
      exact Nat.le_refl _

def lexemes (cs : List Char) : Option (List Lexeme) :=
  match cs with
  | [] => some []
  | c :: cs =>
    match h : first c cs with
    | none => none
    | some (ls, rest) =>
      have : rest.length ≤ cs.length := first_length h
      (lexemes rest).map (ls ++ ·)
termination_by cs.length

@[simp] theorem lexemes_nil : lexemes [] = some [] := by
  rw [lexemes]

theorem lexemes_cons {c : Char} {cs rest : List Char} {ls : List Lexeme}
    (h : first c cs = some (ls, rest)) :
    lexemes (c :: cs) = (lexemes rest).map (ls ++ ·) := by
  rw [lexemes]
  split
  · next h' => cases h.symm.trans h'
  · next h' =>
    cases h.symm.trans h'
    rfl

end VnScript.Cpp
