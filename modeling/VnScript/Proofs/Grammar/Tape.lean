import VnScript.Grammar.Declaration
import VnScript.Proofs.Token.Spelling

namespace VnScript

structure Word where
  kind : TokenKind
  lexeme : String
  deriving DecidableEq

def Token.word (t : Token) : Word := ⟨t.kind, t.lexeme⟩

namespace Word

def sym (k : TokenKind) : Word := ⟨k, k.text?.getD ""⟩

def key (k : Keyword) : Word := sym (.keyword k)

def ofName (name : String) : Word :=
  match Keyword.lookup? name with
  | some k => ⟨.keyword k, name⟩
  | none => ⟨.identifier, name⟩

def Spelled (w : Word) : Prop := ∃ text, Spelling w.kind w.lexeme.toList text

variable {w : Word}

theorem Spelled.eq_sym (h : w.Spelled) {k : TokenKind} (hk : w.kind = k) (ht : k.text?.isSome) :
    w = sym k := by
  obtain ⟨kind, lexeme⟩ := w
  obtain rfl : kind = k := hk
  obtain ⟨text, hs⟩ := h
  obtain ⟨s, hs'⟩ := Option.isSome_iff_exists.1 ht
  have hl := hs.fixed_text hs'
  rw [String.toList_inj] at hl
  rw [sym, hs', Option.getD_some]
  exact congrArg _ hl

theorem Spelled.eq_key (h : w.Spelled) {k : Keyword} (hk : w.kind = .keyword k) : w = key k :=
  h.eq_sym hk rfl

theorem key_eq_ofName (k : Keyword) : key k = ofName k.text := by
  rw [ofName, Keyword.lookup?_eq_some_iff.2 rfl]
  rfl

theorem ofName_identifier {name : String} (h : IsIdentifier name.toList) :
    ofName name = ⟨.identifier, name⟩ := by
  have hl := h.2
  rw [String.ofList_toList] at hl
  rw [ofName, hl]

theorem Spelled.identifier (h : w.Spelled) (hk : w.kind = .identifier) :
    IsIdentifier w.lexeme.toList ∧ w = ofName w.lexeme := by
  obtain ⟨kind, lexeme⟩ := w
  obtain rfl : kind = .identifier := hk
  obtain ⟨text, hs⟩ := h
  have hi := hs.identifier_word
  exact ⟨hi, (ofName_identifier hi).symm⟩

end Word

/-- A place among tokens that have all been read beforehand. -/
structure Tape where
  current : Token
  pending : List Token
  ending : Except LexError Token

namespace Tape

def next (t : Tape) : Except LexError Tape :=
  match t.pending with
  | token :: rest => .ok ⟨token, rest, t.ending⟩
  | [] => t.ending.map fun token => ⟨token, [], t.ending⟩

def peek (t : Tape) : Except LexError (TokenKind × Tape) := t.next.map fun t' => (t'.current.kind, t)

instance : TokenStream Tape := ⟨current, next, peek⟩

def ofScan (scan : Scan) : Except LexError Tape :=
  match scan.tokens with
  | token :: rest => .ok ⟨token, rest, scan.ending⟩
  | [] => scan.ending.map fun token => ⟨token, [], scan.ending⟩

theorem ofScan_eq_next (scan : Scan) (token : Token) :
    ofScan scan = next ⟨token, scan.tokens, scan.ending⟩ := rfl

theorem next_eq_ok {t t' : Tape} (h : t.next = .ok t') :
    (∃ token rest, t.pending = token :: rest ∧ t' = ⟨token, rest, t.ending⟩) ∨
      ∃ token, t.pending = [] ∧ t.ending = .ok token ∧ t' = ⟨token, [], t.ending⟩ := by
  obtain ⟨current, pending, ending⟩ := t
  unfold next at h
  cases pending with
  | cons token rest => exact Or.inl ⟨token, rest, rfl, (Except.ok.inj h).symm⟩
  | nil =>
    cases ending with
    | error e => cases h
    | ok token => exact Or.inr ⟨token, rfl, rfl, (Except.ok.inj h).symm⟩

theorem next_error {t : Tape} {e : LexError} (h : t.next = .error e) : t.ending = .error e := by
  obtain ⟨current, pending, ending⟩ := t
  unfold next at h
  cases pending with
  | cons token rest => cases h
  | nil =>
    cases ending with
    | error e' => exact congrArg Except.error (Except.error.inj h)
    | ok token => cases h

def words (t : Tape) : List Word :=
  ((t.current :: t.pending).takeWhile (·.kind ≠ .endOfFile)).map Token.word

/-- Only the end of a text ends the tokens that the lexer reads. -/
structure Lexed (t : Tape) : Prop where
  current : t.ending = .ok t.current ∨ t.current.word.Spelled
  pending : ∀ token ∈ t.pending, token.word.Spelled
  ending : ∀ token, t.ending = .ok token → token.kind = .endOfFile

end Tape

namespace Scan

def parse (scan : Scan) : Except ParseError Program :=
  match Tape.ofScan scan with
  | .error e => .error (.lexical e)
  | .ok tape => ((Grammar.program scan.tokens.length).run tape).map Prod.fst

theorem parse_of_ofScan {scan : Scan} {tape : Tape} (h : Tape.ofScan scan = .ok tape) :
    scan.parse = ((Grammar.program scan.tokens.length).run tape).map Prod.fst := by
  unfold parse
  rw [h]

theorem parse_eq_ok {scan : Scan} {p : Program} (h : scan.parse = .ok p) :
    ∃ tape tape', Tape.ofScan scan = .ok tape ∧
      Grammar.program scan.tokens.length tape = .ok (p, tape') := by
  cases ht : Tape.ofScan scan with
  | error e =>
    unfold parse at h
    rw [ht] at h
    cases h
  | ok tape =>
    rw [parse_of_ofScan ht, StateT.run] at h
    cases hp : Grammar.program scan.tokens.length tape with
    | error e =>
      rw [hp] at h
      cases h
    | ok x =>
      rw [hp] at h
      obtain rfl := Except.ok.inj h
      exact ⟨tape, x.2, rfl, hp⟩

def words (scan : Scan) : List Word := scan.tokens.map Token.word

structure Lexed (scan : Scan) : Prop where
  tokens : ∀ token ∈ scan.tokens, token.word.Spelled
  ending : ∀ token, scan.ending = .ok token → token.kind = .endOfFile

end Scan

end VnScript
