import VnScript.Proofs.Grammar.Completeness
import VnScript.Proofs.Grammar.Lookahead
import VnScript.Proofs.Token.Relexing

namespace VnScript

open Grammar Word

def AllSpelled (ws : List Word) : Prop := ∀ w ∈ ws, w.Spelled

namespace AllSpelled

variable {w : Word} {ws ws' : List Word}

@[simp] theorem nil : AllSpelled [] := nofun

@[simp] theorem cons_iff : AllSpelled (w :: ws) ↔ w.Spelled ∧ AllSpelled ws := List.forall_mem_cons

@[simp] theorem append_iff : AllSpelled (ws ++ ws') ↔ AllSpelled ws ∧ AllSpelled ws' :=
  List.forall_mem_append

end AllSpelled

namespace Word

variable {w : Word} {name : String}

theorem spelled_sym {k : TokenKind} (h : k.text?.isSome) : (sym k).Spelled := by
  obtain ⟨text, ht⟩ := Option.isSome_iff_exists.1 h
  refine ⟨text.toList, ?_⟩
  rw [sym, ht]
  exact .fixed ht

@[simp] theorem spelled_key (k : Keyword) : (key k).Spelled := spelled_sym rfl

theorem spelled_ofName (h : IsWord name.toList) : (ofName name).Spelled := by
  cases hk : Keyword.lookup? name with
  | some k =>
    obtain rfl := Keyword.lookup?_eq_some_iff.1 hk
    rw [← key_eq_ofName]
    exact spelled_key k
  | none =>
    have hi : IsIdentifier name.toList := ⟨h, by rwa [String.ofList_toList]⟩
    rw [ofName_identifier hi]
    exact ⟨_, .identifier hi⟩

theorem spelled_ofName_of_isName (h : IsName name) : (ofName name).Spelled := spelled_ofName h.1

theorem spelled_ofName_of_isUsable (h : IsUsable name) : (ofName name).Spelled := by
  obtain h | rfl := h
  · exact spelled_ofName_of_isName h
  · exact spelled_key .instanceWord

theorem spelled_variableType {k : TokenKind} {type : VariableType}
    (h : variableType? k = some type) : (sym k).Spelled := by
  unfold variableType? at h
  split at h
  · exact spelled_key _
  · exact spelled_key _
  · exact spelled_key _
  · cases h

end Word

section Phrases

variable {ws : List Word}

theorem ExprPhrase.allSpelled {node : ExprNode} (h : ExprPhrase ws node) : AllSpelled ws := by
  induction h with
  | member hm | spaceMember hm => simp (disch := decide) [spelled_ofName hm, spelled_sym]
  | memberCall hm h ih | spaceCall hm h ih =>
    simp (disch := decide) [spelled_ofName hm, spelled_sym, ih]
  | literal hs hl => simp [hs]
  | named hn h ih => simp [spelled_ofName_of_isUsable hn, ih]
  | create ht h ih => simp [spelled_ofName_of_isName ht, ih]
  | createIn hs ht h ih =>
    simp (disch := decide) [spelled_ofName_of_isName hs, spelled_ofName_of_isName ht, spelled_sym,
      ih]
  | classCall hm h ih => simp (disch := decide) [spelled_ofName hm, spelled_sym, ih]
  | operation h hw ho h' ih ih' | assign h hw ho h' ih ih' | assignMember h hw ho h' ih ih' =>
    simp [ih, ih', hw]
  | lastItem h ih | operand h ih | tighter h ih | value h ih | freeCall h ih => exact ih
  | alone | true | false => simp
  | noArguments => simp (disch := decide) [spelled_sym]
  | arguments h ih => simp (disch := decide) [spelled_sym, ih]
  | item h rest ih ih' => simp (disch := decide) [spelled_sym, ih, ih']

theorem ValuePhrase.allSpelled {e : Option Expr} (h : ValuePhrase ws e) : AllSpelled ws := by
  cases h with
  | none => exact .nil
  | some h => simp (disch := decide) [spelled_sym, h.allSpelled]

theorem StmtPhrase.allSpelled {node : StmtNode} (h : StmtPhrase ws node) : AllSpelled ws := by
  induction h with
  | nil | noFurther | noCases => exact .nil
  | cons h rest ih ih' => simp [ih, ih']
  | block h ih => simp (disch := decide) [spelled_sym, ih]
  | clause he hb ih => simp (disch := decide) [spelled_sym, he.allSpelled, ih]
  | elseIf h rest ih ih' | elseThenIf h rest ih ih' | conditional h rest ih ih' => simp [ih, ih']
  | orElse h ih | whileLoop h ih => simp [ih]
  | declareInitial ht hn hv =>
    simp [spelled_variableType ht, spelled_ofName_of_isName hn, hv.allSpelled]
  | declare ht hn hv =>
    simp (disch := decide) [spelled_variableType ht, spelled_ofName_of_isName hn, hv.allSpelled,
      spelled_sym]
  | assignInitial hw he ha => exact he.allSpelled
  | caseComment hs hw rest ih => simp [hs, ih]
  | case he hb rest ih ih' => simp [he.allSpelled, ih, ih']
  | comment hs hw => simp [hs]
  | expr he | retValue he => simp (disch := decide) [spelled_sym, he.allSpelled]
  | ret => simp (disch := decide) [spelled_sym]
  | forLoop hi he hs hb ih ih' =>
    simp (disch := decide) [spelled_sym, he.allSpelled, hs.allSpelled, ih, ih']
  | forIn hn he hb ih =>
    simp (disch := decide) [spelled_sym, spelled_ofName_of_isName hn, he.allSpelled, ih]
  | typedForIn ht hn he hb ih =>
    simp (disch := decide) [spelled_sym, spelled_variableType ht, spelled_ofName_of_isName hn,
      he.allSpelled, ih]
  | doWhile hb he ht ih =>
    obtain rfl | rfl := ht <;> simp (disch := decide) [spelled_sym, he.allSpelled, ih]
  | switch he hc ih => simp (disch := decide) [spelled_sym, he.allSpelled, ih]
  | attempt hb ht hn hh ih ih' =>
    simp (disch := decide) [spelled_sym, spelled_ofName_of_isName ht, spelled_ofName_of_isName hn,
      ih, ih']

theorem ParameterPhrase.allSpelled {p : Parameter} (h : ParameterPhrase ws p) : AllSpelled ws := by
  cases h with
  | untyped hn | auto hn | typed hn => simp [spelled_ofName_of_isUsable hn]

theorem Separated.allSpelled {α : Type} {P : List Word → α → Prop} {as : List α}
    (h : Separated P ws as) (hP : ∀ ws a, P ws a → AllSpelled ws) : AllSpelled ws := by
  induction h with
  | last h => exact hP _ _ h
  | cons h rest ih => simp (disch := decide) [hP _ _ h, spelled_sym, ih]

theorem SignaturePhrase.allSpelled {ps : List Parameter} {b : List Stmt}
    (h : SignaturePhrase ws ps b) : AllSpelled ws := by
  cases h with
  | mk hp hb =>
    refine AllSpelled.append_iff.2 ⟨?_, hb.allSpelled⟩
    cases hp with
    | empty => simp (disch := decide) [spelled_sym]
    | items h =>
      simp (disch := decide) [spelled_sym, h.allSpelled fun _ _ => ParameterPhrase.allSpelled]

theorem MemberPhrase.allSpelled {m : Member} (h : MemberPhrase ws m) : AllSpelled ws := by
  cases h with
  | initializer h => simp (disch := decide) [spelled_sym, h.allSpelled]
  | instanceMethod hn h | classMethod hn h =>
    simp (disch := decide) [spelled_sym, spelled_ofName_of_isName hn, h.allSpelled]

theorem Commented.allSpelled {α : Type} {P : List Word → α → Prop} {as : List α}
    (h : Commented P ws as) (hP : ∀ ws a, P ws a → AllSpelled ws) : AllSpelled ws := by
  induction h with
  | nil => exact .nil
  | comment hs hw rest ih => simp [hs, ih]
  | cons h rest ih => simp [hP _ _ h, ih]

theorem ClassPhrase.allSpelled {c : ClassDecl} (h : ClassPhrase ws c) : AllSpelled ws := by
  cases h with
  | mk hn hb hm =>
    have hms := hm.allSpelled fun _ _ => MemberPhrase.allSpelled
    cases hb with
    | none => simp (disch := decide) [spelled_sym, spelled_ofName_of_isName hn, hms]
    | some hb =>
      simp (disch := decide) [spelled_sym, spelled_ofName_of_isName hn,
        spelled_ofName_of_isName hb, hms]

theorem PartsPhrase.allSpelled {rest : String} (h : PartsPhrase ws rest) : AllSpelled ws := by
  induction h with
  | nil => exact .nil
  | cons hn h ih => simp (disch := decide) [spelled_sym, spelled_ofName_of_isName hn, ih]

theorem DeclPhrase.allSpelled {node : DeclNode} (h : DeclPhrase ws node) : AllSpelled ws := by
  induction h with
  | nil => exact .nil
  | comment hs hw rest ih => simp [hs, ih]
  | cons h rest ih ih' => simp [ih, ih']
  | function hn h => simp [spelled_ofName_of_isName hn, h.allSpelled]
  | namespaceDecl hn h ih =>
    simp (disch := decide) [spelled_sym, spelled_ofName_of_isName hn, ih]
  | classDecl h => exact h.allSpelled
  | importDecl hn h =>
    simp (disch := decide) [spelled_sym, spelled_ofName_of_isName hn, h.allSpelled]

end Phrases

/-- A text that spells a token, the floating-point numbers with their suffix. -/
def TokenKind.spell (kind : TokenKind) (lexeme : List Char) : List Char :=
  match kind with
  | .comment => '|' :: lexeme
  | .string => '"' :: lexeme ++ ['"']
  | .char => '\x27' :: lexeme ++ ['\x27']
  | .float => lexeme ++ ['f']
  | .double => lexeme ++ ['d']
  | _ => lexeme

theorem Spelling.spell {kind : TokenKind} {lexeme text : List Char}
    (h : Spelling kind lexeme text) : Spelling kind lexeme (kind.spell lexeme) := by
  cases h with
  | fixed h =>
    cases kind with
    | identifier | comment | string | char | integer | float | double | endOfFile => cases h
    | _ => exact .fixed h
  | identifier h => exact .identifier h
  | comment h => exact .comment h
  | string h => exact .string h
  | char h => exact .char h
  | integer h => exact .integer h
  | double h => exact .suffixedDouble (Or.inr h) (Or.inl rfl)
  | float h hs => exact .float h (Or.inl rfl)
  | suffixedDouble h hs => exact .suffixedDouble h (Or.inl rfl)

def Word.text (w : Word) : List Char := w.kind.spell w.lexeme.toList

theorem Word.Spelled.spelling {w : Word} (h : w.Spelled) :
    Spelling w.kind w.lexeme.toList w.text := h.choose_spec.spell

theorem intercalate_cons {α : Type} (x : α) (xs : List α) (rest : List (List α)) :
    [x].intercalate (xs :: rest) = xs ++ rest.flatMap (x :: ·) := by
  induction rest generalizing xs with
  | nil => simp
  | cons ys rest ih => rw [List.intercalate_cons_cons, ih, List.flatMap_cons]; simp

/-- Words one after another, each on a line of its own. -/
def render (ws : List Word) : String :=
  String.ofList (['\n'].intercalate (ws.map Word.text))

/-- Words behind another one, each behind a line end. -/
def onLines (ws : List Word) : List Char := ws.flatMap fun w => '\n' :: w.text

theorem breaks_onLines (ws : List Word) : Breaks (onLines ws) := by
  cases ws with
  | nil => exact nofun
  | cons w ws => exact fun c hc => (Option.some.inj hc).symm

theorem render_cons (w : Word) (ws : List Word) :
    (render (w :: ws)).toList = w.text ++ onLines ws := by
  rw [render, String.toList_ofList, List.map_cons, intercalate_cons, List.flatMap_map, onLines]

structure Scan.Gives (scan : Scan) (ws : List Word) : Prop where
  words : scan.words = ws
  ending : ∃ token, scan.ending = .ok token ∧ token.word = Word.ending

/-- A text of words: behind blanks each is spelled somehow, before a line end or the end of the
text. -/
inductive Spaced : List Word → List Char → Prop
  | nil {gap : List Char} (blank : ∀ c ∈ gap, Text.isBlank c) : Spaced [] gap
  | cons {w : Word} {ws : List Word} {gap text rest : List Char} (blank : ∀ c ∈ gap, Text.isBlank c)
      (spelling : Spelling w.kind w.lexeme.toList text) (breaks : Breaks rest)
      (h : Spaced ws rest) : Spaced (w :: ws) (gap ++ text ++ rest)

namespace Spaced

variable {ws : List Word} {text : List Char}

theorem behind (h : Spaced ws text) {gap : List Char} (blank : ∀ c ∈ gap, Text.isBlank c) :
    Spaced ws (gap ++ text) := by
  cases h with
  | nil h => exact .nil (List.forall_mem_append.2 ⟨blank, h⟩)
  | cons h spelling breaks rest =>
    rw [← List.append_assoc, ← List.append_assoc]
    exact .cons (List.forall_mem_append.2 ⟨blank, h⟩) spelling breaks rest

theorem scan {l : Lexer} (h : Spaced ws l.rest) : l.scan.Gives ws := by
  generalize hl : l.rest = text at h
  induction h generalizing l with
  | @nil gap blank =>
    have hskip : l.skipBlanks.rest = [] := by
      rw [Lexer.skipBlanks, hl]
      exact List.dropWhile_eq_nil_iff.2 blank
    have hn : l.next = (.ok l.skipBlanks.endToken, l.skipBlanks) := by
      rw [Lexer.next, hskip]
    rw [Lexer.scan_ending hn rfl]
    exact ⟨rfl, _, rfl, rfl⟩
  | @cons w ws gap text rest blank spelling breaks h ih =>
    obtain ⟨t, l', hn, hk, ht, hr⟩ := Lexer.next_of_spelling hl blank spelling breaks
    obtain ⟨hws, hend⟩ := ih hr
    have hkind : t.kind ≠ .endOfFile := hk ▸ spelling.kind_ne_endOfFile
    have htw : t.word = w := by
      rw [String.ofList_toList] at ht
      rw [Token.word, hk, ht]
    rw [Lexer.scan_token hn hkind]
    exact ⟨congrArg₂ List.cons htw hws, hend⟩

theorem onLines (h : AllSpelled ws) : Spaced ws (onLines ws) := by
  induction ws with
  | nil => exact .nil nofun
  | cons w ws ih =>
    obtain ⟨hw, hws⟩ := AllSpelled.cons_iff.1 h
    have hgap : ∀ c ∈ ['\n'], Text.isBlank c := List.forall_mem_singleton.2 rfl
    exact .cons hgap hw.spelling (breaks_onLines ws) (ih hws)

theorem render (h : AllSpelled ws) : Spaced ws (render ws).toList := by
  cases ws with
  | nil => exact .nil nofun
  | cons w ws =>
    obtain ⟨hw, hws⟩ := AllSpelled.cons_iff.1 h
    have hgap : ∀ c ∈ ([] : List Char), Text.isBlank c := nofun
    rw [render_cons]
    exact .cons hgap hw.spelling (breaks_onLines ws) (onLines hws)

end Spaced

theorem Scan.gives_render {ws : List Word} (h : AllSpelled ws) :
    (Scan.ofString (render ws)).Gives ws :=
  Spaced.scan (l := Lexer.ofString (render ws)) (Spaced.render h)

structure Tape.Holds (t : Tape) (ws : List Word) : Prop where
  current : t.current.word = front ws
  pending : t.pending.map Token.word = ws.tail
  ending : ∃ token, t.ending = .ok token ∧ token.word = Word.ending

namespace Tape

variable {t : Tape} {ws : List Word}

theorem Holds.next (h : t.Holds ws) : ∃ t', t.next = .ok t' ∧ t'.Holds ws.tail := by
  obtain ⟨current, pending, ending⟩ := t
  obtain ⟨-, hp, hend⟩ := h
  simp only at hp hend
  cases pending with
  | cons token rest =>
    rw [← hp]
    exact ⟨_, rfl, rfl, rfl, hend⟩
  | nil =>
    rw [← hp]
    obtain ⟨token, rfl, ht⟩ := hend
    exact ⟨_, rfl, ht, rfl, token, rfl, ht⟩

/-- Places apart, a tape goes along with the words that it holds. -/
def holding : Simulation Tape (List Word) where
  states := Holds
  places _ _ := True
  errors _ _ := False
  current_similar {t ws} h := ⟨congrArg Word.kind h.current, congrArg Word.lexeme h.current, trivial⟩
  next_related {t ws} h := by
    obtain ⟨t', ht, hs⟩ := h.next
    change Except.Related _ _ t.next _
    rw [ht]
    exact .ok hs
  peek_related {t ws} h := by
    obtain ⟨t', ht, hs⟩ := h.next
    change Except.Related _ _ (t.next.map _) _
    rw [ht]
    exact .ok ⟨congrArg Word.kind hs.current, h⟩

theorem holds_ofScan {scan : Scan} (h : scan.Gives ws) :
    ∃ t, ofScan scan = .ok t ∧ t.Holds ws := by
  obtain ⟨token, ht, hw⟩ := h.ending
  have hs : Holds ⟨token, scan.tokens, scan.ending⟩ (Word.ending :: ws) :=
    ⟨hw, h.words, token, ht, hw⟩
  exact hs.next

end Tape

theorem Scan.Gives.parse {scan : Scan} {ws : List Word} {p : Program} (h : scan.Gives ws)
    (hp : p.Phrase ws) : scan.parse = .ok p := by
  obtain ⟨t, ht, hs⟩ := Tape.holds_ofScan h
  have hlen : scan.tokens.length = ws.length := by
    rw [← h.words, Scan.words, List.length_map]
  have hr := Simulation.program_same (S := Tape.holding) scan.tokens.length t ws hs
  have hruns : program scan.tokens.length ws = .ok (p, []) := hp.runs (Nat.le_of_eq hlen.symm)
  rw [hruns] at hr
  unfold Scan.parse
  rw [ht]
  simp only [StateT.run]
  generalize program _ t = x at hr ⊢
  cases hr with
  | ok h => exact congrArg Except.ok h.1

/-- The words of a program, written one to a line, are read as that program. -/
theorem parse_render {ws : List Word} {p : Program} (h : p.Phrase ws) :
    parse (render ws) = .ok p := by
  rw [parse_eq]
  exact (Scan.gives_render (DeclPhrase.allSpelled h)).parse h

end VnScript
