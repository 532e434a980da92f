import VnScript.Proofs.Token.Scanning

namespace VnScript

open String (utf8Len)

/-- A token lies in a text: `before` is read, `gap` is skipped, `text` spells the token and
`after` is left. -/
structure Token.Lies (t : Token) (source before gap text after : List Char) : Prop where
  source_eq : source = before ++ gap ++ text ++ after
  blank : ∀ c ∈ gap, Text.isBlank c
  start_eq : t.start.offset = utf8Len (before ++ gap)
  stop_eq : t.stop = utf8Len (before ++ gap ++ text)
  line_eq : t.start.line = 1 + (before ++ gap).count '\n'
  column_eq : t.start.column = 1 + ((before ++ gap).reverse.takeWhile (· ≠ '\n')).length
  spelling : Spelling t.kind t.lexeme.toList text ∨
    t.kind = .endOfFile ∧ t.lexeme = "" ∧ text = [] ∧ after = []
  comment : t.kind = .comment → after.head? ∈ [none, some '\n', some '}']

/-- The token is one of those before the ending, or the ending itself. -/
def Scan.Has (scan : Scan) (t : Token) : Prop := t ∈ scan.tokens ∨ scan.ending = .ok t

/-- Tokens lie in a text one behind the other, from where `before` ends to the end of the text. -/
inductive Layout (source : List Char) : List Char → List Token → Prop
  | ending {before gap : List Char} {t : Token} (lies : t.Lies source before gap [] [])
      (kind : t.kind = .endOfFile) : Layout source before [t]
  | token {before gap text after : List Char} {t : Token} {ts : List Token}
      (lies : t.Lies source before gap text after) (kind : t.kind ≠ .endOfFile)
      (rest : Layout source (before ++ gap ++ text) ts) : Layout source before (t :: ts)

namespace Lexer

structure At (l : Lexer) (source before : List Char) : Prop where
  source_eq : source = before ++ l.rest
  position_eq : l.position = Position.start.afterAll before

variable {l l' : Lexer} {source before : List Char} {t : Token}

theorem At.afterAll (h : l.At source before) (text : List Char) :
    l.position.afterAll text = Position.start.afterAll (before ++ text) := by
  rw [h.position_eq, Position.afterAll_append]

theorem lies_of_place {kind : TokenKind} {gap text after lexeme : List Char}
    (source_eq : source = before ++ gap ++ text ++ after) (blank : ∀ c ∈ gap, Text.isBlank c)
    (spelling : Spelling kind lexeme text ∨
      kind = .endOfFile ∧ lexeme = [] ∧ text = [] ∧ after = [])
    (comment : kind = .comment → after.head? ∈ [none, some '\n', some '}']) :
    Token.Lies ⟨kind, String.ofList lexeme, Position.start.afterAll (before ++ gap),
      (Position.start.afterAll (before ++ gap ++ text)).offset⟩ source before gap text after where
  source_eq := source_eq
  blank := blank
  start_eq := by simp [Position.offset_afterAll, Position.start]
  stop_eq := by simp [Position.offset_afterAll, Position.start]
  line_eq := by simp [Position.line_afterAll, Position.start]
  column_eq := Position.column_afterAll_start _
  spelling := by
    rw [String.toList_ofList]
    exact spelling.imp_right fun ⟨hk, hl, h⟩ => ⟨hk, by rw [hl, String.ofList_nil], h⟩
  comment := comment

theorem Step.lies (h : Step l (.ok t) l') (hat : l.At source before) :
    ∃ gap text, t.Lies source before gap text l'.rest ∧ l'.At source (before ++ gap ++ text) := by
  cases h with
  | @ending gap rest_eq blank =>
    have hsource : source = before ++ gap := by rw [hat.source_eq, rest_eq]
    have hpos := hat.afterAll gap
    refine ⟨gap, [], ?_, by simpa using hsource, by simpa using hpos⟩
    have hend : TokenKind.endOfFile = .endOfFile ∧ ([] : List Char) = [] ∧ ([] : List Char) = [] ∧
        ([] : List Char) = [] := ⟨rfl, rfl, rfl, rfl⟩
    have hlies := lies_of_place (by simpa using hsource) blank (Or.inr hend) nofun
    rw [endToken, hpos]
    simpa using hlies
  | @token gap text rest lexeme kind rest_eq blank spelling comment =>
    have hsource : source = before ++ gap ++ text ++ rest := by
      rw [hat.source_eq, rest_eq]
      simp
    have hpos := hat.afterAll (gap ++ text)
    rw [← List.append_assoc] at hpos
    refine ⟨gap, text, ?_, hsource, hpos⟩
    rw [hat.afterAll gap, hpos]
    exact lies_of_place hsource blank (Or.inl spelling) comment

theorem layout_of_scan (hat : l.At source before) (h : l.scan.ending = .ok t) :
    Layout source before (l.scan.tokens ++ [t]) := by
  induction l using scan_induction generalizing before with
  | fault l l' e hx hscan =>
    rw [hscan] at h
    cases h
  | ending l l' u hx hk hscan =>
    obtain ⟨gap, text, hlies, -⟩ := (step_of_next hx).lies hat
    rw [hscan] at h ⊢
    obtain rfl : u = t := Except.ok.inj h
    obtain hsp | ⟨-, -, rfl, hafter⟩ := hlies.spelling
    · exact absurd hk hsp.kind_ne_endOfFile
    · rw [hafter] at hlies
      exact .ending hlies hk
  | token l l' u hx hk hscan ih =>
    obtain ⟨gap, text, hlies, hat'⟩ := (step_of_next hx).lies hat
    rw [hscan] at h ⊢
    exact .token hlies hk (ih hat' h)

theorem at_ofString (source : String) : (ofString source).At source.toList [] := ⟨rfl, rfl⟩

end Lexer

theorem tokenize_eq (source : String) :
    tokenize source = (Lexer.ofString source).scan.ending.map fun ending =>
      (Lexer.ofString source).scan.tokens ++ [ending] := rfl

theorem layout_of_tokenize {source : String} {tokens : List Token}
    (h : tokenize source = .ok tokens) : Layout source.toList [] tokens := by
  rw [tokenize_eq] at h
  cases he : (Lexer.ofString source).scan.ending with
  | error e =>
    rw [he] at h
    cases h
  | ok ending =>
    rw [he] at h
    obtain rfl := Except.ok.inj h
    exact Lexer.layout_of_scan (Lexer.at_ofString source) he

namespace Layout

variable {source before : List Char} {tokens : List Token} {previous : Nat}

theorem start_ge (h : Layout source before tokens) : ∀ t ∈ tokens, utf8Len before ≤ t.start.offset := by
  induction h with
  | ending lies kind =>
    intro t ht
    obtain rfl := List.mem_singleton.1 ht
    rw [lies.start_eq, String.utf8Len_append]
    omega
  | token lies kind rest ih =>
    intro t ht
    obtain rfl | ht := List.mem_cons.1 ht
    · rw [lies.start_eq, String.utf8Len_append]
      omega
    · have hle := ih t ht
      simp only [String.utf8Len_append] at hle
      omega

theorem pairwise (h : Layout source before tokens) :
    tokens.Pairwise fun t u => t.stop ≤ u.start.offset := by
  induction h with
  | ending => exact List.pairwise_singleton _ _
  | token lies kind rest ih =>
    refine List.pairwise_cons.2 ⟨fun u hu => ?_, ih⟩
    rw [lies.stop_eq]
    exact rest.start_ge u hu

theorem ends (h : Layout source before tokens) :
    ∃ ts t, tokens = ts ++ [t] ∧ t.kind = .endOfFile ∧ t.lexeme = "" ∧
      t.start.offset = utf8Len source ∧ t.stop = utf8Len source ∧ ∀ u ∈ ts, u.kind ≠ .endOfFile := by
  induction h with
  | @ending before gap t lies kind =>
    obtain hs | ⟨-, hl, -, -⟩ := lies.spelling
    · exact absurd kind hs.kind_ne_endOfFile
    · have hsource : source = before ++ gap := by simpa using lies.source_eq
      refine ⟨[], t, rfl, kind, hl, ?_, ?_, by simp⟩
      · rw [lies.start_eq, hsource]
      · rw [lies.stop_eq, hsource, List.append_nil]
  | @token before gap text after t rest lies kind hrest ih =>
    obtain ⟨ts, u, rfl, hu⟩ := ih
    obtain ⟨hk, hl, hstart, hstop, hts⟩ := hu
    refine ⟨t :: ts, u, rfl, hk, hl, hstart, hstop, ?_⟩
    exact List.forall_mem_cons.2 ⟨kind, hts⟩

theorem lies (h : Layout source before tokens) {ts ts' : List Token} {t : Token}
    (ht : tokens = ts ++ t :: ts') : ∃ before' gap text after,
      t.Lies source before' gap text after ∧
        utf8Len before' = (ts.getLast?.map Token.stop).getD (utf8Len before) := by
  induction h generalizing ts with
  | @ending before gap u lies kind =>
    cases ts with
    | nil =>
      obtain ⟨rfl, -⟩ := List.cons.inj ht
      exact ⟨before, gap, [], [], lies, rfl⟩
    | cons v ts => simp at ht
  | @token before gap text after u rest lies kind hrest ih =>
    cases ts with
    | nil =>
      obtain ⟨rfl, -⟩ := List.cons.inj ht
      exact ⟨before, gap, text, after, lies, rfl⟩
    | cons v ts =>
      obtain ⟨rfl, htail⟩ := List.cons.inj ht
      obtain ⟨before', gap', text', after', hlies, hb⟩ := ih htail
      refine ⟨before', gap', text', after', hlies, ?_⟩
      rw [hb, List.getLast?_cons]
      cases ts.getLast? <;> simp [lies.stop_eq]

end Layout

/-- Lexing is lossless. Every token lies in the text right behind the one before it but for
blanks, in the place that it names, and the last one is the end of the text. -/
theorem tokenize_lossless (source : String) (tokens : List Token)
    (h : tokenize source = .ok tokens) :
    (∀ ts t ts', tokens = ts ++ t :: ts' → ∃ before gap text after,
      t.Lies source.toList before gap text after ∧
        utf8Len before = (ts.getLast?.map Token.stop).getD 0) ∧
    tokens.Pairwise (fun t u => t.stop ≤ u.start.offset) ∧
    ∃ ts t, tokens = ts ++ [t] ∧ t.kind = .endOfFile ∧ t.lexeme = "" ∧
      t.start.offset = source.utf8ByteSize ∧ t.stop = source.utf8ByteSize ∧
      ∀ u ∈ ts, u.kind ≠ .endOfFile := by
  have hlayout := layout_of_tokenize h
  refine ⟨fun ts t ts' ht => hlayout.lies ht, hlayout.pairwise, ?_⟩
  have hends := hlayout.ends
  rw [← String.utf8ByteSize_ofList, String.ofList_toList] at hends
  exact hends

theorem tokenize_lossless_number :
    tokenize "\"é\"\n |x\x7d1.5f" = .ok
      [⟨.string, "é", ⟨⟨1, 1⟩, 0⟩, 4⟩, ⟨.comment, "x", ⟨⟨2, 2⟩, 6⟩, 8⟩,
        ⟨.rightBrace, "\x7d", ⟨⟨2, 4⟩, 8⟩, 9⟩, ⟨.float, "1.5", ⟨⟨2, 5⟩, 9⟩, 13⟩,
        ⟨.endOfFile, "", ⟨⟨2, 9⟩, 13⟩, 13⟩] ∧
      ∃ before gap text after, Token.Lies ⟨.float, "1.5", ⟨⟨2, 5⟩, 9⟩, 13⟩
        "\"é\"\n |x\x7d1.5f".toList before gap text after ∧ utf8Len before = 9 := by
  have h : tokenize "\"é\"\n |x\x7d1.5f" = .ok
      [⟨.string, "é", ⟨⟨1, 1⟩, 0⟩, 4⟩, ⟨.comment, "x", ⟨⟨2, 2⟩, 6⟩, 8⟩,
        ⟨.rightBrace, "\x7d", ⟨⟨2, 4⟩, 8⟩, 9⟩, ⟨.float, "1.5", ⟨⟨2, 5⟩, 9⟩, 13⟩,
        ⟨.endOfFile, "", ⟨⟨2, 9⟩, 13⟩, 13⟩] := by decide +kernel
  exact ⟨h, (tokenize_lossless _ _ h).1
    [⟨.string, "é", ⟨⟨1, 1⟩, 0⟩, 4⟩, ⟨.comment, "x", ⟨⟨2, 2⟩, 6⟩, 8⟩,
      ⟨.rightBrace, "\x7d", ⟨⟨2, 4⟩, 8⟩, 9⟩] _ [⟨.endOfFile, "", ⟨⟨2, 9⟩, 13⟩, 13⟩] rfl⟩

end VnScript
