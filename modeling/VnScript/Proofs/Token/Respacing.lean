import VnScript.Proofs.Grammar.Rendering

namespace VnScript

open String (utf8Len)

/-- The text from where a token starts to where it stops. -/
def Token.cut (source : String) (t : Token) : List Char :=
  (String.Pos.Raw.extract source ⟨t.start.offset⟩ ⟨t.stop⟩).toList

/-- The texts of the tokens before the end of the text. -/
def pieces (source : String) (tokens : List Token) : List (List Char) :=
  (tokens.filter (·.kind ≠ .endOfFile)).map (Token.cut source)

/-- A line end with any blanks behind it. -/
def IsSeparator (gap : List Char) : Prop := gap.head? = some '\n' ∧ ∀ c ∈ gap, Text.isBlank c

inductive Joined : List (List Char) → List Char → Prop
  | nil : Joined [] []
  | last (piece : List Char) : Joined [piece] piece
  | cons (piece : List Char) {next gap text : List Char} {pieces : List (List Char)}
      (hgap : IsSeparator gap) (h : Joined (next :: pieces) text) :
    Joined (piece :: next :: pieces) (piece ++ gap ++ text)

theorem Token.Lies.cut_eq {source : String} {t : Token} {before gap text after : List Char}
    (h : t.Lies source.toList before gap text after) : t.cut source = text := by
  have hsource : source = String.ofList (before ++ gap ++ text ++ after) := by
    rw [← h.source_eq, String.ofList_toList]
  rw [Token.cut, h.start_eq, h.stop_eq, String.utf8Len_append (before ++ gap), hsource,
    String.extract_of_valid, String.toList_ofList]

theorem IsSeparator.breaks {gap : List Char} (h : IsSeparator gap) (text : List Char) :
    Breaks (gap ++ text) := by
  intro c hc
  rw [List.head?_append, h.1] at hc
  exact (Option.some.inj hc).symm

namespace Layout

variable {source : String} {before text : List Char} {tokens : List Token}

theorem words_eq (h : Layout source.toList before tokens) :
    tokens.map Token.word =
      (tokens.filter (·.kind ≠ .endOfFile)).map Token.word ++ [Word.ending] := by
  induction h with
  | ending lies kind =>
    obtain hs | ⟨-, hl, -, -⟩ := lies.spelling
    · exact absurd kind hs.kind_ne_endOfFile
    · simp [kind, hl, Token.word, Word.ending]
  | token lies kind rest ih => simp [kind, ih]

theorem spaced (h : Layout source.toList before tokens) (hj : Joined (pieces source tokens) text) :
    Spaced ((tokens.filter (·.kind ≠ .endOfFile)).map Token.word) text := by
  induction h generalizing text with
  | ending lies kind =>
    simp only [pieces, List.filter_cons, kind, List.filter_nil] at hj ⊢
    cases hj
    exact .nil nofun
  | @token before gap piece after t ts lies kind rest ih =>
    have hpieces : pieces source (t :: ts) = piece :: pieces source ts := by
      simp [pieces, kind, lies.cut_eq]
    have hwords : ((t :: ts).filter (·.kind ≠ .endOfFile)).map Token.word =
        t.word :: (ts.filter (·.kind ≠ .endOfFile)).map Token.word := by
      simp [kind]
    have hspelling : Spelling t.word.kind t.word.lexeme.toList piece :=
      lies.spelling.resolve_right fun hend => kind hend.1
    have hgap : ∀ c ∈ ([] : List Char), Text.isBlank c := nofun
    rw [hpieces] at hj
    rw [hwords]
    generalize hps : pieces source ts = ps at hj ih
    cases hj with
    | last =>
      have hbreaks : Breaks [] := nofun
      have hrest := Spaced.cons hgap hspelling hbreaks (ih .nil)
      rwa [List.nil_append, List.append_nil] at hrest
    | cons _ hsep hj =>
      -- A separator starts with a line end, which ends the piece before it.
      have hrest := Spaced.cons hgap hspelling (hsep.breaks _) ((ih hj).behind hsep.2)
      rwa [List.nil_append, ← List.append_assoc] at hrest

end Layout

/-- Layout between tokens does not count: the texts of the tokens, with line ends and any other
blanks between them, hold the same tokens. -/
theorem tokenize_respaced (source text : String) (tokens : List Token)
    (h : tokenize source = .ok tokens) (hj : Joined (pieces source tokens) text.toList) :
    ∃ tokens', tokenize text = .ok tokens' ∧ tokens'.map Token.word = tokens.map Token.word := by
  have hlayout := layout_of_tokenize h
  have hspaced : Spaced _ (Lexer.ofString text).rest := hlayout.spaced hj
  obtain ⟨hwords, ending, hend, hword⟩ := hspaced.scan
  refine ⟨(Lexer.ofString text).scan.tokens ++ [ending], ?_, ?_⟩
  · rw [tokenize_eq, hend]
    rfl
  · rw [List.map_append, hlayout.words_eq, ← hwords, List.map_singleton, hword]
    rfl

theorem tokenize_respaced_comment :
    let source := "a-1>>=|c\x7d"
    let text := "a-1\n\t>>\n=\n\u0085|c\n\n\x7d"
    let tokens : List Token :=
      [⟨.identifier, "a-1", ⟨⟨1, 1⟩, 0⟩, 3⟩, ⟨.shiftRight, ">>", ⟨⟨1, 4⟩, 3⟩, 5⟩,
        ⟨.assign, "=", ⟨⟨1, 6⟩, 5⟩, 6⟩, ⟨.comment, "c", ⟨⟨1, 7⟩, 6⟩, 8⟩,
        ⟨.rightBrace, "\x7d", ⟨⟨1, 9⟩, 8⟩, 9⟩, ⟨.endOfFile, "", ⟨⟨1, 10⟩, 9⟩, 9⟩]
    tokenize source = .ok tokens ∧ Joined (pieces source tokens) text.toList ∧
      ∃ tokens', tokenize text = .ok tokens' ∧
        tokens'.map Token.word = tokens.map Token.word := by
  intro source text tokens
  have htokens : tokenize source = .ok tokens := by decide +kernel
  have hpieces : pieces source tokens =
      [['a', '-', '1'], ['>', '>'], ['='], ['|', 'c'], ['\x7d']] := by decide +kernel
  have htext : text.toList = ['a', '-', '1'] ++ ['\n', '\t'] ++ (['>', '>'] ++ ['\n'] ++
      (['='] ++ ['\n', '\u0085'] ++ (['|', 'c'] ++ ['\n', '\n'] ++ ['\x7d']))) := by
    decide +kernel
  have hjoined : Joined (pieces source tokens) text.toList := by
    rw [hpieces, htext]
    have hgap {gap : List Char} (h : gap.head? = some '\n') (hb : gap.all Text.isBlank) :
        IsSeparator gap := ⟨h, List.all_eq_true.1 hb⟩
    exact .cons _ (hgap rfl rfl) (.cons _ (hgap rfl rfl) (.cons _ (hgap rfl rfl)
      (.cons _ (hgap rfl rfl) (.last _))))
  exact ⟨htokens, hjoined, tokenize_respaced source text tokens htokens hjoined⟩

end VnScript
