import VnScript.Proofs.Token.Layout
import VnScript.Proofs.Token.Order
import VnScript.Proofs.Token.Relexing

namespace VnScript

/-- The place behind a text that is read from its start. -/
def Place.behind (text : List Char) : Place :=
  ⟨1 + text.count '\n', 1 + (text.reverse.takeWhile (· ≠ '\n')).length⟩

theorem Position.toPlace_afterAll_start (text : List Char) :
    (start.afterAll text).toPlace = Place.behind text := by
  have hl := line_afterAll start text
  have hc := column_afterAll_start text
  generalize start.afterAll text = p at hl hc
  obtain ⟨⟨line, column⟩, offset⟩ := p
  obtain rfl : line = 1 + text.count '\n' := hl
  obtain rfl : column = _ := hc
  rfl

namespace Reading

variable {c : Char} {cs : List Char} {fault : LexFault}

/-- How no token starts at `c`. A stray character stays where it is unless it is an exclamation
mark, and behind an opening delimiter that is never closed everything is consumed. -/
inductive Fails (c : Char) (cs : List Char) : Reading → Prop
  | stray (hc : c ≠ '!') : Fails c cs ⟨.error (.stray c), [], c :: cs⟩
  | mark (hc : c = '!') (hcs : cs.head? ≠ some '=') : Fails c cs ⟨.error (.stray c), [c], cs⟩
  | openString (hc : c = '"') (hcs : '"' ∉ cs) : Fails c cs ⟨.error .openString, c :: cs, []⟩
  | openChar (hc : c = '\x27') (hcs : '\x27' ∉ cs) : Fails c cs ⟨.error .openChar, c :: cs, []⟩

theorem symbol_fails (h : (symbol c cs).outcome = .error fault) : Fails c cs (symbol c cs) := by
  unfold symbol at h ⊢
  split at h
  · cases h
  · cases h
  · next hpair hsingle =>
    by_cases hc : c = '!'
    · have hcs : cs.head? ≠ some '=' := by
        intro hcs
        rw [hcs, hc] at hpair
        cases hpair
      simp only [if_pos hc]
      exact .mark hc hcs
    · simp only [if_neg hc]
      exact .stray hc

theorem quoted_of_not_mem {kind : TokenKind} {delimiter : Char} (h : delimiter ∉ cs) :
    quoted kind fault delimiter cs = ⟨.error fault, delimiter :: cs, []⟩ := by
  have hall (c : Char) (hc : c ∈ cs) : (c != delimiter) = true :=
    bne_iff_ne.2 fun he => h (he ▸ hc)
  have htake : cs.takeWhile (· != delimiter) = cs := List.takeWhile_eq_self_iff.2 hall
  have hdrop : cs.dropWhile (· != delimiter) = [] := List.dropWhile_eq_nil_iff.2 hall
  simp only [quoted, htake, hdrop]

theorem quoted_eq_error_iff {kind : TokenKind} {delimiter : Char} :
    (∃ e, (quoted kind fault delimiter cs).outcome = .error e) ↔ delimiter ∉ cs := by
  constructor
  · rintro ⟨e, he⟩ hmem
    unfold quoted at he
    split at he
    · next hdrop =>
      have hne := List.dropWhile_eq_nil_iff.1 hdrop delimiter hmem
      simp at hne
    · cases he
  · intro h
    rw [quoted_of_not_mem h]
    exact ⟨fault, rfl⟩

theorem first_fails (h : (first c cs).outcome = .error fault) : Fails c cs (first c cs) := by
  unfold first at h ⊢
  split_ifs at h ⊢ with hbar hquote hsingle hdigit halpha
  · cases h
  · have hcs := quoted_eq_error_iff.1 ⟨fault, h⟩
    rw [quoted_of_not_mem hcs]
    exact .openString hquote (hquote ▸ hcs)
  · have hcs := quoted_eq_error_iff.1 ⟨fault, h⟩
    rw [quoted_of_not_mem hcs]
    exact .openChar hsingle (hsingle ▸ hcs)
  · rw [number_eq] at h
    split at h <;> cases h
  · cases h
  · exact symbol_fails h

end Reading

/-- The error is about this character: an unexpected one, or one that opens a literal. -/
def LexError.IsAbout (c : Char) : LexError → Prop
  | .unexpectedCharacter d _ => d = c
  | .unterminatedString _ => c = '"'
  | .unterminatedChar _ => c = '\x27'

/-- What is reported where a literal that `delimiter` opens is not closed. -/
def unclosed? : Char → Option (Place → LexError)
  | '"' => some .unterminatedString
  | '\x27' => some .unterminatedChar
  | _ => none

namespace Lexer

variable {l l' : Lexer} {e : LexError} {x : Except LexError Token}

/-- The lexer after so many calls, which go on after errors. -/
def after : Nat → Lexer → Lexer
  | 0, l => l
  | n + 1, l => after n l.next.2

theorem after_succ (n : Nat) (l : Lexer) : l.after (n + 1) = (l.after n).next.2 := by
  induction n generalizing l with
  | zero => rfl
  | succ n ih => exact ih l.next.2

theorem steps_eq (n : Nat) (l : Lexer) :
    steps n l = (List.range n).map fun i => (l.after i).next.1 := by
  induction n generalizing l with
  | zero => rfl
  | succ n ih =>
    rw [steps, ih, List.range_succ_eq_map, List.map_cons, List.map_map]
    rfl

theorem skipBlanks_eq (l : Lexer) : ∃ gap, l.rest = gap ++ l.skipBlanks.rest ∧
    (∀ c ∈ gap, Text.isBlank c) ∧ l.skipBlanks.position = l.position.afterAll gap :=
  ⟨l.rest.takeWhile Text.isBlank, List.takeWhile_append_dropWhile.symm,
    fun _ hc => List.mem_takeWhile_imp hc, rfl⟩

theorem skipBlanks_of_gap {gap rest : List Char} {c : Char} (h : l.rest = gap ++ c :: rest)
    (hgap : ∀ d ∈ gap, Text.isBlank d) (hc : Text.isBlank c = false) :
    l.skipBlanks = ⟨c :: rest, l.position.afterAll gap⟩ := by
  obtain ⟨htake, hdrop⟩ := Reading.takeWhile_append_of_head hgap (c :: rest) (by simp [hc])
  rw [skipBlanks, h, htake, hdrop]

theorem skipBlanks_idem (l : Lexer) : l.skipBlanks.skipBlanks = l.skipBlanks := by
  have hhead : l.skipBlanks.rest.takeWhile Text.isBlank = [] ∧
      l.skipBlanks.rest.dropWhile Text.isBlank = l.skipBlanks.rest := by
    cases hr : l.skipBlanks.rest with
    | nil => exact ⟨rfl, rfl⟩
    | cons c rest =>
      have hc := Reading.false_of_dropWhile_eq_cons (show l.rest.dropWhile _ = c :: rest from hr)
      simp [hc]
  obtain ⟨htake, hdrop⟩ := hhead
  rw [skipBlanks, htake, hdrop]
  rfl

theorem next_skipBlanks (l : Lexer) : l.skipBlanks.next = l.next := by
  unfold next
  rw [skipBlanks_idem]

theorem next_after_of_stuck (h : l.next.2 = l.skipBlanks) (n : Nat) :
    (l.after n).next = l.next := by
  induction n with
  | zero => rfl
  | succ n ih => rw [after_succ, ih, h, next_skipBlanks]

theorem next_of_reads {c : Char} {cs lexeme : List Char} {kind : TokenKind}
    (h : l.skipBlanks.rest = c :: cs) (hr : (Reading.first c cs).outcome = .ok (kind, lexeme)) :
    ∃ t, l.next.1 = .ok t ∧ t.kind = kind := by
  unfold next
  simp only [h, hr]
  exact ⟨_, rfl, rfl⟩

theorem next_of_fails {c : Char} {cs text rest : List Char} {fault : LexFault}
    (h : l.skipBlanks.rest = c :: cs) (hf : Reading.first c cs = ⟨.error fault, text, rest⟩) :
    l.next = (.error (fault.toError l.skipBlanks.position.toPlace),
      ⟨rest, l.skipBlanks.position.afterAll text⟩) := by
  unfold next
  simp only [h, hf]

theorem next_of_nil (h : l.skipBlanks.rest = []) :
    l.next = (.ok l.skipBlanks.endToken, l.skipBlanks) := by
  unfold next
  simp only [h]

inductive Course where
  | token | ending | stray | mark | unclosed
  deriving DecidableEq

/-- The calls from `l` on go so: the one call that is made, and all that follow it where they do no
more than repeat it. Behind the blanks `gap` stands what it is about. -/
def Goes (l : Lexer) : Course → Prop
  | .token => ∃ t, l.next.1 = .ok t ∧ t.kind ≠ .endOfFile ∧
      l.position.offset < l.next.2.position.offset ∧
      l.position.toPlace < l.next.2.position.toPlace
  | .ending => ∃ t, t.kind = .endOfFile ∧ ∀ n, (l.after n).next.1 = .ok t
  | .stray => ∃ gap c rest, l.rest = gap ++ c :: rest ∧ (∀ d ∈ gap, Text.isBlank d) ∧
      Text.isBlank c = false ∧ c ≠ '!' ∧ l.next.2 = ⟨c :: rest, l.position.afterAll gap⟩ ∧
      ∀ n, (l.after n).next.1 =
        .error (.unexpectedCharacter c (l.position.afterAll gap).toPlace)
  | .mark => ∃ gap rest, l.rest = gap ++ '!' :: rest ∧ (∀ d ∈ gap, Text.isBlank d) ∧
      rest.head? ≠ some '=' ∧
      l.next = (.error (.unexpectedCharacter '!' (l.position.afterAll gap).toPlace),
        ⟨rest, l.position.afterAll (gap ++ ['!'])⟩)
  | .unclosed => ∃ gap delimiter body error, l.rest = gap ++ delimiter :: body ∧
      (∀ d ∈ gap, Text.isBlank d) ∧ unclosed? delimiter = some error ∧ delimiter ∉ body ∧
      l.next = (.error (error (l.position.afterAll gap).toPlace),
        ⟨[], l.position.afterAll l.rest⟩)

/-- What the answer of a call tells of its course. -/
def courseOf : Except LexError Token → Course
  | .ok t => if t.kind = .endOfFile then .ending else .token
  | .error (.unexpectedCharacter c _) => if c = '!' then .mark else .stray
  | .error _ => .unclosed

theorem courseOf_unclosed {delimiter : Char} {error : Place → LexError}
    (h : unclosed? delimiter = some error) (place : Place) :
    courseOf (.error (error place)) = .unclosed := by
  unfold unclosed? at h
  split at h <;> cases h <;> rfl

theorem Goes.courseOf_eq {course : Course} (h : l.Goes course) : courseOf l.next.1 = course := by
  cases course with
  | token =>
    obtain ⟨t, ht, hk, -⟩ := h
    rw [ht, courseOf, if_neg hk]
  | ending =>
    obtain ⟨t, hk, ht⟩ := h
    rw [show l.next.1 = .ok t from ht 0, courseOf, if_pos hk]
  | stray =>
    obtain ⟨gap, c, rest, -, -, -, hc, -, h⟩ := h
    rw [show l.next.1 = _ from h 0, courseOf, if_neg hc]
  | mark =>
    obtain ⟨gap, rest, -, -, -, h⟩ := h
    rw [h]
    rfl
  | unclosed =>
    obtain ⟨gap, delimiter, body, error, -, -, herror, -, h⟩ := h
    rw [h]
    exact courseOf_unclosed herror _

theorem goes_of_token {t : Token} (h : l.next = (.ok t, l')) (hk : t.kind ≠ .endOfFile) :
    l.Goes .token := by
  have hplace := ((step_of_next h).token_lt hk)
  refine ⟨t, congrArg Prod.fst h, hk, ?_⟩
  rw [h]
  cases step_of_next h with
  | ending => exact absurd rfl hk
  | @token gap text rest lexeme kind rest_eq blank spelling =>
    refine ⟨?_, l.position.lt_afterAll (by simp [spelling.text_ne_nil])⟩
    obtain ⟨c, cs, rfl⟩ := List.exists_cons_of_ne_nil spelling.text_ne_nil
    have hpos := c.utf8Size_pos
    simp only [Position.offset_afterAll, String.utf8Len_append, String.utf8Len_cons]
    omega

theorem goes_of_ending (h : l.skipBlanks.rest = []) : l.Goes .ending := by
  have hnext := next_of_nil h
  refine ⟨l.skipBlanks.endToken, rfl, fun n => ?_⟩
  rw [next_after_of_stuck (congrArg Prod.snd hnext), hnext]

theorem goes_of_fails {c : Char} {cs : List Char} (h : l.skipBlanks.rest = c :: cs)
    (hf : Reading.Fails c cs (Reading.first c cs)) :
    l.Goes .stray ∨ l.Goes .mark ∨ l.Goes .unclosed := by
  obtain ⟨gap, hrest, hgap, hposition⟩ := l.skipBlanks_eq
  have hblank : Text.isBlank c = false :=
    Reading.false_of_dropWhile_eq_cons (show l.rest.dropWhile _ = c :: cs from h)
  rw [h] at hrest
  generalize hr : Reading.first c cs = r at hf
  cases hf with
  | stray hc =>
    -- It is not passed, so that every later call meets it again.
    have hnext := next_of_fails h hr
    rw [hposition] at hnext
    refine .inl ⟨gap, c, cs, hrest, hgap, hblank, hc, congrArg Prod.snd hnext, fun n => ?_⟩
    rw [next_after_of_stuck, hnext]
    · rfl
    · rw [hnext, skipBlanks_of_gap hrest hgap hblank]
      rfl
  | mark hc hcs =>
    subst hc
    have hnext := next_of_fails h hr
    rw [hposition, ← Position.afterAll_append] at hnext
    exact .inr (.inl ⟨gap, cs, hrest, hgap, hcs, hnext⟩)
  | openString hc hcs =>
    subst hc
    have hnext := next_of_fails h hr
    rw [hposition, ← Position.afterAll_append, ← hrest] at hnext
    exact .inr (.inr ⟨gap, '"', cs, _, hrest, hgap, rfl, hcs, hnext⟩)
  | openChar hc hcs =>
    subst hc
    have hnext := next_of_fails h hr
    rw [hposition, ← Position.afterAll_append, ← hrest] at hnext
    exact .inr (.inr ⟨gap, '\x27', cs, _, hrest, hgap, rfl, hcs, hnext⟩)

theorem exists_goes (l : Lexer) : ∃ course, l.Goes course := by
  cases hrest : l.skipBlanks.rest with
  | nil => exact ⟨_, goes_of_ending hrest⟩
  | cons c cs =>
    cases hr : (Reading.first c cs).outcome with
    | ok token =>
      obtain ⟨kind, lexeme⟩ := token
      obtain ⟨t, ht, rfl⟩ := next_of_reads hrest hr
      have hk := (Reading.first_spelling hr).kind_ne_endOfFile
      exact ⟨_, goes_of_token (Prod.ext ht rfl) hk⟩
    | error fault =>
      obtain h | h | h := goes_of_fails hrest (Reading.first_fails hr)
      · exact ⟨_, h⟩
      · exact ⟨_, h⟩
      · exact ⟨_, h⟩

/-- A call goes one way only. -/
theorem existsUnique_goes (l : Lexer) : ∃! course, l.Goes course := by
  obtain ⟨course, h⟩ := l.exists_goes
  exact ⟨course, h, fun other ho => ho.courseOf_eq.symm.trans h.courseOf_eq⟩

theorem first_of_unclosed {delimiter : Char} {error : Place → LexError} (body : List Char)
    (h : unclosed? delimiter = some error) :
    ∃ kind fault, Reading.first delimiter body = Reading.quoted kind fault delimiter body ∧
      ∀ place, fault.toError place = error place := by
  unfold unclosed? at h
  split at h
  · obtain rfl := Option.some.inj h
    exact ⟨.string, .openString, rfl, fun _ => rfl⟩
  · obtain rfl := Option.some.inj h
    exact ⟨.char, .openChar, rfl, fun _ => rfl⟩
  · cases h

theorem isBlank_of_unclosed {delimiter : Char} {error : Place → LexError}
    (h : unclosed? delimiter = some error) : Text.isBlank delimiter = false := by
  unfold unclosed? at h
  split at h <;> first | rfl | cases h

/-- A literal is reported exactly if no matching delimiter follows its opening one. -/
theorem unclosed_iff {gap body : List Char} {delimiter : Char} {error : Place → LexError}
    (hrest : l.rest = gap ++ delimiter :: body) (hgap : ∀ d ∈ gap, Text.isBlank d)
    (h : unclosed? delimiter = some error) :
    l.next.1 = .error (error (l.position.afterAll gap).toPlace) ↔ delimiter ∉ body := by
  have hskip := skipBlanks_of_gap hrest hgap (isBlank_of_unclosed h)
  obtain ⟨kind, fault, hfirst, herror⟩ := first_of_unclosed body h
  constructor
  · intro hnext
    cases hr : (Reading.first delimiter body).outcome with
    | ok token =>
      obtain ⟨k, lexeme⟩ := token
      obtain ⟨t, ht, -⟩ := next_of_reads (congrArg Lexer.rest hskip) hr
      cases ht.symm.trans hnext
    | error e =>
      rw [hfirst] at hr
      exact Reading.quoted_eq_error_iff.1 ⟨e, hr⟩
  · intro hbody
    have hr := hfirst.trans (Reading.quoted_of_not_mem hbody)
    rw [next_of_fails (congrArg Lexer.rest hskip) hr, hskip, herror]

variable {source before : List Char}

theorem At.next (h : l.At source before) : ∃ read, l.next.2.At source (before ++ read) := by
  have hs := l.step_next
  generalize l.next.1 = x, l.next.2 = l' at hs
  cases x with
  | ok t =>
    obtain ⟨gap, text, -, hat⟩ := hs.lies h
    rw [List.append_assoc] at hat
    exact ⟨_, hat⟩
  | error e =>
    cases hs with
    | @fault gap text rest fault rest_eq blank front =>
      refine ⟨gap ++ text, ?_, h.afterAll (gap ++ text)⟩
      rw [h.source_eq, rest_eq]
      simp

/-- However many calls were made, and whatever they came to, the lexer stands in the text. -/
theorem at_after (source : String) (n : Nat) :
    ∃ before, ((ofString source).after n).At source.toList before := by
  induction n with
  | zero => exact ⟨[], at_ofString source⟩
  | succ n ih =>
    obtain ⟨before, hat⟩ := ih
    obtain ⟨read, hnext⟩ := hat.next
    rw [after_succ]
    exact ⟨before ++ read, hnext⟩

theorem place_of_unclosed {delimiter : Char} {error : Place → LexError}
    (h : unclosed? delimiter = some error) (place : Place) :
    (error place).place = place ∧ (error place).IsAbout delimiter := by
  unfold unclosed? at h
  split at h <;> cases h <;> exact ⟨rfl, rfl⟩

theorem At.error (hat : l.At source before) (h : l.next.1 = .error e) :
    ∃ gap c rest, source = before ++ gap ++ c :: rest ∧ Text.isBlank c = false ∧ e.IsAbout c ∧
      e.place = Place.behind (before ++ gap) := by
  have hsource {gap rest : List Char} {c : Char} (hrest : l.rest = gap ++ c :: rest) :
      source = before ++ gap ++ c :: rest := by
    rw [hat.source_eq, hrest, List.append_assoc]
  have hplace (gap : List Char) :
      (l.position.afterAll gap).toPlace = Place.behind (before ++ gap) := by
    rw [hat.afterAll, Position.toPlace_afterAll_start]
  obtain ⟨course, hgoes⟩ := l.exists_goes
  cases course with
  | token =>
    obtain ⟨t, ht, -⟩ := hgoes
    cases ht.symm.trans h
  | ending =>
    obtain ⟨t, -, ht⟩ := hgoes
    cases (ht 0).symm.trans h
  | stray =>
    obtain ⟨gap, c, rest, hrest, -, hblank, -, -, hnext⟩ := hgoes
    obtain rfl := Except.error.inj ((hnext 0).symm.trans h)
    exact ⟨gap, c, rest, hsource hrest, hblank, rfl, hplace gap⟩
  | mark =>
    obtain ⟨gap, rest, hrest, -, -, hnext⟩ := hgoes
    obtain rfl := Except.error.inj ((congrArg Prod.fst hnext).symm.trans h)
    exact ⟨gap, '!', rest, hsource hrest, rfl, rfl, hplace gap⟩
  | unclosed =>
    obtain ⟨gap, delimiter, body, error, hrest, -, herror, -, hnext⟩ := hgoes
    obtain rfl := Except.error.inj ((congrArg Prod.fst hnext).symm.trans h)
    obtain ⟨hp, habout⟩ := place_of_unclosed herror (l.position.afterAll gap).toPlace
    exact ⟨gap, delimiter, body, hsource hrest, isBlank_of_unclosed herror, habout,
      hp.trans (hplace gap)⟩

/-- The tokens that are left are what the calls give one after the other up to the end of the text
or to the first error. -/
theorem steps_scan (l : Lexer) :
    steps (l.scan.tokens.length + 1) l = l.scan.tokens.map .ok ++ [l.scan.ending] ∧
      (∀ t ∈ l.scan.tokens, t.kind ≠ .endOfFile) ∧
      l.scan.tokens.length ≤ l.rest.length := by
  induction l using scan_induction with
  | fault l l' e hx hscan =>
    rw [hscan]
    simp [steps, hx]
  | ending l l' t hx hk hscan =>
    rw [hscan]
    simp [steps, hx]
  | token l l' t hx hk hscan ih =>
    have hlt := (step_of_next hx).rest_length hk
    obtain ⟨hsteps, hkinds, hlength⟩ := ih
    rw [hscan]
    refine ⟨?_, List.forall_mem_cons.2 ⟨hk, hkinds⟩, ?_⟩
    · rw [List.length_cons, steps, hx, hsteps]
      rfl
    · rw [List.length_cons]
      omega

end Lexer

/-- Every call of a lexer, also behind errors, goes one of five ways: it gives a token and moves on;
it gives the end of the text, and so does every later one; it reports a stray character behind the
blanks, and so does every later one; it reports a lone exclamation mark and stands behind it; or it
reports a literal that nothing closes and stands at the end of the text. Errors stand at the
character that they are about. So the calls come to the end of the text or to an error within as
many as there are characters, and `tokenize` gives what they give up to there. -/
theorem calls_progress (source : String) :
    (∀ n, let l := (Lexer.ofString source).after n
      (∃ before, l.At source.toList before) ∧
      (∃! course, l.Goes course) ∧
      (∀ gap delimiter body error, l.rest = gap ++ delimiter :: body →
        (∀ d ∈ gap, Text.isBlank d) → unclosed? delimiter = some error →
        (l.next.1 = .error (error (l.position.afterAll gap).toPlace) ↔ delimiter ∉ body)) ∧
      ∀ e, l.next.1 = .error e → ∃ front c rest, source.toList = front ++ c :: rest ∧
        e.IsAbout c ∧ e.place = Place.behind front) ∧
    (∀ n, Lexer.steps n (.ofString source) =
      (List.range n).map fun i => ((Lexer.ofString source).after i).next.1) ∧
    ∃ (tokens : List Token) (ending : Except LexError Token),
      Lexer.steps (tokens.length + 1) (.ofString source) = tokens.map .ok ++ [ending] ∧
      (∀ t ∈ tokens, t.kind ≠ .endOfFile) ∧ (∀ t, ending = .ok t → t.kind = .endOfFile) ∧
      tokens.length ≤ source.length ∧
      tokenize source = ending.map fun t => tokens ++ [t] := by
  refine ⟨?_, fun n => Lexer.steps_eq n _, ?_⟩
  · intro n
    obtain ⟨before, hat⟩ := Lexer.at_after source n
    refine ⟨⟨before, hat⟩, Lexer.existsUnique_goes _, fun _ _ _ _ => Lexer.unclosed_iff,
      fun e he => ?_⟩
    obtain ⟨gap, c, rest, hsource, -, habout, hplace⟩ := hat.error he
    exact ⟨before ++ gap, c, rest, hsource, habout, hplace⟩
  · obtain ⟨hsteps, hkinds, hlength⟩ := (Lexer.ofString source).steps_scan
    exact ⟨_, _, hsteps, hkinds, (Lexer.ofString source).scan_spelled.2, hlength, rfl⟩

end VnScript
