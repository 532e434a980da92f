import VnScript.Proofs.Cpp.Annotated

namespace VnScript.Cpp

section Splicing

variable {cs rest : List Char} {lines lines' : List (List Char)}

/-- Text in which every line that ends in a backslash is joined with the next one, as C++ does
before it looks for comments. -/
def spliced : List Char → List Char
  | '\\' :: '\n' :: rest => spliced rest
  | c :: rest => c :: spliced rest
  | [] => []

def logicalLines (text : String) : List (List Char) := (spliced text.toList).splitOn '\n'

def IsComplete (cs : List Char) : Prop := cs.getLast? ≠ some '\\'
  deriving Decidable

def ofLines (lines : List (List Char)) : List Char := lines.flatMap (· ++ ['\n'])

theorem spliced_cons {c : Char} (h : c = '\\' → rest.head? ≠ some '\n') :
    spliced (c :: rest) = c :: spliced rest := by
  rw [spliced]
  rintro rest' hc rfl
  exact h hc rfl

theorem spliced_complete (hn : '\n' ∉ cs) (hw : IsComplete cs) :
    spliced (cs ++ '\n' :: rest) = cs ++ '\n' :: spliced rest := by
  induction cs with
  | nil => exact spliced_cons nofun
  | cons c cs ih =>
    obtain ⟨-, hcs⟩ := not_or.1 (List.mem_cons.not.1 hn)
    cases cs with
    | nil =>
      have hc : c ≠ '\\' := fun hc => hw (congrArg some hc)
      exact (spliced_cons fun h => absurd h hc).trans (congrArg (c :: ·) (spliced_cons nofun))
    | cons d cs =>
      have hw : IsComplete (d :: cs) := by rwa [IsComplete, List.getLast?_cons_cons] at hw
      have hd : (d :: cs ++ '\n' :: rest).head? ≠ some '\n' := fun h =>
        hcs (Option.some.inj h ▸ List.mem_cons_self)
      rw [List.cons_append, spliced_cons fun _ => hd, ih hcs hw]
      rfl

theorem spliced_joined (hn : '\n' ∉ cs) :
    spliced (cs ++ '\\' :: '\n' :: rest) = cs ++ spliced rest := by
  induction cs with
  | nil => rfl
  | cons c cs ih =>
    obtain ⟨-, hcs⟩ := not_or.1 (List.mem_cons.not.1 hn)
    have hnext : (cs ++ '\\' :: '\n' :: rest).head? ≠ some '\n' := by
      cases cs with
      | nil => nofun
      | cons d cs => exact fun h => hcs (Option.some.inj h ▸ List.mem_cons_self)
    rw [List.cons_append, spliced_cons fun _ => hnext, ih hcs]
    rfl

theorem ofLines_cons (cs : List Char) (lines : List (List Char)) :
    ofLines (cs :: lines) = cs ++ '\n' :: ofLines lines := by
  rw [ofLines, List.flatMap_cons, List.append_assoc]
  rfl

theorem ofLines_append (lines lines' : List (List Char)) :
    ofLines (lines ++ lines') = ofLines lines ++ ofLines lines' := List.flatMap_append

theorem spliced_ofLines (h : ∀ cs ∈ lines, '\n' ∉ cs ∧ IsComplete cs) (rest : List Char) :
    spliced (ofLines lines ++ rest) = ofLines lines ++ spliced rest := by
  induction lines with
  | nil => rfl
  | cons cs lines ih =>
    obtain ⟨⟨hn, hc⟩, hlines⟩ := List.forall_mem_cons.1 h
    rw [ofLines_cons, List.append_assoc, List.cons_append, spliced_complete hn hc, ih hlines,
      List.append_assoc, List.cons_append]

theorem splitOn_cons (hn : '\n' ∉ cs) :
    (cs ++ '\n' :: rest).splitOn '\n' = cs :: rest.splitOn '\n' := by
  refine List.splitOnP_append_cons_of_forall_mem (fun c hc => ?_) '\n' rfl rest
  exact beq_eq_false_iff_ne.2 fun h => hn (h ▸ hc)

theorem splitOn_ofLines (h : ∀ cs ∈ lines, '\n' ∉ cs) (rest : List Char) :
    (ofLines lines ++ rest).splitOn '\n' = lines ++ rest.splitOn '\n' := by
  induction lines with
  | nil => rfl
  | cons cs lines ih =>
    obtain ⟨hn, hlines⟩ := List.forall_mem_cons.1 h
    rw [ofLines_cons, List.append_assoc, List.cons_append, splitOn_cons hn, ih hlines,
      List.cons_append]

theorem length_splitOn (cs : List Char) : (cs.splitOn '\n').length = cs.count '\n' + 1 := by
  induction cs with
  | nil => rfl
  | cons c cs ih =>
    rw [List.splitOn_eq_splitOnP] at ih ⊢
    rw [List.splitOnP_cons_eq_if_modifyHead, List.count_cons]
    split
    · rw [List.length_cons, ih]
    · rw [List.length_modifyHead, ih, Nat.add_zero]

theorem count_spliced (h : ∀ cs ∈ lines, '\n' ∉ cs) :
    (spliced (ofLines lines)).count '\n' = lines.countP fun cs => decide (IsComplete cs) := by
  induction lines with
  | nil => rfl
  | cons cs rest ih =>
    obtain ⟨hn, hrest⟩ := List.forall_mem_cons.1 h
    rw [ofLines_cons, List.countP_cons]
    by_cases hw : IsComplete cs
    · rw [spliced_complete hn hw, List.count_append, List.count_cons, List.count_eq_zero.2 hn,
        ih hrest, decide_eq_true hw]
      simp
    · obtain ⟨start, rfl⟩ := List.getLast?_eq_some_iff.1 (not_not.1 hw)
      have hn : '\n' ∉ start := fun hm => hn (List.mem_append_left _ hm)
      rw [List.append_assoc, List.singleton_append, spliced_joined hn, List.count_append,
        List.count_eq_zero.2 hn, ih hrest, decide_eq_false hw]
      simp

end Splicing

section Comments

def Mode.next (m : Mode) (c : Char) : Mode :=
  match m with
  | .outside _ => outside c
  | .slash => if c = '/' then .line else if c = '*' then .block false else outside c
  | .line => if c = '\n' then .outside false else .line
  | .block star => if star && c == '/' then .outside false else .block (c == '*')
  | .literal quote escaped =>
    if escaped then .literal quote false
    else if c = quote then .outside false
    else .literal quote (c == '\\')
where
  outside (c : Char) : Mode :=
    if c = '"' ∨ c = '\x27' then .literal c false
    else if c = '/' then .slash
    else .outside (isWordPart c)

/-- What a character leaves of a text without comments. In place of each comment stands a blank,
and a slash is left by what follows it. -/
def Mode.emit (m : Mode) (c : Char) : List Char :=
  match m with
  | .outside _ => if c = '/' then [] else [c]
  | .slash => if c = '/' ∨ c = '*' then [' '] else ['/', c]
  | .line => if c = '\n' then [c] else []
  | .block _ => []
  | .literal _ _ => [c]

def Mode.pending : Mode → List Char
  | .slash => ['/']
  | _ => []

def Mode.after (m : Mode) (cs : List Char) : Mode := cs.foldl Mode.next m

def kept (m : Mode) : List Char → List Char
  | [] => []
  | c :: cs => m.emit c ++ kept (m.next c) cs

def uncommented (cs : List Char) : List Char :=
  kept (.outside false) cs ++ (Mode.after (.outside false) cs).pending

def notBlank (cs : List Char) : Bool := !cs.all Text.isBlank

/-- The lines of code of a text: what C++ reads of its lines without the comments, where that is
not blank. -/
def readLines (text : String) : List (List Char) :=
  ((uncommented (spliced text.toList)).splitOn '\n').filter notBlank

variable {m : Mode} {a b cs : List Char} {lines : List (List Char)}

theorem after_append (m : Mode) (a b : List Char) : m.after (a ++ b) = (m.after a).after b :=
  List.foldl_append

theorem kept_append (m : Mode) (a b : List Char) :
    kept m (a ++ b) = kept m a ++ kept (m.after a) b := by
  induction a generalizing m with
  | nil => rfl
  | cons c a ih =>
    rw [List.cons_append, kept, ih, kept, List.append_assoc]
    rfl

theorem uncommented_append (h : Mode.after (.outside false) a = .outside false) :
    uncommented (a ++ b) = kept (.outside false) a ++ uncommented b := by
  rw [uncommented, kept_append, after_append, h, List.append_assoc]
  rfl

theorem emit_newline {word : Bool} (h : m.next '\n' = .outside word) :
    m.emit '\n' = m.pending ++ ['\n'] := by
  cases m with
  | block star => simp [Mode.next] at h
  | _ => rfl

theorem kept_line {word : Bool} (h : Mode.after (.outside false) (cs ++ ['\n']) = .outside word) :
    kept (.outside false) (cs ++ ['\n']) = uncommented cs ++ ['\n'] := by
  rw [after_append] at h
  rw [kept_append, uncommented, List.append_assoc, ← emit_newline h]
  exact congrArg _ (List.append_nil _)

theorem newline_not_mem_emit {c : Char} (h : c ≠ '\n') : '\n' ∉ m.emit c := by
  cases m <;> simp only [Mode.emit] <;> (try split) <;> simp [Ne.symm h]

theorem newline_not_mem_kept (h : '\n' ∉ cs) (m : Mode) : '\n' ∉ kept m cs := by
  induction cs generalizing m with
  | nil => exact List.not_mem_nil
  | cons c cs ih =>
    obtain ⟨hc, hcs⟩ := not_or.1 (List.mem_cons.not.1 h)
    rw [kept, List.mem_append, not_or]
    exact ⟨newline_not_mem_emit (Ne.symm hc), ih hcs _⟩

theorem newline_not_mem_uncommented (h : '\n' ∉ cs) : '\n' ∉ uncommented cs := by
  have hp : ∀ m : Mode, '\n' ∉ m.pending := by
    intro m
    cases m <;> simp [Mode.pending]
  rw [uncommented, List.mem_append, not_or]
  exact ⟨newline_not_mem_kept h _, hp _⟩

/-- A line after which C++ is outside comments and literals again. -/
def IsClosedLine (cs : List Char) : Prop :=
  Mode.after (.outside false) (cs ++ ['\n']) = .outside false
  deriving Decidable

theorem uncommented_ofLines (h : ∀ cs ∈ lines, IsClosedLine cs) (rest : List Char) :
    uncommented (ofLines lines ++ rest) =
      ofLines (lines.map uncommented) ++ uncommented rest := by
  induction lines with
  | nil => rfl
  | cons cs lines ih =>
    obtain ⟨hc, hlines⟩ := List.forall_mem_cons.1 h
    rw [ofLines, List.flatMap_cons, List.append_assoc, uncommented_append hc, kept_line hc,
      ← ofLines, ih hlines, List.map_cons, ofLines_cons, List.append_assoc, List.append_assoc]
    rfl

theorem kept_inComment (h : '\n' ∉ cs) : kept .line cs = [] ∧ Mode.after .line cs = .line := by
  induction cs with
  | nil => exact ⟨rfl, rfl⟩
  | cons c cs ih =>
    obtain ⟨hc, hcs⟩ := not_or.1 (List.mem_cons.not.1 h)
    have hnext : Mode.line.next c = .line := if_neg (Ne.symm hc)
    have hemit : Mode.line.emit c = [] := if_neg (Ne.symm hc)
    obtain ⟨hkept, hafter⟩ := ih hcs
    constructor
    · rw [kept, hemit, hnext, hkept, List.append_nil]
    · rwa [Mode.after, List.foldl_cons, hnext]

theorem uncommented_comment (h : '\n' ∉ cs) (indent : Nat) :
    (uncommented (List.replicate indent ' ' ++ '/' :: '/' :: cs)).all Text.isBlank = true := by
  induction indent with
  | zero =>
    obtain ⟨hkept, hafter⟩ := kept_inComment h
    change (' ' :: kept .line cs ++ (Mode.after .line cs).pending).all Text.isBlank = true
    rw [hkept, hafter]
    decide
  | succ n ih =>
    have hblank (rest : List Char) : uncommented (' ' :: rest) = ' ' :: uncommented rest := rfl
    rw [List.replicate_succ, List.cons_append, hblank, List.all_cons, ih]
    decide

end Comments

section Scanned

variable {s s' : Scanner} {k k' : List Bracket} {c : Char} {a : String}

theorem isWordPart_opening {b : Bracket} (h : Bracket.opening? c = some b) :
    isWordPart c = false := by
  unfold Bracket.opening? at h
  split_ifs at h with hround hsquare hcurly
  · rw [hround]
    rfl
  · rw [hsquare]
    rfl
  · rw [hcurly]
    rfl

theorem isWordPart_closing {b : Bracket} (h : Bracket.closing? c = some b) :
    isWordPart c = false := by
  unfold Bracket.closing? at h
  split_ifs at h with hround hsquare hcurly
  · rw [hround]
    rfl
  · rw [hsquare]
    rfl
  · rw [hcurly]
    rfl

theorem mode_outside {word : Bool} {opened : List Bracket}
    (h : Scanner.outside word opened c = some s) : s.mode = Mode.next.outside c := by
  unfold Scanner.outside at h
  unfold Mode.next.outside
  by_cases hquote : c = '"' ∨ c = '\x27'
  · rw [if_pos hquote] at h ⊢
    cases word <;> cases h
    rfl
  by_cases hslash : c = '/'
  · rw [if_neg hquote, if_pos hslash] at h ⊢
    cases h
    rfl
  rw [if_neg hquote, if_neg hslash] at h ⊢
  split at h
  · next hopening =>
    cases h
    rw [isWordPart_opening hopening]
    rfl
  · next hclosing =>
    obtain ⟨-, hs⟩ := Option.ite_none_right_eq_some.1 h
    cases hs
    rw [isWordPart_closing hclosing]
    rfl
  · cases h
  · cases h
    rfl

theorem mode_literal {quote : Char} {escaped : Bool} {opened : List Bracket}
    (h : Scanner.next ⟨.literal quote escaped, opened⟩ c = some s') :
    s'.mode = Mode.next (.literal quote escaped) c := by
  simp only [Scanner.next, Mode.next] at h ⊢
  by_cases hline : c = '\n'
  · rw [if_pos hline] at h
    cases h
  rw [if_neg hline] at h
  by_cases hescaped : escaped = true
  · rw [if_pos hescaped] at h ⊢
    cases h
    rfl
  rw [if_neg hescaped] at h ⊢
  by_cases hend : c = quote
  · rw [if_pos hend] at h ⊢
    cases h
    rfl
  · rw [if_neg hend] at h ⊢
    cases h
    rfl

theorem mode_next (h : s.next c = some s') : s'.mode = s.mode.next c := by
  obtain ⟨mode, opened⟩ := s
  cases mode with
  | outside word => exact mode_outside h
  | slash =>
    by_cases hline : c = '/'
    · subst hline
      cases h
      rfl
    by_cases hblock : c = '*'
    · subst hblock
      cases h
      rfl
    simp only [Scanner.next, Mode.next, hline, hblock, if_false] at h ⊢
    exact mode_outside h
  | line =>
    cases h
    simp only [Mode.next]
    split <;> rfl
  | block star =>
    cases h
    simp only [Mode.next]
    split <;> rfl
  | literal quote escaped => exact mode_literal h

theorem mode_scan (h : s.scan a = some s') : s'.mode = s.mode.after a.toList := by
  unfold Scanner.scan at h
  generalize a.toList = cs at h
  induction cs generalizing s with
  | nil =>
    cases h
    rfl
  | cons c cs ih =>
    obtain ⟨s₁, hfirst, hrest⟩ := Option.bind_eq_some_iff.1 h
    rw [ih hrest, mode_next hfirst]
    rfl

end Scanned

section Generated

variable {lines : List Line} {notes : List String} {code annotated : List Line}

/-- The characters of a line, with the blanks before it. -/
def Line.characters (l : Line) : List Char := List.replicate (4 * l.indent) ' ' ++ l.text.toList

theorem toList_indent (indent : Nat) :
    (String.join (List.replicate indent "    ")).toList = List.replicate (4 * indent) ' ' := by
  induction indent with
  | zero => rfl
  | succ n ih =>
    rw [List.replicate_succ, String.join_cons, String.toList_append, ih, Nat.mul_succ,
      Nat.add_comm, List.replicate_add]
    rfl

theorem toList_render (l : Line) : l.render.toList = l.characters ++ ['\n'] := by
  rw [Line.render, String.toList_append, String.toList_append, toList_indent, Line.characters]
  rfl

theorem toList_renderLines (lines : List Line) :
    (renderLines lines).toList = ofLines (lines.map Line.characters) := by
  induction lines with
  | nil => rfl
  | cons l rest ih =>
    rw [renderLines_cons, String.toList_append, toList_render, ih]
    rfl

theorem newline_not_mem_characters {l : Line} (h : '\n' ∉ l.text.toList) :
    '\n' ∉ l.characters := by
  rw [Line.characters, List.mem_append, not_or]
  exact ⟨fun hm => absurd (List.eq_of_mem_replicate hm) (by decide), h⟩

theorem isComplete_characters (l : Line) : IsComplete l.characters ↔ Ended l.text := by
  rw [IsComplete, Ended, Line.characters, List.getLast?_append, List.getLast?_replicate]
  cases l.text.toList.getLast? with
  | some c => simp
  | none => split <;> simp

end Generated

end VnScript.Cpp
