import Mathlib.Data.List.Infix
import VnScript.Proofs.Cpp.Grammar

namespace VnScript.Cpp

abbrev Lexemes := List Lexeme

namespace Lexemes

/-- What is behind a lexeme that has to stand first. -/
def after? (l : Lexeme) : Lexemes → Option Lexemes
  | [] => none
  | x :: rest => if x = l then some rest else none

def afterAll? (start ls : Lexemes) : Option Lexemes :=
  if start.isPrefixOf ls then some (ls.drop start.length) else none

def readTemplate (ls : Lexemes) : Option (Tree × Lexemes) :=
  match after? (.sign "<") ls with
  | some (.word first :: rest) =>
    match after? (.sign "::") rest with
    | some (.word second :: rest) =>
      (after? (.sign ">") rest).map fun rest => (.unique (some first) second, rest)
    | some _ => none
    | none => (after? (.sign ">") rest).map fun rest => (.unique none first, rest)
  | _ => none

def readName (w : String) (ls : Lexemes) : Option (Tree × Lexemes) :=
  match after? (.sign "::") ls with
  | some (.word name :: rest) =>
    if IsTemplate w name then readTemplate rest else some (.qualified w name, rest)
  | some _ => none
  | none =>
    match afterAll? [.sign "\x7b", .sign "\x7d"] ls with
    | some rest => some (.value w, rest)
    | none => some (.leaf w, ls)

def word? : Lexemes → Option (String × Lexemes)
  | .word w :: rest => some (w, rest)
  | _ => none

def operator? (signs : List String) : Lexemes → Option (String × Lexemes)
  | .sign s :: rest => if s ∈ signs then some (s, rest) else none
  | _ => none

/-- What follows the head of a function: a prompt that ends with a `;`, or the body at once. -/
def readEnd (start : Lexemes) (prompt : Tree) (ls : Lexemes) : Option (Tree × Lexemes) :=
  match after? (.sign ";") ls with
  | some rest => (afterAll? readBody rest).map fun rest => (.readLineAfter prompt, rest)
  | none => (afterAll? readBody start).map fun rest => (.readLine, rest)

mutual

/-- A reader for the grammar, which goes on as long as it can. -/
def readExpression (ls : Lexemes) : Option (Tree × Lexemes) := do
  let (t, rest) ← ls |>.readBinary ladder
  match after? (.sign "=") rest with
  | some rest => do
    let (value, rest) ← rest |>.readExpression
    return (.assign t value, rest)
  | none => return (t, rest)
partial_fixpoint

def readBinary (levels : List (List String)) (ls : Lexemes) : Option (Tree × Lexemes) :=
  match levels with
  | [] =>
    match after? (.sign "-") ls with
    | some rest => do
      let (t, rest) ← rest |>.readBinary []
      return (.negative t, rest)
    | none => do
      let (t, rest) ← ls |>.readPrimary
      rest |>.readSuffixes t
  | signs :: levels => do
    let (t, rest) ← ls |>.readBinary levels
    rest |>.readOperations signs levels t
partial_fixpoint

def readOperations (signs : List String) (levels : List (List String)) (left : Tree)
    (ls : Lexemes) : Option (Tree × Lexemes) :=
  match operator? signs ls with
  | some (s, rest) => do
    let (right, rest) ← rest |>.readBinary levels
    rest |>.readOperations signs levels (.binary s left right)
  | none => some (left, ls)
partial_fixpoint

def readSuffixes (t : Tree) (ls : Lexemes) : Option (Tree × Lexemes) :=
  match after? (.sign "->") ls with
  | some rest => do
    let (name, rest) ← word? rest
    rest |>.readSuffixes (.member t name)
  | none =>
    match after? (.sign "(") ls with
    | some rest =>
      match after? (.sign ")") rest with
      | some rest => rest |>.readSuffixes (.call t [])
      | none => do
        let (ts, rest) ← rest |>.readItems
        let rest ← after? (.sign ")") rest
        rest |>.readSuffixes (.call t ts)
    | none => some (t, ls)
partial_fixpoint

def readItems (ls : Lexemes) : Option (List Tree × Lexemes) := do
  let (t, rest) ← ls |>.readExpression
  match after? (.sign ",") rest with
  | some rest => do
    let (ts, rest) ← rest |>.readItems
    return (t :: ts, rest)
  | none => return ([t], rest)
partial_fixpoint

def readPrimary (ls : Lexemes) : Option (Tree × Lexemes) :=
  match ls with
  | .word w :: rest => readName w rest
  | .literal text :: rest => some (.leaf text, rest)
  | _ =>
    match after? (.sign "(") ls with
    | some rest => do
      let (t, rest) ← rest |>.readExpression
      let rest ← after? (.sign ")") rest
      return (t, rest)
    | none => do
      let start ← afterAll? functionHead ls
      let (t, rest) ← start |>.readExpression
      readEnd start t rest
partial_fixpoint

end

end Lexemes

open Lexemes

section Endings

/-- No sign of these stands first. -/
def Ends (signs : List String) (rest : List Lexeme) : Prop :=
  ∀ s ∈ signs, rest.head? ≠ some (.sign s)

def wordGoesOn : List String := ["::", "\x7b"]

def operandGoesOn : List String := wordGoesOn ++ ["->", "("]

def expressionGoesOn : List String := operandGoesOn ++ ladder.flatten ++ ["="]

variable {signs signs' : List String} {rest : List Lexeme} {s : String}

theorem Ends.mono (h : Ends signs rest) (hs : signs' ⊆ signs) : Ends signs' rest :=
  fun s hm => h s (hs hm)

theorem ends_sign (h : s ∉ signs) : Ends signs (.sign s :: rest) := by
  intro s' hs' he
  cases he
  exact h hs'

theorem ends_word (w : String) : Ends signs (.word w :: rest) := fun _ _ he => by cases he

theorem ends_nil : Ends signs [] := fun _ _ he => by cases he

theorem Ends.after? (h : Ends signs rest) (hs : s ∈ signs) : after? (.sign s) rest = none := by
  have hh := h s hs
  cases rest with
  | nil => rfl
  | cons l rest => simpa [Lexemes.after?] using hh

@[simp] theorem after?_cons (l : Lexeme) (rest : List Lexeme) : after? l (l :: rest) = some rest :=
  if_pos rfl

theorem after?_ne {l l' : Lexeme} (h : l' ≠ l) (rest : List Lexeme) :
    after? l (l' :: rest) = none := if_neg h

theorem afterAll?_append (start rest : List Lexeme) :
    afterAll? start (start ++ rest) = some rest := by
  have h : start.isPrefixOf (start ++ rest) = true :=
    List.isPrefixOf_iff_prefix.2 (List.prefix_append start rest)
  rw [afterAll?, if_pos h, List.drop_left]

theorem afterAll?_none {start rest : List Lexeme} {l : Lexeme} (h : rest.head? ≠ some l) :
    afterAll? (l :: start) rest = none := by
  refine if_neg fun hp => h ?_
  cases rest with
  | nil => cases hp
  | cons x rest =>
    simp only [List.isPrefixOf, Bool.and_eq_true, beq_iff_eq] at hp
    simp [hp.1]

theorem ends_of_operator {levels : List (List String)} (h : signs :: levels <:+ ladder)
    (hs : s ∈ signs) (rest : List Lexeme) :
    Ends (operandGoesOn ++ levels.flatten) (.sign s :: rest) := by
  have hall : ∀ l ∈ ladder.tails, ∀ s ∈ l.headD [], s ∉ operandGoesOn ++ l.tail.flatten := by
    decide
  exact ends_sign (hall (signs :: levels) ((List.mem_tails _ _).2 h) s hs)

end Endings

section Reading

variable {ls ls' rest : List Lexeme} {t : Tree} {ts : List Tree}

/-- The reader reads these lexemes to their end, where nothing goes on with them. Of binary
operators it reads all but those of the loosest level. -/
def Node.Accepts (ls : List Lexeme) : Node → Prop
  | .primary t => ∀ rest, Ends wordGoesOn rest → readPrimary (ls ++ rest) = some (t, rest)
  | .suffixed t => ∀ rest, Ends wordGoesOn rest →
    readBinary [] (ls ++ rest) = readSuffixes t rest
  | .arguments ts => ∀ t rest, readSuffixes t (ls ++ rest) = readSuffixes (.call t ts) rest
  | .items ts => ∀ rest, Ends expressionGoesOn rest → Ends [","] rest →
    readItems (ls ++ rest) = some (ts, rest)
  | .binary [] t => ∀ rest, Ends operandGoesOn rest → readBinary [] (ls ++ rest) = some (t, rest)
  | .binary (signs :: levels) t => signs :: levels <:+ ladder → ∀ rest,
    Ends (operandGoesOn ++ levels.flatten) rest →
      readBinary (signs :: levels) (ls ++ rest) = readOperations signs levels t rest
  | .expression t => ∀ rest, Ends expressionGoesOn rest →
    readExpression (ls ++ rest) = some (t, rest)

theorem readSuffixes_ends (t : Tree) (h : Ends operandGoesOn rest) :
    readSuffixes t rest = some (t, rest) := by
  rw [readSuffixes.eq_def, h.after? (by decide), h.after? (by decide)]

theorem readOperations_ends {signs : List String} (levels : List (List String)) (t : Tree)
    (h : Ends signs rest) : readOperations signs levels t rest = some (t, rest) := by
  have ho : operator? signs rest = none := by
    unfold operator?
    split
    · next s rest => exact if_neg fun hs => h s hs rfl
    · rfl
  rw [readOperations.eq_def, ho]

theorem Node.Accepts.binary {levels : List (List String)}
    (h : Node.Accepts ls (.binary levels t)) (hl : levels <:+ ladder)
    (hr : Ends (operandGoesOn ++ levels.flatten) rest) :
    readBinary levels (ls ++ rest) = some (t, rest) := by
  cases levels with
  | nil => exact h rest (hr.mono (by simp))
  | cons signs levels =>
    rw [h hl rest (hr.mono (by simp)), readOperations_ends levels t (hr.mono (by simp))]

theorem accepts_word (w : String) : Node.Accepts [.word w] (.primary (.leaf w)) := by
  intro rest h
  rw [readPrimary.eq_def]
  change readName w rest = _
  rw [readName, h.after? (by decide), afterAll?_none (h _ (by decide))]

theorem accepts_literal (text : String) : Node.Accepts [.literal text] (.primary (.leaf text)) := by
  intro rest h
  rw [readPrimary.eq_def]
  rfl

theorem accepts_qualified {space name : String} (h : ¬IsTemplate space name) :
    Node.Accepts [.word space, .sign "::", .word name] (.primary (.qualified space name)) := by
  intro rest _
  rw [readPrimary.eq_def]
  change readName space (.sign "::" :: .word name :: rest) = _
  rw [readName, after?_cons]
  exact if_neg h

theorem accepts_value (type : String) :
    Node.Accepts [.word type, .sign "\x7b", .sign "\x7d"] (.primary (.value type)) := by
  intro rest _
  have ha := afterAll?_append [.sign "\x7b", .sign "\x7d"] rest
  rw [readPrimary.eq_def]
  change readName type ([.sign "\x7b", .sign "\x7d"] ++ rest) = _
  simp only [readName, ha]
  rfl

theorem accepts_unique (type : String) : Node.Accepts
    [.word "std", .sign "::", .word "make_unique", .sign "<", .word type, .sign ">"]
      (.primary (.unique none type)) := by
  intro rest _
  rw [readPrimary.eq_def]
  rfl

theorem accepts_uniqueIn (space type : String) : Node.Accepts
    [.word "std", .sign "::", .word "make_unique", .sign "<", .word space, .sign "::", .word type,
      .sign ">"] (.primary (.unique (some space) type)) := by
  intro rest _
  rw [readPrimary.eq_def]
  rfl

theorem accepts_parenthesized (h : Node.Accepts ls (.expression t)) :
    Node.Accepts (.sign "(" :: ls ++ [.sign ")"]) (.primary t) := by
  intro rest _
  have hr := h (.sign ")" :: rest) (ends_sign (by decide))
  rw [readPrimary.eq_def]
  simp [hr]

theorem Ends.append {signs : List String} (h : Ends signs ls) (hne : ls ≠ []) (ls' : List Lexeme) :
    Ends signs (ls ++ ls') := by
  obtain ⟨l, ls, rfl⟩ := List.exists_cons_of_ne_nil hne
  exact h

theorem accepts_operand (h : Node.Accepts ls (.primary t)) (hne : ls ≠ []) (he : Ends ["-"] ls) :
    Node.Accepts ls (.suffixed t) := by
  intro rest hr
  have hm := (he.append hne rest).after? (s := "-") (by decide)
  rw [readBinary.eq_def]
  simp only [hm, h rest hr]
  rfl

theorem accepts_negative (h : Node.Accepts ls (.binary [] t)) :
    Node.Accepts (.sign "-" :: ls) (.binary [] (.negative t)) := by
  intro rest hr
  rw [readBinary.eq_def, List.cons_append, after?_cons]
  simp [h rest hr]

theorem accepts_tightest (h : Node.Accepts ls (.suffixed t)) :
    Node.Accepts ls (.binary [] t) := by
  intro rest hr
  rw [h rest (hr.mono (by decide)), readSuffixes_ends t hr]

theorem accepts_tighter {signs : List String} {levels : List (List String)}
    (h : signs :: levels <:+ ladder → Node.Accepts ls (.binary levels t)) :
    Node.Accepts ls (.binary (signs :: levels) t) := by
  intro hl rest hr
  rw [readBinary.eq_def]
  simp only [(h hl).binary ((List.suffix_cons signs levels).trans hl) hr]
  rfl

theorem accepts_operation {left right : Tree} {sign : String} {signs : List String}
    {levels : List (List String)} (h : Node.Accepts ls (.binary (signs :: levels) left))
    (hs : sign ∈ signs)
    (h' : signs :: levels <:+ ladder → Node.Accepts ls' (.binary levels right)) :
    Node.Accepts (ls ++ .sign sign :: ls')
      (.binary (signs :: levels) (.binary sign left right)) := by
  intro hl rest hr
  have ho : operator? signs (.sign sign :: (ls' ++ rest)) = some (sign, ls' ++ rest) := if_pos hs
  rw [List.append_assoc, List.cons_append, h hl _ (ends_of_operator hl hs _),
    readOperations.eq_def, ho]
  change (readBinary levels (ls' ++ rest) >>= _) = _
  rw [(h' hl).binary ((List.suffix_cons signs levels).trans hl) hr]
  rfl

theorem accepts_simple (h : Node.Accepts ls (.binary ladder t)) :
    Node.Accepts ls (.expression t) := by
  intro rest hr
  rw [readExpression.eq_def, h.binary (List.suffix_refl _) (hr.mono (by simp [expressionGoesOn]))]
  simp [hr.after? (s := "=") (by decide)]

theorem accepts_assign {target value : Tree} (h : Node.Accepts ls (.binary ladder target))
    (h' : Node.Accepts ls' (.expression value)) :
    Node.Accepts (ls ++ .sign "=" :: ls') (.expression (.assign target value)) := by
  intro rest hr
  rw [List.append_assoc, readExpression.eq_def, List.cons_append,
    h.binary (List.suffix_refl _) (ends_sign (by decide))]
  simp [h' rest hr]

theorem accepts_of_suffixed (h : Node.Accepts ls (.suffixed t)) :
    Node.Accepts ls (.expression t) := by
  have hb (levels : List (List String)) : Node.Accepts ls (.binary levels t) := by
    induction levels with
    | nil => exact accepts_tightest h
    | cons signs levels ih => exact accepts_tighter fun _ => ih
  exact accepts_simple (hb ladder)

theorem readPrimary_function {behind : List Lexeme} (h : readExpression rest = some (t, behind)) :
    readPrimary (functionHead ++ rest) = readEnd rest t behind := by
  have ha := afterAll?_append functionHead rest
  rw [readPrimary.eq_def]
  change (afterAll? functionHead (functionHead ++ rest) >>= _) = _
  rw [ha]
  change (readExpression rest >>= fun (t, behind) => readEnd rest t behind) = _
  rw [h]
  rfl

theorem accepts_readLine : Node.Accepts (functionHead ++ readBody) (.primary .readLine) := by
  intro rest _
  have hs : Node.Accepts [.word "std", .sign "::", .word "string"] (.expression (.qualified _ _)) :=
    accepts_of_suffixed (accepts_operand (accepts_qualified (by decide)) (by simp) (ends_word _))
  have hr : readExpression (readBody ++ rest) = some (_, readBody.drop 3 ++ rest) :=
    hs (readBody.drop 3 ++ rest) (ends_word _)
  rw [List.append_assoc, readPrimary_function hr]
  change (afterAll? readBody (readBody ++ rest)).map _ = _
  rw [afterAll?_append]
  rfl

theorem accepts_readLineAfter (h : Node.Accepts ls (.expression t)) :
    Node.Accepts (functionHead ++ ls ++ .sign ";" :: readBody) (.primary (.readLineAfter t)) := by
  intro rest _
  have hr := h (.sign ";" :: (readBody ++ rest)) (ends_sign (by decide))
  rw [List.append_assoc, List.append_assoc, List.cons_append, readPrimary_function hr, readEnd,
    after?_cons]
  simp only [afterAll?_append, Option.map_some]

theorem accepts_member (h : Node.Accepts ls (.suffixed t)) (name : String) :
    Node.Accepts (ls ++ [.sign "->", .word name]) (.suffixed (.member t name)) := by
  intro rest _
  rw [List.append_assoc, List.cons_append, h _ (ends_sign (by decide)), readSuffixes.eq_def]
  rfl

theorem accepts_noArguments : Node.Accepts [.sign "(", .sign ")"] (.arguments []) := by
  intro t rest
  rw [readSuffixes.eq_def]
  rfl

theorem accepts_arguments (h : Node.Accepts ls (.items ts)) (hls : ls ≠ [])
    (he : Ends [")"] ls) : Node.Accepts (.sign "(" :: ls ++ [.sign ")"]) (.arguments ts) := by
  intro t rest
  have hr := h (.sign ")" :: rest) (ends_sign (by decide)) (ends_sign (by decide))
  have hn : after? (.sign ")") (ls ++ .sign ")" :: rest) = none := by
    obtain ⟨l, ls, rfl⟩ := List.exists_cons_of_ne_nil hls
    exact after?_ne (fun hl => he ")" (by simp) (by simp [hl])) _
  rw [List.cons_append, List.cons_append, List.append_assoc, List.singleton_append,
    readSuffixes.eq_def, after?_ne (by decide), after?_cons]
  simp [hn, hr]

theorem accepts_lastItem (h : Node.Accepts ls (.expression t)) : Node.Accepts ls (.items [t]) := by
  intro rest hr hc
  rw [readItems.eq_def, h rest hr]
  simp [hc.after? (s := ",") (by simp)]

theorem accepts_item (h : Node.Accepts ls (.expression t)) (h' : Node.Accepts ls' (.items ts)) :
    Node.Accepts (ls ++ .sign "," :: ls') (.items (t :: ts)) := by
  intro rest hr hc
  rw [List.append_assoc, readItems.eq_def, List.cons_append, h _ (ends_sign (by decide))]
  simp [h' rest hr hc]

end Reading

section Uniqueness

variable {ls ls' : List Lexeme} {node : Node} {t t' : Tree}

theorem Phrase.starts {s : String} (h : Phrase ls node) (hs : s ∉ ["(", "[", "-"]) :
    ls ≠ [] ∧ Ends [s] ls := by
  have hopen {o : String} (ho : o ∈ ["(", "[", "-"]) (rest : List Lexeme) :
      Ends [s] (.sign o :: rest) :=
    ends_sign fun hm => hs (List.mem_singleton.1 hm ▸ ho)
  induction h with
  | word w => exact ⟨by simp, ends_word w⟩
  | literal text => exact ⟨by simp, fun _ _ he => by cases he⟩
  | qualified | value | unique | uniqueIn => exact ⟨by simp, ends_word _⟩
  | parenthesized | arguments | noArguments | negative => exact ⟨by simp, hopen (by simp) _⟩
  | readLine | readLineAfter => exact ⟨by simp [functionHead], hopen (by simp) _⟩
  | operand h ih | lastItem h ih | tightest h ih | tighter h ih | simple h ih => exact ih
  | member h name ih => exact ⟨by simp, ih.2.append ih.1 _⟩
  | call h h' ih | item h h' ih | operation h _ h' ih | assign h h' ih =>
    exact ⟨by simp [ih.1], ih.2.append ih.1 _⟩

theorem Phrase.primary_starts (h : Phrase ls (.primary t)) : ls ≠ [] ∧ Ends ["-"] ls := by
  cases h with
  | word | qualified | value | unique | uniqueIn => exact ⟨by simp, ends_word _⟩
  | literal => exact ⟨by simp, fun _ _ he => by cases he⟩
  | parenthesized => exact ⟨by simp, ends_sign (by decide)⟩
  | readLine | readLineAfter => exact ⟨by simp [functionHead], ends_sign (by decide)⟩

theorem Phrase.arguments_ends {ts : List Tree} (h : Phrase ls (.arguments ts)) :
    Ends wordGoesOn ls := by
  cases h <;> exact ends_sign (by decide)

/-- The reader accepts every phrase. -/
theorem Phrase.accepts (h : Phrase ls node) : node.Accepts ls := by
  induction h with
  | word w => exact accepts_word w
  | literal text => exact accepts_literal text
  | qualified h => exact accepts_qualified h
  | value type => exact accepts_value type
  | unique type => exact accepts_unique type
  | uniqueIn space type => exact accepts_uniqueIn space type
  | parenthesized h ih => exact accepts_parenthesized ih
  | readLine => exact accepts_readLine
  | readLineAfter h ih => exact accepts_readLineAfter ih
  | operand h ih => exact accepts_operand ih h.primary_starts.1 h.primary_starts.2
  | negative h ih => exact accepts_negative ih
  | member h name ih => exact accepts_member ih name
  | call h h' ih ih' =>
    intro rest hr
    have hne := (h'.starts (s := ")") (by decide)).1
    rw [List.append_assoc, ih _ (h'.arguments_ends.append hne rest), ih']
  | noArguments => exact accepts_noArguments
  | arguments h ih =>
    obtain ⟨hne, he⟩ := h.starts (s := ")") (by decide)
    exact accepts_arguments ih hne he
  | lastItem h ih => exact accepts_lastItem ih
  | item h rest ih ih' => exact accepts_item ih ih'
  | tightest h ih => exact accepts_tightest ih
  | tighter h ih => exact accepts_tighter fun _ => ih
  | operation h hs h' ih ih' => exact accepts_operation ih hs fun _ => ih'
  | simple h ih => exact accepts_simple ih
  | assign h h' ih ih' => exact accepts_assign ih ih'

/-- The grammar is unambiguous. -/
theorem Phrase.tree_eq (h : Phrase ls (.expression t)) (h' : Phrase ls (.expression t')) :
    t = t' := by
  have hr := h.accepts [] ends_nil
  rw [h'.accepts [] ends_nil] at hr
  cases hr
  rfl

theorem Reads.only {text : String} (h : Reads text t) : ReadsOnly text t := by
  refine ⟨h, fun t' h' => ?_⟩
  obtain ⟨ls, hl, hp⟩ := h
  obtain ⟨ls', hl', hp'⟩ := h'
  cases hl.symm.trans hl'
  exact hp'.tree_eq hp

end Uniqueness

end VnScript.Cpp
