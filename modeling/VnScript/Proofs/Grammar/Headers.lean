import Mathlib.Data.List.Forall2
import VnScript.Proofs.Grammar.Completeness
import VnScript.Proofs.Grammar.Lookahead
import VnScript.Proofs.Tree.Nested
import VnScript.Tree.Equality

namespace VnScript

open Grammar Word

inductive Slot where
  | function | classMethod | instanceMethod | initializer
  deriving DecidableEq

/-- The words that introduce a function: the place that they ask for, its name, and what stands
behind them. -/
structure Header where
  slot : Slot
  name : String
  behind : List Word
  deriving DecidableEq

inductive Mark where
  | space (name : String)
  | type (name : String)
  | header (h : Header)
  | leave

/-- Where words stand: among declarations or members, behind a header, or in a body in which so many
braces are open. -/
inductive Level where
  | declaration
  | signature
  | body (nested : Nat)

def Level.within (nested : Nat) : TokenKind → Level
  | .leftBrace => .body (nested + 1)
  | .rightBrace =>
    match nested with
    | 0 => .declaration
    | outer + 1 => .body outer
  | _ => .body nested

/-- The headers in a text, and where it enters and leaves namespaces and classes. Of a body only the
braces matter. -/
def marks : Level → List Word → List Mark
  | _, [] => []
  | .signature, w :: ws => marks (if w.kind = .leftBrace then .body 0 else .signature) ws
  | .body nested, w :: ws => marks (.within nested w.kind) ws
  | .declaration, ⟨.keyword .funcWord, _⟩ :: ⟨_, name⟩ :: ws =>
    .header ⟨.function, name, ws⟩ :: marks .signature ws
  | .declaration, ⟨.keyword .namespaceWord, _⟩ :: ⟨_, name⟩ :: ws =>
    .space name :: marks .declaration ws
  | .declaration, ⟨.keyword .classWord, _⟩ :: ⟨.dot, _⟩ :: ⟨_, name⟩ :: ws =>
    .header ⟨.classMethod, name, ws⟩ :: marks .signature ws
  | .declaration, ⟨.keyword .classWord, _⟩ :: ⟨_, name⟩ :: ws => .type name :: marks .declaration ws
  | .declaration, ⟨.keyword .instanceWord, _⟩ :: ⟨.dot, _⟩ :: ⟨.keyword .initWord, name⟩ :: ws =>
    .header ⟨.initializer, name, ws⟩ :: marks .signature ws
  | .declaration, ⟨.keyword .instanceWord, _⟩ :: ⟨.dot, _⟩ :: ⟨_, name⟩ :: ws =>
    .header ⟨.instanceMethod, name, ws⟩ :: marks .signature ws
  | .declaration, ⟨.rightBrace, _⟩ :: ws => .leave :: marks .declaration ws
  | .declaration, _ :: ws => marks .declaration ws

section Words

variable {ws ws' : List Word} {w : Word}

def Word.Flat (w : Word) : Prop := w.kind ≠ .leftBrace ∧ w.kind ≠ .rightBrace

theorem Word.flat_ofName (name : String) : (ofName name).Flat := by
  unfold ofName
  split <;> exact ⟨nofun, nofun⟩

theorem Level.within_flat (h : w.Flat) (n : Nat) : within n w.kind = .body n := by
  unfold within
  split
  · next hk => exact absurd hk h.1
  · next hk => exact absurd hk h.2
  · rfl

/-- Words of a body that close the braces that they open. -/
def Balanced (ws : List Word) : Prop :=
  ∀ n rest, marks (.body n) (ws ++ rest) = marks (.body n) rest

namespace Balanced

theorem nil : Balanced [] := fun _ _ => rfl

theorem cons (hw : w.Flat) (h : Balanced ws) : Balanced (w :: ws) := by
  intro n rest
  rw [List.cons_append, marks, Level.within_flat hw, h]

theorem append (h : Balanced ws) (h' : Balanced ws') : Balanced (ws ++ ws') := by
  intro n rest
  rw [List.append_assoc, h, h']

theorem snoc (h : Balanced ws) (hw : w.Flat) : Balanced (ws ++ [w]) := h.append (nil.cons hw)

theorem braces (h : Balanced ws) : Balanced (sym .leftBrace :: ws ++ [sym .rightBrace]) := by
  intro n rest
  rw [List.append_assoc]
  change marks (.body (n + 1)) (ws ++ _) = _
  rw [h]
  rfl

end Balanced

theorem flat_of_some {α : Type} {f : TokenKind → Option α} {a : α}
    (hf : f .leftBrace = none ∧ f .rightBrace = none) (h : f w.kind = some a) : w.Flat := by
  constructor <;> intro hk <;> rw [hk] at h
  · cases hf.1.symm.trans h
  · cases hf.2.symm.trans h

theorem levels_flat :
    ∀ level ∈ levels, level .leftBrace = none ∧ level .rightBrace = none := by decide

theorem ExprPhrase.balanced {node : ExprNode} (h : ExprPhrase ws node) :
    match node with
    | .binary ls _ => (∀ level ∈ ls, level ∈ levels) → Balanced ws
    | _ => Balanced ws := by
  -- The operators of a phrase are those of its levels, and only of the grammar's it is known what
  -- they are.
  induction h with
  | lastItem h ih => exact ih
  | item h rest ih ih' => exact .append ih (.cons ⟨nofun, nofun⟩ ih')
  | noArguments => exact .cons ⟨nofun, nofun⟩ (.cons ⟨nofun, nofun⟩ .nil)
  | arguments h ih => exact .snoc (.cons ⟨nofun, nofun⟩ ih) ⟨nofun, nofun⟩
  | alone => exact .nil
  | freeCall h ih => exact ih
  | member hm | spaceMember hm => exact .cons ⟨nofun, nofun⟩ (.cons (flat_ofName _) .nil)
  | memberCall hm h ih | spaceCall hm h ih => exact .cons ⟨nofun, nofun⟩ (.cons (flat_ofName _) ih)
  | literal hs hl => exact .cons (flat_of_some (f := (literal? · _)) ⟨rfl, rfl⟩ hl) .nil
  | true | false => exact .cons ⟨nofun, nofun⟩ .nil
  | named hn h ih => exact .cons (flat_ofName _) ih
  | create ht h ih => exact .cons ⟨nofun, nofun⟩ (.cons (flat_ofName _) ih)
  | createIn hs ht h ih =>
    refine .cons ⟨nofun, nofun⟩ (.cons (flat_ofName _) ?_)
    exact .cons ⟨nofun, nofun⟩ (.cons (flat_ofName _) ih)
  | classCall hm h ih =>
    exact .cons ⟨nofun, nofun⟩ (.cons ⟨nofun, nofun⟩ (.cons (flat_ofName _) ih))
  | operand h ih => exact fun _ => ih
  | tighter h ih => exact fun hls => ih (List.forall_mem_cons.1 hls).2
  | operation h hw ho h' ih ih' =>
    intro hls
    obtain ⟨hlevel, hlevels⟩ := List.forall_mem_cons.1 hls
    exact .append (ih hls) (.cons (flat_of_some (levels_flat _ hlevel) ho) (ih' hlevels))
  | value h ih => exact ih fun _ hl => hl
  | assign h hw ho h' ih ih' | assignMember h hw ho h' ih ih' =>
    exact .append (ih fun _ hl => hl) (.cons (flat_of_some ⟨rfl, rfl⟩ ho) ih')

theorem Expr.Phrase.balanced {e : Expr} (h : e.Phrase ws) : Balanced ws := ExprPhrase.balanced h

theorem ValuePhrase.balanced {value : Option Expr} (h : ValuePhrase ws value) : Balanced ws := by
  cases h with
  | none => exact .nil
  | some h => exact .cons ⟨nofun, nofun⟩ h.balanced

theorem flat_of_comment (h : w.kind = .comment) : w.Flat := by
  constructor <;> rw [h] <;> nofun

theorem StmtPhrase.balanced {node : StmtNode} (h : StmtPhrase ws node) : Balanced ws := by
  -- Besides its parts a phrase has flat words only, and braces in pairs.
  induction h with
  | nil | noFurther | noCases => exact .nil
  | cons h rest ih ih' => exact ih.append ih'
  | block h ih => exact ih.braces
  | clause he hb ih => exact .append (.cons ⟨nofun, nofun⟩ he.balanced) (.cons ⟨nofun, nofun⟩ ih)
  | elseIf h rest ih ih' => exact .append (.cons ⟨nofun, nofun⟩ ih) ih'
  | elseThenIf h rest ih ih' =>
    exact .append (.cons ⟨nofun, nofun⟩ (.cons ⟨nofun, nofun⟩ ih)) ih'
  | orElse h ih => exact .cons ⟨nofun, nofun⟩ ih
  | declareInitial ht hn hv =>
    exact .cons (flat_of_some ⟨rfl, rfl⟩ ht) (.cons (flat_ofName _) hv.balanced)
  | assignInitial hw he ha => exact he.balanced
  | caseComment hs hw rest ih => exact .cons (flat_of_comment hw) ih
  | case he hb rest ih ih' => exact .append (.append (.cons ⟨nofun, nofun⟩ he.balanced) ih) ih'
  | comment hs hw => exact .cons (flat_of_comment hw) .nil
  | declare ht hn hv =>
    refine .snoc (.cons (flat_of_some ⟨rfl, rfl⟩ ht) ?_) ⟨nofun, nofun⟩
    exact .cons (flat_ofName _) hv.balanced
  | expr he => exact .snoc he.balanced ⟨nofun, nofun⟩
  | ret => exact .cons ⟨nofun, nofun⟩ (.cons ⟨nofun, nofun⟩ .nil)
  | retValue he => exact .snoc (.cons ⟨nofun, nofun⟩ he.balanced) ⟨nofun, nofun⟩
  | conditional h rest ih ih' => exact .append (.cons ⟨nofun, nofun⟩ ih) ih'
  | forLoop hi he hs hb ih ih' =>
    refine .append (.append (.append (.cons ⟨nofun, nofun⟩ (.cons ⟨nofun, nofun⟩ ih)) ?_) ?_) ?_
    · exact .cons ⟨nofun, nofun⟩ he.balanced
    · exact .cons ⟨nofun, nofun⟩ hs.balanced
    · exact .cons ⟨nofun, nofun⟩ ih'
  | forIn hn he hb ih =>
    refine .append (.cons ⟨nofun, nofun⟩ (.cons ⟨nofun, nofun⟩ ?_)) (.cons ⟨nofun, nofun⟩ ih)
    exact .cons (flat_ofName _) (.cons ⟨nofun, nofun⟩ he.balanced)
  | typedForIn ht hn he hb ih =>
    refine .append (.cons ⟨nofun, nofun⟩ (.cons ⟨nofun, nofun⟩ ?_)) (.cons ⟨nofun, nofun⟩ ih)
    refine .cons (flat_of_some ⟨rfl, rfl⟩ ht) (.cons (flat_ofName _) ?_)
    exact .cons ⟨nofun, nofun⟩ he.balanced
  | whileLoop h ih => exact .cons ⟨nofun, nofun⟩ ih
  | doWhile hb he ht ih =>
    refine .append (.append (.cons ⟨nofun, nofun⟩ ih) ?_) ?_
    · exact .cons ⟨nofun, nofun⟩ (.cons ⟨nofun, nofun⟩ he.balanced)
    · obtain rfl | rfl := ht
      · exact .cons ⟨nofun, nofun⟩ .nil
      · exact .cons ⟨nofun, nofun⟩ (.cons ⟨nofun, nofun⟩ .nil)
  | switch he hc ih =>
    have hcases := ih.braces
    have hhead := Balanced.cons (w := key .switchWord) ⟨nofun, nofun⟩
      (.cons (w := sym .leftParen) ⟨nofun, nofun⟩ he.balanced)
    have h := hhead.append (.cons (w := sym .rightParen) ⟨nofun, nofun⟩ hcases)
    simpa using h
  | attempt hb ht hn hh ih ih' =>
    refine .append (.cons ⟨nofun, nofun⟩ ih) ?_
    refine .cons ⟨nofun, nofun⟩ (.cons ⟨nofun, nofun⟩ (.cons (flat_ofName _) ?_))
    exact .cons ⟨nofun, nofun⟩ (.cons ⟨nofun, nofun⟩ (.cons (flat_ofName _) ih'))

theorem marks_signature {ws : List Word} (h : ∀ w ∈ ws, w.Flat) (rest : List Word) :
    marks .signature (ws ++ rest) = marks .signature rest := by
  induction ws with
  | nil => rfl
  | cons w ws ih =>
    obtain ⟨hw, hws⟩ := List.forall_mem_cons.1 h
    rw [List.cons_append, marks, if_neg hw.1, ih hws]

theorem ParameterPhrase.flat {p : Parameter} (h : ParameterPhrase ws p) : ∀ w ∈ ws, w.Flat := by
  have hkey (k : Keyword) : (key k).Flat := ⟨nofun, nofun⟩
  cases h with
  | untyped hn => exact List.forall_mem_singleton.2 (flat_ofName _)
  | auto hn | typed hn =>
    exact List.forall_mem_cons.2 ⟨hkey _, List.forall_mem_singleton.2 (flat_ofName _)⟩

theorem parameters_flat {ps : List Parameter} (h : Enclosed ParameterPhrase ws ps) :
    ∀ w ∈ ws, w.Flat := by
  cases h with
  | empty =>
    exact List.forall_mem_cons.2 ⟨⟨nofun, nofun⟩, List.forall_mem_singleton.2 ⟨nofun, nofun⟩⟩
  | @items ws _ h =>
    have hitems : ∀ w ∈ ws, w.Flat := by
      induction h with
      | last h => exact h.flat
      | cons h rest ih =>
        exact List.forall_mem_append.2 ⟨h.flat, List.forall_mem_cons.2 ⟨⟨nofun, nofun⟩, ih⟩⟩
    exact List.forall_mem_append.2 ⟨List.forall_mem_cons.2 ⟨⟨nofun, nofun⟩, hitems⟩,
      List.forall_mem_singleton.2 ⟨nofun, nofun⟩⟩

theorem SignaturePhrase.marks_eq {ps : List Parameter} {b : List Stmt}
    (h : SignaturePhrase ws ps b) (rest : List Word) :
    marks .signature (ws ++ rest) = marks .declaration rest := by
  cases h with
  | mk hp hb =>
    rw [List.append_assoc, marks_signature (parameters_flat hp)]
    cases hb with
    | block hb =>
      rw [List.append_assoc]
      change marks (.body 0) (_ ++ ([sym .rightBrace] ++ rest)) = _
      rw [hb.balanced]
      rfl

end Words

section Outline

/-- The header introduces this function in this place: the words behind it start with its parameters
and its body. -/
structure Header.Declares (h : Header) (f : Slot × Function) : Prop where
  slot_eq : h.slot = f.1
  name_eq : h.name = f.2.name
  signature : ∃ ws rest ps, h.behind = ws ++ rest ∧ SignaturePhrase ws ps f.2.body ∧
    f.2.parameters = if h.slot = .function then ps else withoutReceiver ps

def ClassDecl.slots (c : ClassDecl) : List (Slot × Function) :=
  c.classMethods.map (.classMethod, ·) ++ c.instanceMethods.map (.instanceMethod, ·) ++
    c.initializer.toList.map (.initializer, ·)

def Declaration.slots : Declaration → List (Slot × Function)
  | .function f => [(.function, f)]
  | .classDecl c => c.slots
  | _ => []

/-- The functions that declarations hold, at any depth. -/
def slotsOf (ds : List Declaration) : List (Slot × Function) :=
  (membersOf ds).flatMap Declaration.slots

def inSlot (slot : Slot) (hs : List Header) : List Header := hs.filter (·.slot = slot)

/-- The class has what these headers introduce, each kind in their order, and the last
initializer. -/
structure ClassDecl.Outlines (hs : List Header) (c : ClassDecl) : Prop where
  members : ∀ h ∈ hs, h.slot ≠ .function
  classMethods : List.Forall₂ Header.Declares (inSlot .classMethod hs)
    (c.classMethods.map (.classMethod, ·))
  instanceMethods : List.Forall₂ Header.Declares (inSlot .instanceMethod hs)
    (c.instanceMethods.map (.instanceMethod, ·))
  initializer : List.Forall₂ Header.Declares (inSlot .initializer hs).getLast?.toList
    (c.initializer.toList.map (.initializer, ·))

/-- The declarations stand in a text as its marks tell. -/
inductive Outlines : List Mark → List Declaration → Prop
  | nil : Outlines [] []
  | function {h : Header} {f : Function} {ms : List Mark} {ds : List Declaration}
      (hf : h.Declares (.function, f)) (rest : Outlines ms ds) :
    Outlines (.header h :: ms) (.function f :: ds)
  | namespaceDecl {name : String} {ms ms' : List Mark} {ds ds' : List Declaration}
      (h : Outlines ms ds) (rest : Outlines ms' ds') :
    Outlines (.space name :: ms ++ .leave :: ms') (.namespaceDecl name ds :: ds')
  | classDecl {c : ClassDecl} {hs : List Header} {ms : List Mark} {ds : List Declaration}
      (h : c.Outlines hs) (rest : Outlines ms ds) :
    Outlines (.type c.name :: hs.map .header ++ .leave :: ms) (.classDecl c :: ds)
  | importDecl {module : String} {ms : List Mark} {ds : List Declaration} (rest : Outlines ms ds) :
    Outlines ms (.importDecl module :: ds)

theorem Outlines.append {ms ms' : List Mark} {ds ds' : List Declaration} (h : Outlines ms ds)
    (h' : Outlines ms' ds') : Outlines (ms ++ ms') (ds ++ ds') := by
  induction h with
  | nil => exact h'
  | function hf rest ih => exact .function hf ih
  | namespaceDecl h rest _ ih =>
    rw [List.append_assoc]
    exact .namespaceDecl h ih
  | classDecl h rest ih =>
    rw [List.append_assoc]
    exact .classDecl h ih
  | importDecl rest ih => exact .importDecl ih

end Outline

section Phrases

variable {ws : List Word}

def Grammar.Member.slot : Member → Slot × Function
  | .initializer f => (.initializer, f)
  | .instanceMethod f => (.instanceMethod, f)
  | .classMethod f => (.classMethod, f)

theorem MemberPhrase.marks_eq {m : Member} (h : MemberPhrase ws m) (rest : List Word) :
    ∃ header : Header, marks .declaration (ws ++ rest) = .header header :: marks .declaration rest ∧
      header.Declares m.slot := by
  cases h with
  | @initializer ws ps b h =>
    refine ⟨⟨.initializer, initializerName, ws ++ rest⟩, ?_, rfl, rfl, ws, rest, ps, rfl, h, rfl⟩
    rw [← h.marks_eq rest]
    rfl
  | @instanceMethod name ws ps b hn h =>
    refine ⟨⟨.instanceMethod, name, ws ++ rest⟩, ?_, rfl, rfl, ws, rest, ps, rfl, h, rfl⟩
    rw [← h.marks_eq rest, ofName_of_isName hn]
    rfl
  | @classMethod name ws ps b hn h =>
    refine ⟨⟨.classMethod, name, ws ++ rest⟩, ?_, rfl, rfl, ws, rest, ps, rfl, h, rfl⟩
    rw [← h.marks_eq rest, ofName_of_isName hn]
    rfl

theorem marks_comment {w : Word} (h : w.kind = .comment) (ws : List Word) :
    marks .declaration (w :: ws) = marks .declaration ws := by
  obtain ⟨kind, lexeme⟩ := w
  obtain rfl : kind = .comment := h
  rfl

theorem members_marks {members : List Member} (h : Commented MemberPhrase ws members)
    (rest : List Word) : ∃ hs : List Header,
      marks .declaration (ws ++ rest) = hs.map .header ++ marks .declaration rest ∧
        List.Forall₂ Header.Declares hs (members.map Member.slot) := by
  induction h with
  | nil => exact ⟨[], rfl, .nil⟩
  | comment hs hw _ ih =>
    rw [List.cons_append, marks_comment hw]
    exact ih
  | @cons ws ws' m members h _ ih =>
    obtain ⟨hs, hmarks, hdeclares⟩ := ih
    obtain ⟨header, hheader, hm⟩ := h.marks_eq (ws' ++ rest)
    exact ⟨header :: hs, by rw [List.append_assoc, hheader, hmarks]; rfl, .cons hm hdeclares⟩

theorem forall₂_inSlot {hs : List Header} {fs : List (Slot × Function)}
    (h : List.Forall₂ Header.Declares hs fs) (slot : Slot) :
    List.Forall₂ Header.Declares (inSlot slot hs) (fs.filter (·.1 = slot)) := by
  refine List.rel_filter (fun header f hf => ?_) h
  change decide (header.slot = slot) = true ↔ decide (f.1 = slot) = true
  rw [hf.slot_eq]

theorem forall₂_getLast? {α β : Type} {R : α → β → Prop} {as : List α} {bs : List β}
    (h : List.Forall₂ R as bs) : List.Forall₂ R as.getLast?.toList bs.getLast?.toList := by
  rw [List.getLast?_eq_head?_reverse, List.getLast?_eq_head?_reverse]
  have hreverse := List.rel_reverse h
  generalize as.reverse = as', bs.reverse = bs' at hreverse
  cases hreverse with
  | nil => exact .nil
  | cons hlast _ => exact .cons hlast .nil

theorem filter_slot {members : List Member} {slot : Slot} {pick : Member → Option Function}
    (hpick : ∀ m, pick m = if m.slot.1 = slot then some m.slot.2 else none) :
    (members.map Member.slot).filter (·.1 = slot) = (members.filterMap pick).map (slot, ·) := by
  induction members with
  | nil => rfl
  | cons m members ih =>
    rw [List.map_cons, List.filter_cons, List.filterMap_cons, hpick]
    by_cases hslot : m.slot.1 = slot
    · have hm : m.slot = (slot, m.slot.2) := Prod.ext hslot rfl
      simp only [hslot, decide_true, if_true, List.map_cons, ih]
      rw [← hm]
    · simp only [hslot, decide_false, if_false, Bool.false_eq_true, ih]

theorem slot_ne_function {hs : List Header} {members : List Member}
    (h : List.Forall₂ Header.Declares hs (members.map Member.slot)) :
    ∀ header ∈ hs, header.slot ≠ .function := by
  have hnone : (members.map Member.slot).filter (·.1 = .function) = [] := by
    rw [List.filter_eq_nil_iff]
    intro f hf
    obtain ⟨m, -, rfl⟩ := List.mem_map.1 hf
    cases m <;> exact of_decide_eq_false rfl
  intro header hmem hslot
  have hfunction := forall₂_inSlot h .function
  rw [hnone] at hfunction
  have hin : header ∈ inSlot .function hs := List.mem_filter.2 ⟨hmem, decide_eq_true hslot⟩
  rw [List.forall₂_nil_right_iff.1 hfunction] at hin
  cases hin

theorem classOfMembers_outlines {hs : List Header} {members : List Member} (name : String)
    (base : Option String) (h : List.Forall₂ Header.Declares hs (members.map Member.slot)) :
    (classOfMembers name base members).Outlines hs := by
  have hclass : (members.map Member.slot).filter (·.1 = .classMethod) =
      (classOfMembers name base members).classMethods.map (.classMethod, ·) :=
    filter_slot fun m => by cases m <;> rfl
  have hinstance : (members.map Member.slot).filter (·.1 = .instanceMethod) =
      (classOfMembers name base members).instanceMethods.map (.instanceMethod, ·) :=
    filter_slot fun m => by cases m <;> rfl
  have hinit : ((members.map Member.slot).filter (·.1 = .initializer)).getLast?.toList =
      (classOfMembers name base members).initializer.toList.map (.initializer, ·) := by
    rw [classOfMembers, ← Option.toList_map, ← List.getLast?_map]
    refine congrArg (fun fs => fs.getLast?.toList) (filter_slot fun m => ?_)
    cases m <;> rfl
  exact ⟨slot_ne_function h, hclass ▸ forall₂_inSlot h .classMethod,
    hinstance ▸ forall₂_inSlot h .instanceMethod,
    hinit ▸ forall₂_getLast? (forall₂_inSlot h .initializer)⟩

theorem ClassPhrase.marks_eq {c : ClassDecl} (h : ClassPhrase ws c) (rest : List Word) :
    ∃ hs : List Header, marks .declaration (ws ++ rest) =
      .type c.name :: hs.map .header ++ .leave :: marks .declaration rest ∧ c.Outlines hs := by
  cases h with
  | @mk name ws ws' base members hn hb hm =>
    obtain ⟨hs, hmarks, hdeclares⟩ := members_marks hm (sym .rightBrace :: rest)
    refine ⟨hs, ?_, classOfMembers_outlines name base hdeclares⟩
    have hinner : marks .declaration (ws' ++ sym .rightBrace :: rest) =
        hs.map .header ++ .leave :: marks .declaration rest := hmarks
    have hwords : key .classWord :: ofName name :: sym .leftParen :: ws ++
        sym .rightParen :: sym .leftBrace :: ws' ++ [sym .rightBrace] ++ rest =
        key .classWord :: ⟨.identifier, name⟩ :: sym .leftParen :: (ws ++
          sym .rightParen :: sym .leftBrace :: (ws' ++ sym .rightBrace :: rest)) := by
      simp [ofName_of_isName hn]
    rw [hwords]
    change _ = Mark.type name :: (hs.map .header ++ .leave :: marks .declaration rest)
    rw [← hinner]
    cases hb with
    | none => rfl
    | some hb =>
      rw [ofName_of_isName hb]
      rfl

theorem PartsPhrase.marks_eq {parts : String} (h : PartsPhrase ws parts) (rest : List Word) :
    marks .declaration (ws ++ rest) = marks .declaration rest := by
  induction h with
  | nil => rfl
  | cons hn _ ih =>
    rw [ofName_of_isName hn]
    exact ih

def DeclNode.trees : DeclNode → List Declaration
  | .declaration d => [d]
  | .declarations ds => ds

theorem DeclPhrase.marks_eq {node : DeclNode} (h : DeclPhrase ws node) (rest : List Word) :
    ∃ ms, marks .declaration (ws ++ rest) = ms ++ marks .declaration rest ∧
      Outlines ms node.trees := by
  -- A header has all the words behind it, so a part is read with what stands behind the whole.
  induction h generalizing rest with
  | nil => exact ⟨[], rfl, .nil⟩
  | comment hs hw _ ih =>
    rw [List.cons_append, marks_comment hw]
    exact ih rest
  | @cons ws ws' d ds h _ ih ih' =>
    obtain ⟨ms, hmarks, houtlines⟩ := ih (ws' ++ rest)
    obtain ⟨ms', hmarks', houtlines'⟩ := ih' rest
    refine ⟨ms ++ ms', ?_, houtlines.append houtlines'⟩
    rw [List.append_assoc, hmarks, hmarks', List.append_assoc]
  | @function name ws ps b hn h =>
    refine ⟨[.header ⟨.function, name, ws ++ rest⟩], ?_, .function ?_ .nil⟩
    · rw [← h.marks_eq rest, ofName_of_isName hn]
      rfl
    · exact ⟨rfl, rfl, ws, rest, ps, rfl, h, rfl⟩
  | @namespaceDecl name ws ds hn h ih =>
    obtain ⟨ms, hmarks, houtlines⟩ := ih (sym .rightBrace :: rest)
    refine ⟨.space name :: ms ++ [.leave], ?_, .namespaceDecl houtlines .nil⟩
    have hinner : marks .declaration (ws ++ sym .rightBrace :: rest) =
        ms ++ .leave :: marks .declaration rest := hmarks
    have hwords : key .namespaceWord :: ofName name :: sym .leftBrace :: ws ++ [sym .rightBrace] ++
        rest = key .namespaceWord :: ofName name :: sym .leftBrace ::
          (ws ++ sym .rightBrace :: rest) := by simp
    have htail : .space name :: ms ++ [.leave] ++ marks .declaration rest =
        .space name :: (ms ++ .leave :: marks .declaration rest) := by simp
    rw [hwords, htail, ← hinner, ofName_of_isName hn]
    rfl
  | classDecl h =>
    obtain ⟨hs, hmarks, houtlines⟩ := h.marks_eq rest
    refine ⟨_, ?_, .classDecl houtlines .nil⟩
    rw [hmarks]
    simp
  | importDecl hn h =>
    refine ⟨[], ?_, .importDecl .nil⟩
    rw [List.append_assoc, ofName_of_isName hn]
    exact h.marks_eq _

end Phrases

section Counting

def Mark.header? : Mark → Option Header
  | .header h => some h
  | _ => none

/-- Whether an initializer stands behind in the same class. -/
def initializerFollows : List Mark → Bool
  | .header h :: ms => h.slot = .initializer || initializerFollows ms
  | _ => false

/-- The initializers with another one behind them in the same class. -/
def overridden : List Mark → List Header
  | [] => []
  | .header h :: ms =>
    if h.slot = .initializer ∧ initializerFollows ms then h :: overridden ms else overridden ms
  | _ :: ms => overridden ms

variable {ms ms' : List Mark} {hs hs' : List Header} {fs fs' : List (Slot × Function)}

theorem initializerFollows_append (ms ms' : List Mark) :
    initializerFollows (ms ++ .leave :: ms') = initializerFollows ms := by
  induction ms with
  | nil => rfl
  | cons m ms ih =>
    cases m with
    | header h => rw [List.cons_append, initializerFollows, initializerFollows, ih]
    | space _ | type _ | leave => rfl

theorem overridden_append (ms ms' : List Mark) :
    overridden (ms ++ .leave :: ms') = overridden ms ++ overridden ms' := by
  induction ms with
  | nil => rfl
  | cons m ms ih =>
    cases m with
    | header h =>
      rw [List.cons_append, overridden, overridden, initializerFollows_append, ih]
      split <;> rfl
    | space _ | type _ | leave => exact ih

theorem initializerFollows_headers (hs : List Header) :
    initializerFollows (hs.map .header) = !(inSlot .initializer hs).isEmpty := by
  induction hs with
  | nil => rfl
  | cons h hs ih =>
    rw [List.map_cons, initializerFollows, ih, inSlot, inSlot, List.filter_cons]
    by_cases hslot : h.slot = .initializer <;> simp [hslot]

/-- Of the initializers of a class all are overridden but the last one. -/
theorem overridden_headers (hs : List Header) :
    overridden (hs.map .header) = (inSlot .initializer hs).dropLast := by
  induction hs with
  | nil => rfl
  | cons h hs ih =>
    rw [List.map_cons, overridden, initializerFollows_headers, ih, inSlot, inSlot, List.filter_cons]
    by_cases hslot : h.slot = .initializer
    · cases hinit : hs.filter (·.slot = .initializer) with
      | nil => simp [hslot]
      | cons h' hs' => simp [hslot]
    · simp [hslot]

/-- The functions are introduced by the headers that no later one overrides. -/
def Accounts (ms : List Mark) (fs : List (Slot × Function)) : Prop :=
  ∃ hs, List.Forall₂ Header.Declares hs fs ∧ (hs ++ overridden ms).Perm (ms.filterMap Mark.header?)

theorem Accounts.append_leave (h : Accounts ms fs) (h' : Accounts ms' fs') :
    Accounts (ms ++ .leave :: ms') (fs ++ fs') := by
  obtain ⟨hs, hdeclares, hperm⟩ := h
  obtain ⟨hs', hdeclares', hperm'⟩ := h'
  refine ⟨hs ++ hs', List.rel_append hdeclares hdeclares', ?_⟩
  rw [overridden_append, List.filterMap_append]
  change List.Perm _ (_ ++ ms'.filterMap Mark.header?)
  refine .trans ?_ (hperm.append hperm')
  rw [List.append_assoc, List.append_assoc]
  exact (List.perm_append_comm_assoc hs' _ _).append_left hs

theorem perm_inSlot (h : ∀ h ∈ hs, h.slot ≠ .function) :
    (inSlot .classMethod hs ++ inSlot .instanceMethod hs ++ inSlot .initializer hs).Perm hs := by
  induction hs with
  | nil => exact .refl []
  | cons header hs ih =>
    obtain ⟨hheader, hrest⟩ := List.forall_mem_cons.1 h
    have hperm := (ih hrest).cons header
    unfold inSlot at hperm ⊢
    cases hslot : header.slot with
    | function => exact absurd hslot hheader
    | classMethod => simpa [hslot] using hperm
    | instanceMethod =>
      refine .trans ?_ hperm
      simp [hslot]
    | initializer =>
      refine .trans ?_ hperm
      rw [List.filter_cons_of_neg (by simp [hslot]), List.filter_cons_of_neg (by simp [hslot]),
        List.filter_cons_of_pos (by simp [hslot])]
      exact List.perm_middle

theorem ClassDecl.Outlines.accounts {c : ClassDecl} (h : c.Outlines hs) :
    Accounts (hs.map .header) c.slots := by
  refine ⟨inSlot .classMethod hs ++ inSlot .instanceMethod hs ++
    (inSlot .initializer hs).getLast?.toList, ?_, ?_⟩
  · exact List.rel_append (List.rel_append h.classMethods h.instanceMethods) h.initializer
  · have hheaders : (hs.map Mark.header).filterMap Mark.header? = hs := by
      rw [List.filterMap_map]
      exact List.filterMap_some
    rw [hheaders, overridden_headers]
    refine .trans ?_ (perm_inSlot h.members)
    rw [List.append_assoc]
    refine List.Perm.append_left _ ?_
    cases hlast : (inSlot .initializer hs).getLast? with
    | none =>
      rw [List.getLast?_eq_none_iff.1 hlast]
      rfl
    | some header =>
      refine List.perm_append_comm.trans ?_
      exact .of_eq (List.dropLast_append_getLast? header hlast)

theorem Outlines.accounts {ds : List Declaration} (h : Outlines ms ds) :
    Accounts ms (slotsOf ds) := by
  induction h with
  | nil => exact ⟨[], .nil, .refl _⟩
  | @function h f ms ds hf rest ih =>
    obtain ⟨hs, hdeclares, hperm⟩ := ih
    have hslot : ¬(h.slot = .initializer ∧ initializerFollows ms) := by
      rw [hf.slot_eq]
      exact fun hinit => nomatch hinit.1
    refine ⟨h :: hs, .cons hf hdeclares, ?_⟩
    rw [overridden, if_neg hslot]
    exact hperm.cons h
  | @namespaceDecl name ms ms' ds ds' h rest ih ih' =>
    have happend := ih.append_leave ih'
    rw [slotsOf, membersOf, List.flatMap_append]
    exact happend
  | @classDecl c hs ms ds h rest ih =>
    have happend := h.accounts.append_leave ih
    exact happend
  | importDecl rest ih => exact ih

/-- The declarations of a program stand in its text as the headers there tell: every function, class
method and instance method is introduced by a header of its own, in the same order, and what is read
behind the header is what the tree has. Of the initializers of a class the tree has only the last
one, and that is all that gets lost: functions and headers correspond one to one exactly if no class
writes two initializers. -/
theorem parse_keeps_functions (source : String) (p : Program) (h : parse source = .ok p) :
    let ms := marks .declaration (Scan.ofString source).words
    let headers := ms.filterMap Mark.header?
    Outlines ms p.declarations ∧
    (∃ hs, List.Forall₂ Header.Declares hs (slotsOf p.declarations) ∧
      (hs ++ overridden ms).Perm headers) ∧
    ((∃ hs, List.Forall₂ Header.Declares hs (slotsOf p.declarations) ∧ hs.Perm headers) ↔
      overridden ms = []) := by
  intro ms headers
  rw [parse_eq] at h
  have hphrase := (Scan.phrase_of_parse (Scan.lexed_ofString source) h).2
  obtain ⟨ms', hmarks, houtlines⟩ := DeclPhrase.marks_eq hphrase []
  rw [List.append_nil] at hmarks
  obtain rfl : ms = ms' := hmarks.trans (List.append_nil _)
  have houtlines : Outlines ms p.declarations := houtlines
  obtain ⟨hs, hdeclares, hperm⟩ := houtlines.accounts
  refine ⟨houtlines, ⟨hs, hdeclares, hperm⟩, ?_, ?_⟩
  · rintro ⟨hs', hdeclares', hperm'⟩
    -- Both pairings have as many headers as functions, which leaves none to be overridden.
    have htotal : hs.length + (overridden ms).length = hs'.length := by
      rw [← List.length_append, hperm.length_eq]
      exact hperm'.length_eq.symm
    rw [hdeclares.length_eq, hdeclares'.length_eq] at htotal
    exact List.eq_nil_of_length_eq_zero (by omega)
  · intro hnone
    rw [hnone, List.append_nil] at hperm
    exact ⟨hs, hdeclares, hperm⟩

def mixedSource : String :=
  "namespace n \x7b class C() \x7b instance.b() \x7b instance.init = 1; \x7d | init\n " ++
  "class.m() \x7b \x7d instance.init(instance) \x7b \x7d \x7d \x7d func f() \x7b \x7d"

def mixedProgram : Program :=
  ⟨[.namespaceDecl "n" [.classDecl ⟨"C", none, [⟨none, "m", [], []⟩],
      [⟨none, "b", [], [.expr (.assignMember (.identifier instanceName) "init" (.integer 1))]⟩],
      some ⟨none, "init", [], []⟩⟩],
    .function ⟨none, "f", [], []⟩]⟩

theorem mixedProgram_keeps : parse mixedSource = .ok mixedProgram ∧
    let ms := marks .declaration (Scan.ofString mixedSource).words
    (ms.filterMap Mark.header?).map (fun h => (h.slot, h.name)) =
      [(.instanceMethod, "b"), (.classMethod, "m"), (.initializer, "init"), (.function, "f")] ∧
    ∃ hs, List.Forall₂ Header.Declares hs (slotsOf mixedProgram.declarations) ∧
      hs.Perm (ms.filterMap Mark.header?) := by
  have h : parse mixedSource = .ok mixedProgram := by decide +kernel
  obtain ⟨-, -, hone⟩ := parse_keeps_functions mixedSource mixedProgram h
  exact ⟨h, by decide +kernel, hone.2 (by decide +kernel)⟩

def initializedTwice : Program :=
  ⟨[.classDecl ⟨"C", none, [], [], some ⟨none, "init", [⟨"a", none⟩], []⟩⟩]⟩

/-- The first of two initializers is in the text and not in the tree. -/
theorem first_initializer_lost :
    let source := "class C() \x7b instance.init() \x7b \x7d instance.init(a) \x7b \x7d \x7d"
    parse source = .ok initializedTwice ∧
      ¬∃ hs, List.Forall₂ Header.Declares hs (slotsOf initializedTwice.declarations) ∧
        hs.Perm ((marks .declaration (Scan.ofString source).words).filterMap Mark.header?) := by
  intro source
  refine ⟨by decide +kernel, ?_⟩
  rintro ⟨hs, hdeclares, hperm⟩
  have htree : hs.length = 1 := hdeclares.length_eq
  have htext : ((marks .declaration (Scan.ofString source).words).filterMap
      Mark.header?).length = 2 := by decide +kernel
  rw [← hperm.length_eq, htree] at htext
  cases htext

end Counting

end VnScript
