import VnScript.Proofs.Cpp.ClosedUnit
import VnScript.Proofs.Cpp.Declared
import VnScript.Proofs.Tree.Comments

namespace VnScript

section Table

mutual

theorem Stmt.selfAssignments_withoutComments :
    (s : Stmt) → s.withoutComments.selfAssignments = s.selfAssignments
  | .conditional clause => clause.selfAssignments_withoutComments
  | .forLoop _ _ _ body | .forIn _ _ _ body | .whileLoop _ body | .doWhile body _ =>
    blockSelfAssignments_withoutComments body
  | .switch _ cases => casesSelfAssignments_withoutComments cases
  | .attempt body _ _ handler =>
    congrArg₂ (· ++ ·) (blockSelfAssignments_withoutComments body)
      (blockSelfAssignments_withoutComments handler)
  | .comment _ | .declare _ _ _ | .expr _ | .ret _ => rfl

theorem blockSelfAssignments_withoutComments : (ss : List Stmt) →
    blockSelfAssignments (blockWithoutComments ss) = blockSelfAssignments ss
  | [] => rfl
  | s :: rest => by
    have hrest := blockSelfAssignments_withoutComments rest
    cases s with
    | comment _ => exact hrest
    | _ => exact congrArg₂ (· ++ ·) (Stmt.selfAssignments_withoutComments _) hrest

theorem Conditional.selfAssignments_withoutComments : (c : Conditional) →
    c.withoutComments.selfAssignments = c.selfAssignments
  | .mk _ body elseIfs none =>
    congrArg (· ++ []) (congrArg₂ (· ++ ·) (blockSelfAssignments_withoutComments body)
      (clausesSelfAssignments_withoutComments elseIfs))
  | .mk _ body elseIfs (some b) =>
    congrArg₂ (· ++ ·)
      (congrArg₂ (· ++ ·) (blockSelfAssignments_withoutComments body)
        (clausesSelfAssignments_withoutComments elseIfs))
      (blockSelfAssignments_withoutComments b)

theorem clausesSelfAssignments_withoutComments : (cs : List Conditional) →
    clausesSelfAssignments (clausesWithoutComments cs) = clausesSelfAssignments cs
  | [] => rfl
  | .mk _ body _ _ :: rest =>
    congrArg₂ (· ++ ·) (blockSelfAssignments_withoutComments body)
      (clausesSelfAssignments_withoutComments rest)

theorem casesSelfAssignments_withoutComments : (cs : List Case) →
    casesSelfAssignments (casesWithoutComments cs) = casesSelfAssignments cs
  | [] => rfl
  | .mk _ body :: rest =>
    congrArg₂ (· ++ ·) (blockSelfAssignments_withoutComments body)
      (casesSelfAssignments_withoutComments rest)

end

mutual

theorem Stmt.firstReturned_withoutComments :
    (s : Stmt) → s.withoutComments.firstReturned = s.firstReturned
  | .conditional clause => clause.firstReturned_withoutComments
  | .forLoop _ _ _ body | .forIn _ _ _ body | .whileLoop _ body | .doWhile body _ =>
    blockFirstReturned_withoutComments body
  | .switch _ cases => casesFirstReturned_withoutComments cases
  | .attempt body _ _ handler =>
    congrArg₂ Option.or (blockFirstReturned_withoutComments body)
      (blockFirstReturned_withoutComments handler)
  | .comment _ | .declare _ _ _ | .expr _ | .ret _ => rfl

theorem blockFirstReturned_withoutComments : (ss : List Stmt) →
    blockFirstReturned (blockWithoutComments ss) = blockFirstReturned ss
  | [] => rfl
  | s :: rest => by
    have hrest := blockFirstReturned_withoutComments rest
    cases s with
    | comment _ => exact hrest
    | _ => exact congrArg₂ Option.or (Stmt.firstReturned_withoutComments _) hrest

theorem Conditional.firstReturned_withoutComments : (c : Conditional) →
    c.withoutComments.firstReturned = c.firstReturned
  | .mk _ body elseIfs none =>
    congrArg (Option.or · none) (congrArg₂ Option.or (blockFirstReturned_withoutComments body)
      (clausesFirstReturned_withoutComments elseIfs))
  | .mk _ body elseIfs (some b) =>
    congrArg₂ Option.or
      (congrArg₂ Option.or (blockFirstReturned_withoutComments body)
        (clausesFirstReturned_withoutComments elseIfs))
      (blockFirstReturned_withoutComments b)

theorem clausesFirstReturned_withoutComments : (cs : List Conditional) →
    clausesFirstReturned (clausesWithoutComments cs) = clausesFirstReturned cs
  | [] => rfl
  | .mk _ body _ _ :: rest =>
    congrArg₂ Option.or (blockFirstReturned_withoutComments body)
      (clausesFirstReturned_withoutComments rest)

theorem casesFirstReturned_withoutComments : (cs : List Case) →
    casesFirstReturned (casesWithoutComments cs) = casesFirstReturned cs
  | [] => rfl
  | .mk _ body :: rest =>
    congrArg₂ Option.or (blockFirstReturned_withoutComments body)
      (casesFirstReturned_withoutComments rest)

end

namespace Cpp

theorem methodResult_withoutComments (f : Function) :
    methodResult f.withoutComments = methodResult f := by
  simp only [methodResult, Function.withoutComments, blockFirstReturned_withoutComments]

theorem methodFields_withoutComments (f : Function) :
    methodFields f.withoutComments = methodFields f := by
  simp only [methodFields, Function.withoutComments, blockSelfAssignments_withoutComments]

theorem classFields_withoutComments (c : ClassDecl) :
    classFields c.withoutComments = classFields c := by
  simp only [classFields, ClassDecl.withoutComments, Option.toList_map, ← List.map_append,
    List.flatMap_map, methodFields_withoutComments]

mutual

theorem classInfos_withoutComments :
    (d : Declaration) → classInfos d.withoutComments.bind = classInfos d.bind
  | .classDecl c => by
    have hfields := classFields_withoutComments c.bind
    rw [← ClassDecl.withoutComments_bind] at hfields
    exact congrArg (fun fields => [ClassInfo.mk c.name c.base fields]) hfields
  | .namespaceDecl _ ds => allClassInfos_withoutComments ds
  | .function _ | .importDecl _ => rfl

theorem allClassInfos_withoutComments : (ds : List Declaration) →
    allClassInfos (bindDeclarations (declarationsWithoutComments ds)) =
      allClassInfos (bindDeclarations ds)
  | [] => rfl
  | d :: rest =>
    congrArg₂ (· ++ ·) (classInfos_withoutComments d) (allClassInfos_withoutComments rest)

end

theorem ClassTable.ofProgram_withoutComments (p : Program) :
    ClassTable.ofProgram p.withoutComments.bind = ClassTable.ofProgram p.bind :=
  congrArg (fun infos => ClassTable.mk infos.reverse) (allClassInfos_withoutComments p.declarations)

end Cpp

end Table

namespace Cpp

/-- Code with notes put between its lines, each note on a line of its own. -/
inductive Annotated {α β : Type} (IsNote : α → β → Prop) : List α → List β → List β → Prop
  | none : Annotated IsNote [] [] []
  | code (line : β) {notes : List α} {code annotated : List β}
    (rest : Annotated IsNote notes code annotated) :
    Annotated IsNote notes (line :: code) (line :: annotated)
  | note {note : α} {line : β} {notes : List α} {code annotated : List β}
    (first : IsNote note line) (rest : Annotated IsNote notes code annotated) :
    Annotated IsNote (note :: notes) code (line :: annotated)

section Annotation

variable {α β γ : Type} {IsNote : α → β → Prop} {notes notes' : List α}
  {code code' annotated annotated' : List β}

theorem annotated_self (code : List β) : Annotated IsNote [] code code := by
  induction code with
  | nil => exact .none
  | cons line rest ih => exact .code line ih

theorem Annotated.append (h : Annotated IsNote notes code annotated)
    (h' : Annotated IsNote notes' code' annotated') :
    Annotated IsNote (notes ++ notes') (code ++ code') (annotated ++ annotated') := by
  induction h with
  | none => exact h'
  | code line _ ih => exact .code line ih
  | note first _ ih => exact .note first ih

theorem Annotated.map {IsNote' : α → γ → Prop} {f : β → γ}
    (h : Annotated IsNote notes code annotated)
    (hf : ∀ note ∈ notes, ∀ line, IsNote note line → IsNote' note (f line)) :
    Annotated IsNote' notes (code.map f) (annotated.map f) := by
  induction h with
  | none => exact .none
  | code line _ ih => exact .code (f line) (ih hf)
  | note first _ ih =>
    obtain ⟨hnote, hnotes⟩ := List.forall_mem_cons.1 hf
    exact .note (hnote _ first) (ih hnotes)

/-- What passes over every note sees the code only. -/
theorem Annotated.filter_eq {keep : β → Bool} (h : Annotated IsNote notes code annotated)
    (hk : ∀ note ∈ notes, ∀ line, IsNote note line → keep line = false) :
    annotated.filter keep = code.filter keep := by
  induction h with
  | none => rfl
  | code line _ ih => rw [List.filter_cons, List.filter_cons, ih hk]
  | note first _ ih =>
    obtain ⟨hnote, hnotes⟩ := List.forall_mem_cons.1 hk
    rw [List.filter_cons_of_neg (Bool.eq_false_iff.1 (hnote _ first)), ih hnotes]

theorem Annotated.length_eq (h : Annotated IsNote notes code annotated) :
    annotated.length = code.length + notes.length := by
  induction h with
  | none => rfl
  | code line _ ih => simp only [List.length_cons, ih, Nat.add_right_comm]
  | note first _ ih => simp only [List.length_cons, ih, Nat.add_assoc]

theorem Annotated.code_subset (h : Annotated IsNote notes code annotated) : code ⊆ annotated := by
  induction h with
  | none => exact List.Subset.refl _
  | code line _ ih => exact List.cons_subset_cons line ih
  | note first _ ih => exact List.subset_cons_of_subset _ ih

theorem Annotated.forall_mem {P : β → Prop} (h : Annotated IsNote notes code annotated)
    (hc : ∀ line ∈ code, P line) (hn : ∀ note ∈ notes, ∀ line, IsNote note line → P line) :
    ∀ line ∈ annotated, P line := by
  induction h with
  | none => exact nofun
  | code line _ ih =>
    obtain ⟨hline, hcode⟩ := List.forall_mem_cons.1 hc
    exact List.forall_mem_cons.2 ⟨hline, ih hcode hn⟩
  | note first _ ih =>
    obtain ⟨hnote, hnotes⟩ := List.forall_mem_cons.1 hn
    exact List.forall_mem_cons.2 ⟨hnote _ first, ih hc hnotes⟩

theorem Annotated.exists_line (h : Annotated IsNote notes code annotated) {note : α}
    (hn : note ∈ notes) : ∃ line ∈ annotated, IsNote note line := by
  induction h with
  | none => cases hn
  | code line _ ih =>
    obtain ⟨line', hl, hnote⟩ := ih hn
    exact ⟨line', List.mem_cons_of_mem _ hl, hnote⟩
  | note first _ ih =>
    obtain rfl | hn := List.mem_cons.1 hn
    · exact ⟨_, List.mem_cons_self, first⟩
    · obtain ⟨line', hl, hnote⟩ := ih hn
      exact ⟨line', List.mem_cons_of_mem _ hl, hnote⟩

end Annotation

section Lines

variable {indent : Nat} {a b : String} {notes notes' : List String}
  {lines lines' code code' annotated annotated' : List Line}

/-- A line with this text does not go on on the next one. -/
def Ended (text : String) : Prop := text.toList.getLast? ≠ some '\\'
  deriving Decidable

def IsComment (text : String) (l : Line) : Prop := ∃ indent, l = ⟨indent, "// " ++ text⟩

structure Interleaves (notes : List String) (code annotated : List Line) : Prop where
  annotated : Annotated IsComment notes code annotated
  ended : ∀ l ∈ code, Ended l.text

theorem interleaves_nil : Interleaves [] [] [] := ⟨.none, nofun⟩

theorem Interleaves.append (h : Interleaves notes code annotated)
    (h' : Interleaves notes' code' annotated') :
    Interleaves (notes ++ notes') (code ++ code') (annotated ++ annotated') where
  annotated := h.annotated.append h'.annotated
  ended := List.forall_mem_append.2 ⟨h.ended, h'.ended⟩

theorem Interleaves.line (ha : Ended a) (indent : Nat) (h : Interleaves notes code annotated) :
    Interleaves notes (⟨indent, a⟩ :: code) (⟨indent, a⟩ :: annotated) where
  annotated := .code _ h.annotated
  ended := List.forall_mem_cons.2 ⟨ha, h.ended⟩

theorem Interleaves.comment (text : String) (indent : Nat) (h : Interleaves notes code annotated) :
    Interleaves (text :: notes) code (⟨indent, "// " ++ text⟩ :: annotated) where
  annotated := .note ⟨indent, rfl⟩ h.annotated
  ended := h.ended

theorem interleaves_line (ha : Ended a) (indent : Nat) :
    Interleaves [] [⟨indent, a⟩] [⟨indent, a⟩] := interleaves_nil.line ha indent

theorem interleaves_ite {c : Prop} [Decidable c] (h : Interleaves [] lines lines)
    (h' : Interleaves [] lines' lines') :
    Interleaves [] (if c then lines else lines') (if c then lines else lines') := by
  split
  · exact h
  · exact h'

theorem Interleaves.before (h : Interleaves notes code annotated)
    (h' : Interleaves [] lines lines) : Interleaves notes (code ++ lines) (annotated ++ lines) := by
  have hall := h.append h'
  rwa [List.append_nil] at hall

theorem ended_append (hn : b ≠ "") (h : Ended b) : Ended (a ++ b) := by
  rw [Ended, String.toList_append, List.getLast?_append]
  rw [Ended] at h
  cases hb : b.toList.getLast? with
  | none => exact absurd (String.toList_eq_nil_iff.1 (List.getLast?_eq_none_iff.1 hb)) hn
  | some c => rwa [hb] at h

theorem ended_of_not_mem (ha : '\\' ∉ a.toList) (hb : '\\' ∉ b.toList) : Ended (a ++ b) := by
  intro he
  have hm := List.mem_of_getLast? he
  rw [String.toList_append, List.mem_append] at hm
  exact hm.elim ha hb

theorem Interleaves.block (ha : Ended a) (h : Interleaves notes code annotated) (hb : Ended b) :
    Interleaves notes (⟨indent, a⟩ :: code ++ [⟨indent, b⟩])
      (⟨indent, a⟩ :: annotated ++ [⟨indent, b⟩]) :=
  (h.line ha indent).before (interleaves_line hb indent)

end Lines

section Generation

variable {α β : Type} {R : α → α → Prop} {S : β → β → Prop}

/-- Two generations end in the same scope, with results that `R` relates. -/
def Alike (R : α → α → Prop) (g g' : Gen α) : Prop :=
  ∀ placeholder s,
    (g placeholder s).2 = (g' placeholder s).2 ∧ R (g placeholder s).1 (g' placeholder s).1

theorem Alike.pure {a a' : α} (h : R a a') : Alike R (Pure.pure a) (Pure.pure a') :=
  fun _ _ => ⟨rfl, h⟩

theorem Alike.bind {g g' : Gen α} {f f' : α → Gen β} (hg : Alike R g g')
    (hf : ∀ a a', R a a' → Alike S (f a) (f' a')) : Alike S (g >>= f) (g' >>= f') := by
  intro placeholder s
  obtain ⟨hscope, ha⟩ := hg placeholder s
  change (f _ placeholder (g placeholder s).2).2 = _ ∧ S (f _ placeholder (g placeholder s).2).1 _
  rw [hscope]
  exact hf _ _ ha placeholder (g' placeholder s).2

theorem Alike.after (g : Gen α) {f f' : α → Gen β} (hf : ∀ a, Alike S (f a) (f' a)) :
    Alike S (g >>= f) (g >>= f') := fun placeholder s =>
  hf (g placeholder s).1 placeholder (g placeholder s).2

theorem Alike.inBlock {g g' : Gen α} (names : List String) (hg : Alike R g g') :
    Alike R (inBlock names g) (inBlock names g') := by
  intro placeholder s
  obtain ⟨hscope, ha⟩ := hg placeholder { s with blocks := names :: s.blocks }
  exact ⟨congrArg (fun t : Scope => { t with blocks := s.blocks }) hscope, ha⟩

end Generation

section Statements

variable {classes : List String} {inMain : Bool} {indent : Nat}

theorem ended_semicolon (text : String) : Ended (text ++ ";") :=
  ended_append (by decide) (by decide)

theorem ended_called (text : String) : Ended (text ++ ");") :=
  ended_append (by decide) (by decide)

theorem ended_head (text : String) : Ended (text ++ ") \x7b") :=
  ended_append (by decide) (by decide)

theorem ended_close : Ended "\x7d" := by decide

theorem interleaves_return (value : Option Expr) :
    Interleaves [] (returnLines classes inMain indent value)
      (returnLines classes inMain indent value) := by
  have hzero := interleaves_line (a := "return 0;") (by decide) indent
  cases inMain with
  | true =>
    cases value with
    | none => exact hzero
    | some _ => exact hzero.line (ended_called _) indent
  | false =>
    cases value with
    | none => exact interleaves_line (by decide) indent
    | some _ => exact interleaves_line (ended_semicolon _) indent

theorem interleaves_noMatch (indent : Nat) (name : String) (first : Bool) :
    Interleaves [] (noMatchLines indent name first) (noMatchLines indent name first) := by
  have hopen : Ended (if first then "\x7b" else "else \x7b") := by
    cases first <;> decide
  have hend := interleaves_line ended_close indent
  have hthrow := hend.line (a := "throw vn_error(\"ValueError\", " ++
    "\"No case matches switch value \" + vn_to_string(" ++ name ++ "));")
    (ended_append (by decide) (by decide)) (indent + 1)
  exact hthrow.line hopen indent

theorem interleaves_catch (indent : Nat) (caught errorType binding : String) :
    Interleaves [] (catchLines indent caught errorType binding)
      (catchLines indent caught errorType binding) := by
  have hclose := interleaves_line ended_close (indent + 1)
  have hthrow := hclose.line (a := "throw;") (by decide) (indent + 2)
  have hbinding := interleaves_line (a := "std::string " ++ mangle binding ++ " = " ++ caught ++
    ".what();") (ended_append (by decide) (by decide)) (indent + 1)
  have hcheck : Ended ("if (!vn_error_is(" ++ caught ++ ", " ++ Text.quoted errorType ++
      ")) \x7b") := ended_append (by decide) (by decide)
  have hfilter := interleaves_ite (c := errorType = "Error") interleaves_nil
    (hthrow.line hcheck (indent + 1))
  exact (hfilter.line (ended_head _) indent).append hbinding

theorem interleaves_conditional {a : String} {notes₁ notes₂ notes₃ : List String}
    {inner inner' further further' last last' : List Line} (ha : Ended a)
    (hinner : Interleaves notes₁ inner inner') (hfurther : Interleaves notes₂ further further')
    (hlast : Interleaves notes₃ last last') :
    Interleaves (notes₁ ++ notes₂ ++ notes₃)
      (⟨indent, a⟩ :: inner ++ further ++ last ++ [⟨indent, "\x7d"⟩])
      (⟨indent, a⟩ :: inner' ++ further' ++ last' ++ [⟨indent, "\x7d"⟩]) := by
  have hall := ((hinner.line ha indent).append hfurther).append hlast
  exact hall.before (interleaves_line ended_close indent)

theorem alike_simpleLine (s : Stmt) :
    Alike (Interleaves []) (simpleLine classes indent s) (simpleLine classes indent s) :=
  Alike.after _ fun text => .pure (interleaves_line (ended_semicolon text) indent)

end Statements

end Cpp

section Blocks

variable {E : Expr → Prop} {classes : List String} {inMain : Bool}

open Cpp

mutual

/-- Comments add lines of their own to those of a statement, and leave the scope as it is. -/
theorem Stmt.lines_annotated (indent : Nat) : (s : Stmt) → s.WellFormed E → s.isComment = false →
    Alike (Interleaves s.comments) (s.withoutComments.lines classes inMain indent)
      (s.lines classes inMain indent)
  | .comment _, _, hc => Bool.noConfusion hc
  | .declare _ _ _, _, _ => alike_simpleLine _
  | .expr _, _, _ => alike_simpleLine _
  | .ret value, _, _ => .pure (interleaves_return value)
  | .conditional clause, h, _ => clause.lines_annotated indent h
  | .forLoop initial _ _ body, h, _ => by
    obtain ⟨hi, -, -, -, hbody⟩ := h
    rw [Stmt.withoutComments, hi.withoutComments, Stmt.comments, hi.comments, List.nil_append]
    refine .inBlock _ (.after _ fun first => ?_)
    refine (Alike.inBlock _ (blockLines_annotated _ body hbody)).bind fun _ _ hinner => .pure ?_
    exact hinner.block (ended_head _) ended_close
  | .forIn name _ _ body, h, _ => by
    have hinner := Alike.inBlock [] (blockLines_annotated (indent + 1) body h.2.2)
    exact (Alike.inBlock [name] hinner).bind fun _ _ hinner =>
      .pure (hinner.block (ended_head _) ended_close)
  | .whileLoop _ body, h, _ =>
    (Alike.inBlock _ (blockLines_annotated _ body h.2)).bind fun _ _ hinner =>
      .pure (hinner.block (ended_head _) ended_close)
  | .doWhile body _, h, _ =>
    (Alike.inBlock _ (blockLines_annotated _ body h.1)).bind fun _ _ hinner =>
      .pure (hinner.block (by decide) (ended_called _))
  | .switch subject cases, h, _ => by
    refine .after _ fun number => ?_
    refine (caseLines_annotated (indent + 1) _ "if" cases h.2).bind fun _ _ hinner => .pure ?_
    rw [casesWithoutComments_isEmpty]
    have hopen : Ended "\x7b" := by decide
    have hnone := hinner.before
      (interleaves_noMatch (indent + 1) ("vn_switch_" ++ toString number) cases.isEmpty)
    have hkept := hnone.line (ended_semicolon ("const auto " ++
      ("vn_switch_" ++ toString number) ++ " = " ++ subject.ownedCpp classes)) (indent + 1)
    exact (hkept.line hopen indent).before (interleaves_line ended_close indent)
  | .attempt body errorType binding handler, h, _ => by
    obtain ⟨hbody, -, -, hhandler⟩ := h
    refine .after _ fun number => ?_
    refine (Alike.inBlock _ (blockLines_annotated _ body hbody)).bind fun _ _ hinner => ?_
    refine (Alike.inBlock _ (.inBlock _ (blockLines_annotated _ handler hhandler))).bind
      fun _ _ hafter => .pure ?_
    have hbegin := hinner.line (a := "try \x7b") (by decide) indent
    have hcatch :=
      hbegin.before (interleaves_catch indent ("vn_caught_" ++ toString number) errorType binding)
    exact (hcatch.append hafter).before (interleaves_line ended_close indent)

theorem blockLines_annotated (indent : Nat) : (ss : List Stmt) → blockWellFormed E ss →
    Alike (Interleaves (blockComments ss))
      (blockLines classes inMain indent (blockWithoutComments ss))
      (blockLines classes inMain indent ss)
  | [], _ => .pure interleaves_nil
  | s :: rest, h => by
    have hrest := blockLines_annotated indent rest h.2
    by_cases hs : s.isComment = true
    · obtain ⟨text, rfl⟩ := s.eq_comment_of hs
      intro placeholder scope
      obtain ⟨hscope, hlines⟩ := hrest placeholder scope
      exact ⟨hscope, hlines.comment text indent⟩
    · rw [blockWithoutComments, if_neg hs]
      have hfirst := s.lines_annotated indent h.1 (Bool.eq_false_iff.2 hs)
      exact hfirst.bind fun _ _ hfirst => hrest.bind fun _ _ hrest => .pure (hfirst.append hrest)

theorem Conditional.lines_annotated (indent : Nat) : (c : Conditional) → c.WellFormed E →
    Alike (Interleaves c.comments) (c.withoutComments.lines classes inMain indent)
      (c.lines classes inMain indent)
  | .mk condition body elseIfs none, h => by
    refine (Alike.inBlock _ (blockLines_annotated _ body h.2.1)).bind fun _ _ hinner => ?_
    refine (clauseLines_annotated _ elseIfs h.2.2.1).bind fun _ _ hfurther => .pure ?_
    exact interleaves_conditional (ended_head _) hinner hfurther interleaves_nil
  | .mk _ body elseIfs (some b), h => by
    refine (Alike.inBlock _ (blockLines_annotated _ body h.2.1)).bind fun _ _ hinner => ?_
    refine (clauseLines_annotated _ elseIfs h.2.2.1).bind fun _ _ hfurther => ?_
    refine (Alike.inBlock _ (blockLines_annotated _ b h.2.2.2)).bind fun _ _ hlast => .pure ?_
    have helse : Ended "\x7d else \x7b" := by decide
    exact interleaves_conditional (ended_head _) hinner hfurther (hlast.line helse indent)

theorem clauseLines_annotated (indent : Nat) : (cs : List Conditional) → clausesWellFormed E cs →
    Alike (Interleaves (clausesComments cs))
      (clauseLines classes inMain indent (clausesWithoutComments cs))
      (clauseLines classes inMain indent cs)
  | [], _ => .pure interleaves_nil
  | .mk condition body elseIfs orElse :: rest, h => by
    obtain ⟨⟨-, hbody, rfl, rfl⟩, hrest⟩ := h
    refine (Alike.inBlock _ (blockLines_annotated _ body hbody)).bind fun _ _ hinner => ?_
    refine (clauseLines_annotated indent rest hrest).bind fun _ _ hfurther => .pure ?_
    rw [clausesComments, Conditional.comments, clausesComments, List.append_nil, List.append_nil]
    exact (hinner.line (ended_head _) indent).append hfurther

theorem caseLines_annotated (indent : Nat) (subject word : String) : (cs : List Case) →
    casesWellFormed E cs →
    Alike (Interleaves (casesComments cs))
      (caseLines classes inMain indent subject word (casesWithoutComments cs))
      (caseLines classes inMain indent subject word cs)
  | [], _ => .pure interleaves_nil
  | .mk _ body :: rest, h => by
    refine (Alike.inBlock _ (blockLines_annotated _ body h.1.2)).bind fun _ _ hinner => ?_
    refine (caseLines_annotated indent subject "else if" rest h.2).bind fun _ _ hfurther => .pure ?_
    exact (hinner.line (ended_head _) indent).append (hfurther.line ended_close indent)

end

end Blocks

namespace Cpp

section BaseCall

variable {base : String}

theorem baseCall_withoutComments (s : Stmt) :
    baseCall? base s.withoutComments = baseCall? base s := by
  cases s <;> rfl

theorem takeBaseCall_withoutComments (ss : List Stmt) :
    takeBaseCall base (blockWithoutComments ss) =
      ((takeBaseCall base ss).1, blockWithoutComments (takeBaseCall base ss).2) := by
  induction ss with
  | nil => rfl
  | cons s rest ih =>
    by_cases hs : s.isComment = true
    · obtain ⟨text, rfl⟩ := s.eq_comment_of hs
      exact ih
    · rw [blockWithoutComments, if_neg hs, takeBaseCall, takeBaseCall, baseCall_withoutComments, ih]
      cases baseCall? base s with
      | some arguments => rfl
      | none => rw [blockWithoutComments, if_neg hs]

theorem blockComments_takeBaseCall (base : String) (ss : List Stmt) :
    blockComments (takeBaseCall base ss).2 = blockComments ss := by
  induction ss with
  | nil => rfl
  | cons s rest ih =>
    rw [takeBaseCall]
    cases hs : baseCall? base s with
    | some arguments =>
      obtain ⟨receiver, name, rfl⟩ := baseCall_of_some hs
      rfl
    | none => exact congrArg (s.comments ++ ·) ih

end BaseCall

section Functions

variable {E : Expr → Prop} {classes : List String} {qualifier : String} {f : Function}

theorem functionLines_annotated (h : f.WellFormed E) :
    Alike (Interleaves f.comments) (functionLines classes f.withoutComments)
      (functionLines classes f) := by
  refine (Alike.inBlock _ (blockLines_annotated 1 f.body h.body)).bind fun _ _ hbody => .pure ?_
  have hmain := (interleaves_line (a := "std::cout << std::boolalpha;") (by decide) 1).line
    (a := "int main() \x7b") (by decide) 0
  have hother := interleaves_line (ended_head (elementType f.result ++ " " ++ mangle f.name ++ "(" ++
    parameterList f.parameters)) 0
  have hhead := interleaves_ite (c := f.name == "main") hmain hother
  exact (hhead.append hbody).before (interleaves_line ended_close 0)

theorem methodLines_annotated (h : f.WellFormed E) :
    Alike (Interleaves f.comments) (methodLines classes qualifier f.withoutComments)
      (methodLines classes qualifier f) := by
  refine (Alike.inBlock _ (blockLines_annotated 2 f.body h.body)).bind fun _ _ hbody => .pure ?_
  rw [methodResult_withoutComments]
  exact (hbody.block (ended_head _) ended_close).line (by decide) 0

theorem methodsLines_annotated {fs : List Function} (h : ∀ f ∈ fs, IsName f.name ∧ f.WellFormed E) :
    Alike (Interleaves (fs.flatMap Function.comments))
      (methodsLines classes qualifier (fs.map Function.withoutComments))
      (methodsLines classes qualifier fs) := by
  induction fs with
  | nil => exact .pure interleaves_nil
  | cons f rest ih =>
    obtain ⟨hf, hrest⟩ := List.forall_mem_cons.1 h
    exact (methodLines_annotated hf.2).bind fun _ _ hfirst =>
      (ih hrest).bind fun _ _ hr => .pure (hfirst.append hr)

/-- The lines of a constructor whose head goes on with `start`. -/
def startedLines (classes : List String) (c : ClassDecl) (parameters : List Parameter)
    (start : String) (body : List Stmt) : Gen (List Line) := do
  let inner ← bodyLines classes false 2 parameters body
  return Line.blank ::
    ⟨1, mangle c.name ++ "(" ++ parameterList parameters ++ ")" ++ start ++ " \x7b"⟩ ::
    inner ++ [⟨1, "\x7d"⟩]

theorem startedLines_annotated (c : ClassDecl) (parameters : List Parameter) (start : String)
    {body : List Stmt} (h : blockWellFormed E body) :
    Alike (Interleaves (blockComments body))
      (startedLines classes c parameters start (blockWithoutComments body))
      (startedLines classes c parameters start body) := by
  refine (Alike.inBlock _ (blockLines_annotated 2 body h)).bind fun _ _ hinner => .pure ?_
  have hhead : Ended
      (mangle c.name ++ "(" ++ parameterList parameters ++ ")" ++ start ++ " \x7b") :=
    ended_append (by decide) (by decide)
  exact (hinner.block hhead ended_close).line (by decide) 0

theorem constructorLines_annotated {c : ClassDecl} (h : f.WellFormed E) :
    Alike (Interleaves f.comments) (constructorLines classes c.withoutComments f.withoutComments)
      (constructorLines classes c f) := by
  obtain ⟨name, base, _, _, _⟩ := c
  cases base with
  | none => exact startedLines_annotated _ f.parameters "" h.body
  | some base =>
    have hbody := blockWellFormed_takeBaseCall base h.body
    change Alike (Interleaves (blockComments f.body)) (startedLines classes _ f.parameters
      ((takeBaseCall base (blockWithoutComments f.body)).1.elim "" (baseInitializer classes base))
      (takeBaseCall base (blockWithoutComments f.body)).2) _
    rw [takeBaseCall_withoutComments, ← blockComments_takeBaseCall base]
    exact startedLines_annotated _ f.parameters _ hbody

theorem ended_classHead (c : ClassDecl) : Ended (classHead c) := by
  unfold classHead
  split <;> exact ended_append (by decide) (by decide)

theorem interleaves_fields (fields : List Field) :
    Interleaves [] (fields.map fieldLine) (fields.map fieldLine) := by
  induction fields with
  | nil => exact interleaves_nil
  | cons f rest ih => exact ih.line (ended_semicolon _) 1

theorem classLines_annotated (table : ClassTable) {c : ClassDecl} (h : c.WellFormed E) :
    Alike (Interleaves c.comments) (classLines table c.withoutComments) (classLines table c) := by
  have hhead := ((interleaves_fields (table.declared c)).line (a := "public:") (by decide) 0).line
    (ended_classHead c) 0
  have hrest (constructor constructor' : List Line)
      (hc : Interleaves (c.initializer.toList.flatMap Function.comments) constructor constructor') :
      Alike (Interleaves c.comments) (linesWith table c.withoutComments constructor)
        (linesWith table c constructor') := by
    refine (methodsLines_annotated h.classMethods).bind fun _ _ hcs => ?_
    refine (methodsLines_annotated h.instanceMethods).bind fun _ _ his => .pure ?_
    have hall := ((hhead.append hc).append hcs).append his
    exact hall.before (interleaves_line (by decide) 0)
  obtain ⟨name, base, classMethods, instanceMethods, initializer⟩ := c
  cases initializer with
  | none => exact hrest [] [] interleaves_nil
  | some f =>
    refine (constructorLines_annotated (h.initializer f rfl).2).bind fun _ _ hc => hrest _ _ ?_
    rw [Option.toList_some, List.flatMap_singleton]
    exact hc

end Functions

end Cpp

open Cpp

section Units

variable {table : ClassTable}

mutual

theorem Declaration.lines_annotated : (d : Declaration) → d.WellFormed Expr.WellFormed →
    Alike (Interleaves d.comments) (d.withoutComments.bind.lines table) (d.bind.lines table)
  | .function _, h => functionLines_annotated h.2
  | .namespaceDecl name ds, h => by
    refine (nestedLines_annotated true ds h.2).bind fun _ _ hinner => .pure ?_
    have hopen : Ended ("namespace " ++ mangle name ++ " \x7b") :=
      ended_append (by decide) (by decide)
    have hclose : Ended ("\x7d // namespace " ++ mangle name) := ended_of_not_mem (by decide)
      (Reading.not_mem_of_inWord (inWord_of_mangle (member_of_name h.1)) rfl)
    exact hinner.block hopen hclose
  | .classDecl c, h => by
    have hlines := classLines_annotated table h.bind_named
    rwa [ClassDecl.comments_bind, ← ClassDecl.withoutComments_bind] at hlines
  | .importDecl module, h => by
    have hline : Ended ("// import " ++ module) :=
      ended_of_not_mem (by decide) (not_mem_module h rfl (by decide))
    exact .pure (interleaves_line hline 0)

theorem nestedLines_annotated (first : Bool) : (ds : List Declaration) →
    declarationsWellFormed Expr.WellFormed ds →
      Alike (Interleaves (declarationsComments ds))
        (nestedLines table first (bindDeclarations (declarationsWithoutComments ds)))
        (nestedLines table first (bindDeclarations ds))
  | [], _ => .pure interleaves_nil
  | d :: rest, h => by
    refine (d.lines_annotated h.1).bind fun _ _ hlines => ?_
    refine (nestedLines_annotated false rest h.2).bind fun _ _ hfurther => .pure ?_
    have hblank := interleaves_ite (c := first) interleaves_nil
      (interleaves_line (a := Line.blank.text) (by decide) 0)
    exact (hblank.append hlines).append hfurther

end

theorem unitLines_annotated (table : ClassTable) {ds : List Declaration}
    (h : declarationsWellFormed Expr.WellFormed ds) :
    Alike (Interleaves (declarationsComments ds))
      (unitLines table (bindDeclarations (declarationsWithoutComments ds)))
      (unitLines table (bindDeclarations ds)) := by
  have hblank : Ended Line.blank.text := by decide
  induction ds with
  | nil => exact .pure interleaves_nil
  | cons d rest ih =>
    exact (d.lines_annotated h.1).bind fun _ _ hlines =>
      (ih h.2).bind fun _ _ hfurther => .pure (hlines.append (hfurther.line hblank 0))

end Units

namespace Program

variable {p : Program}

/-- The lines that are generated are those without comments with the comments between them. -/
theorem WellFormed.interleaves (h : p.WellFormed Expr.WellFormed) :
    Interleaves p.comments p.withoutComments.unitLines p.unitLines := by
  have hlines := unitLines_annotated (ClassTable.ofProgram p.withoutComments.bind) h
  have hunit := (hlines unsupportedStatement .start).2
  nth_rewrite 2 [ClassTable.ofProgram_withoutComments] at hunit
  exact hunit

end Program

end VnScript
