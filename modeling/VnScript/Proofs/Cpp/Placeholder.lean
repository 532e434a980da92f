import VnScript.Cpp.Unit
import VnScript.Proofs.Tree.WellFormed

namespace VnScript

abbrev anyExpr (_ : Expr) : Prop := True

section Bound

variable {E E' : Expr → Prop} {type : String}

theorem not_isName_instanceName : ¬IsName instanceName := fun h => by
  cases h.2

theorem Stmt.isInitial_bind {s : Stmt} (h : s.IsInitial) : (s.bind type).IsInitial := by
  unfold IsInitial at h
  split at h
  · trivial
  · exact h
  · next name member value =>
    have hne : name ≠ instanceName := by
      rintro rfl
      exact not_isName_instanceName h
    change (Stmt.expr (.assignMember (if name = instanceName then .self else .identifier name)
      member (value.bind type))).IsInitial
    rw [if_neg hne]
    exact h
  · exact h.elim

theorem value_bind (hE : ∀ e, E e → E' (e.bind type)) {value : Option Expr}
    (h : ∀ e ∈ value, E e) : ∀ e ∈ value.map (Expr.bind type), E' e := by
  intro e he
  obtain ⟨e', he', rfl⟩ := Option.map_eq_some_iff.1 he
  exact hE e' (h e' he')

mutual

theorem Stmt.wellFormed_bind (hE : ∀ e, E e → E' (e.bind type)) :
    (s : Stmt) → s.WellFormed E → (s.bind type).WellFormed E'
  | .comment _, h => h
  | .declare _ _ _, h => ⟨h.1, value_bind hE h.2⟩
  | .expr e, h => hE e h
  | .ret _, h => value_bind hE h
  | .conditional clause, h => clause.wellFormed_bind hE h
  | .forLoop initial condition increment body, h =>
    ⟨Stmt.isInitial_bind h.1, initial.wellFormed_bind hE h.2.1, hE condition h.2.2.1,
      hE increment h.2.2.2.1, block_wellFormed_bind hE body h.2.2.2.2⟩
  | .forIn _ _ collection body, h =>
    ⟨h.1, hE collection h.2.1, block_wellFormed_bind hE body h.2.2⟩
  | .whileLoop condition body, h => ⟨hE condition h.1, block_wellFormed_bind hE body h.2⟩
  | .doWhile body condition, h => ⟨block_wellFormed_bind hE body h.1, hE condition h.2⟩
  | .switch subject cases, h => ⟨hE subject h.1, cases_wellFormed_bind hE cases h.2⟩
  | .attempt body _ _ handler, h =>
    ⟨block_wellFormed_bind hE body h.1, h.2.1, h.2.2.1,
      block_wellFormed_bind hE handler h.2.2.2⟩

theorem block_wellFormed_bind (hE : ∀ e, E e → E' (e.bind type)) :
    (ss : List Stmt) → blockWellFormed E ss → blockWellFormed E' (bindBlock type ss)
  | [], _ => trivial
  | s :: rest, h => ⟨s.wellFormed_bind hE h.1, block_wellFormed_bind hE rest h.2⟩

theorem Conditional.wellFormed_bind (hE : ∀ e, E e → E' (e.bind type)) :
    (c : Conditional) → c.WellFormed E → (c.bind type).WellFormed E'
  | .mk condition body elseIfs none, h =>
    ⟨hE condition h.1, block_wellFormed_bind hE body h.2.1,
      clauses_wellFormed_bind hE elseIfs h.2.2.1, trivial⟩
  | .mk condition body elseIfs (some b), h =>
    ⟨hE condition h.1, block_wellFormed_bind hE body h.2.1,
      clauses_wellFormed_bind hE elseIfs h.2.2.1, block_wellFormed_bind hE b h.2.2.2⟩

theorem clauses_wellFormed_bind (hE : ∀ e, E e → E' (e.bind type)) :
    (cs : List Conditional) → clausesWellFormed E cs → clausesWellFormed E' (bindClauses type cs)
  | [], _ => trivial
  | .mk condition body _ _ :: rest, ⟨⟨hc, hb, hf, ho⟩, hr⟩ => by
    subst hf ho
    exact ⟨⟨hE condition hc, block_wellFormed_bind hE body hb, rfl, rfl⟩,
      clauses_wellFormed_bind hE rest hr⟩

theorem cases_wellFormed_bind (hE : ∀ e, E e → E' (e.bind type)) :
    (cs : List Case) → casesWellFormed E cs → casesWellFormed E' (bindCases type cs)
  | [], _ => trivial
  | .mk value body :: rest, h => ⟨⟨hE value h.1.1, block_wellFormed_bind hE body h.1.2⟩,
      cases_wellFormed_bind hE rest h.2⟩

end

theorem Function.WellFormed.bind (hE : ∀ e, E e → E' (e.bind type)) {f : Function}
    (h : f.WellFormed E) : (f.bind type).WellFormed E' :=
  ⟨h.result, h.parameters, block_wellFormed_bind hE f.body h.body⟩

end Bound

open Cpp

section Steady

variable {α β : Type}

/-- What is generated does not depend on what stands for statements without a C++ form. -/
def Steady (g : Gen α) : Prop := ∀ placeholder placeholder', g placeholder = g placeholder'

theorem Steady.pure (a : α) : Steady (Pure.pure a : Gen α) := fun _ _ => rfl

theorem Steady.bind {g : Gen α} {f : α → Gen β} (hg : Steady g) (hf : ∀ a, Steady (f a)) :
    Steady (g >>= f) := by
  intro u u'
  change (g u >>= fun a => f a u) = (g u' >>= fun a => f a u')
  rw [hg u u', funext fun a => hf a u u']

theorem Steady.get : Steady (get : Gen Scope) := fun _ _ => rfl

theorem Steady.modify (f : Scope → Scope) : Steady (modify f : Gen PUnit) := fun _ _ => rfl

theorem Steady.inBlock {g : Gen α} (names : List String) (hg : Steady g) :
    Steady (inBlock names g) := by
  refine .bind .get fun outer => .bind (.modify _) fun _ => hg.bind fun a => ?_
  exact .bind (.modify _) fun _ => .pure a

theorem steady_freshNumber : Steady freshNumber := fun _ _ => rfl

end Steady

section Statements

variable {E : Expr → Prop} {classes : List String} {inMain : Bool}

theorem steady_simpleText {s : Stmt} (h : s.IsInitial ∨ ∃ e, s = .expr e) :
    Steady (simpleText classes s) := by
  cases s with
  | declare type name value => exact .bind (.modify _) fun _ => .pure _
  | expr e =>
    cases e with
    | assign name value =>
      refine .bind .get fun scope => ?_
      split
      · exact .pure _
      · exact .bind (.modify _) fun _ => .pure _
    | _ => exact .pure _
  | _ =>
    obtain h | ⟨e, h⟩ := h
    · exact h.elim
    · cases h

theorem steady_simpleLine {indent : Nat} {s : Stmt} (h : s.IsInitial ∨ ∃ e, s = .expr e) :
    Steady (simpleLine classes indent s) :=
  (steady_simpleText h).bind fun _ => .pure _

mutual

theorem Stmt.steady_lines (indent : Nat) :
    (s : Stmt) → s.WellFormed E → Steady (s.lines classes inMain indent)
  | .comment _, _ => .pure _
  | .declare _ _ _, _ => steady_simpleLine (.inl trivial)
  | .expr e, _ => steady_simpleLine (.inr ⟨e, rfl⟩)
  | .ret _, _ => .pure _
  | .conditional clause, h => clause.steady_lines indent h
  | .forLoop _ _ _ body, h =>
    .inBlock _ (.bind (steady_simpleText (.inl h.1)) fun _ =>
      .bind (.inBlock _ (steady_blockLines _ body h.2.2.2.2)) fun _ => .pure _)
  | .forIn _ _ _ body, h =>
    .bind (.inBlock _ (.inBlock _ (steady_blockLines _ body h.2.2))) fun _ => .pure _
  | .whileLoop _ body, h => .bind (.inBlock _ (steady_blockLines _ body h.2)) fun _ => .pure _
  | .doWhile body _, h => .bind (.inBlock _ (steady_blockLines _ body h.1)) fun _ => .pure _
  | .switch _ cases, h =>
    .bind steady_freshNumber fun _ => .bind (steady_caseLines _ _ _ cases h.2) fun _ => .pure _
  | .attempt body _ _ handler, h =>
    .bind steady_freshNumber fun _ => .bind (.inBlock _ (steady_blockLines _ body h.1)) fun _ =>
      .bind (.inBlock _ (.inBlock _ (steady_blockLines _ handler h.2.2.2))) fun _ => .pure _

theorem steady_blockLines (indent : Nat) :
    (ss : List Stmt) → blockWellFormed E ss → Steady (blockLines classes inMain indent ss)
  | [], _ => .pure _
  | s :: rest, h =>
    .bind (s.steady_lines indent h.1) fun _ => .bind (steady_blockLines indent rest h.2) fun _ =>
      .pure _

theorem Conditional.steady_lines (indent : Nat) :
    (c : Conditional) → c.WellFormed E → Steady (c.lines classes inMain indent)
  | .mk _ body elseIfs none, h =>
    .bind (.inBlock _ (steady_blockLines _ body h.2.1)) fun _ =>
      .bind (steady_clauseLines indent elseIfs h.2.2.1) fun _ => .pure _
  | .mk _ body elseIfs (some b), h =>
    .bind (.inBlock _ (steady_blockLines _ body h.2.1)) fun _ =>
      .bind (steady_clauseLines indent elseIfs h.2.2.1) fun _ =>
        .bind (.inBlock _ (steady_blockLines _ b h.2.2.2)) fun _ => .pure _

theorem steady_clauseLines (indent : Nat) :
    (cs : List Conditional) → clausesWellFormed E cs → Steady (clauseLines classes inMain indent cs)
  | [], _ => .pure _
  | .mk _ body _ _ :: rest, h =>
    .bind (.inBlock _ (steady_blockLines _ body h.1.2.1)) fun _ =>
      .bind (steady_clauseLines indent rest h.2) fun _ => .pure _

theorem steady_caseLines (indent : Nat) (subject word : String) :
    (cs : List Case) → casesWellFormed E cs →
      Steady (caseLines classes inMain indent subject word cs)
  | [], _ => .pure _
  | .mk _ body :: rest, h =>
    .bind (.inBlock _ (steady_blockLines _ body h.1.2)) fun _ =>
      .bind (steady_caseLines indent subject _ rest h.2) fun _ => .pure _

end

end Statements

section Declarations

variable {E : Expr → Prop} {table : ClassTable}

theorem steady_functionLines {classes : List String} {f : Function} (h : f.WellFormed E) :
    Steady (functionLines classes f) :=
  .bind (.inBlock _ (steady_blockLines 1 f.body h.body)) fun _ => .pure _

theorem steady_methodsLines {classes : List String} {qualifier : String} {fs : List Function}
    (h : ∀ f ∈ fs, f.WellFormed E) : Steady (methodsLines classes qualifier fs) := by
  induction fs with
  | nil => exact .pure _
  | cons f rest ih =>
    obtain ⟨hf, hrest⟩ := List.forall_mem_cons.1 h
    have hm : Steady (methodLines classes qualifier f) :=
      .bind (.inBlock _ (steady_blockLines 2 f.body hf.body)) fun _ => .pure _
    exact hm.bind fun _ => (ih hrest).bind fun _ => .pure _

theorem blockWellFormed_takeBaseCall (base : String) {ss : List Stmt} (h : blockWellFormed E ss) :
    blockWellFormed E (takeBaseCall base ss).2 := by
  induction ss with
  | nil => exact h
  | cons s rest ih =>
    unfold takeBaseCall
    split
    · exact h.2
    · exact ⟨h.1, ih h.2⟩

theorem steady_constructorLines {classes : List String} {c : ClassDecl} {f : Function}
    (h : f.WellFormed E) : Steady (constructorLines classes c f) := by
  unfold constructorLines
  cases c.base with
  | none => exact .bind (.inBlock _ (steady_blockLines 2 f.body h.body)) fun _ => .pure _
  | some base =>
    have hb := blockWellFormed_takeBaseCall base h.body
    exact .bind (.inBlock _ (steady_blockLines 2 _ hb)) fun _ => .pure _

theorem steady_classLines {c : ClassDecl} (h : c.WellFormed E) : Steady (classLines table c) := by
  have hrest (constructor : List Line) : Steady (do
      let classMethods ← methodsLines table.names "static " c.classMethods
      let instanceMethods ← methodsLines table.names "" c.instanceMethods
      return [⟨0, classHead c⟩, ⟨0, "public:"⟩] ++ (table.declared c).map fieldLine ++
        constructor ++ classMethods ++ instanceMethods ++ [⟨0, "\x7d;"⟩]) :=
    .bind (steady_methodsLines fun f hf => (h.classMethods f hf).2) fun _ =>
      .bind (steady_methodsLines fun f hf => (h.instanceMethods f hf).2) fun _ => .pure _
  unfold classLines
  split
  · next f hf => exact (steady_constructorLines (h.initializer f hf).2).bind hrest
  · exact hrest []

theorem ClassDecl.WellFormed.bind {E' : Expr → Prop} {c : ClassDecl}
    (hE : ∀ e, E e → E' (e.bind c.name)) (h : c.WellFormed E) : c.bind.WellFormed E' where
  name := h.name
  base := h.base
  classMethods f hf := by
    obtain ⟨g, hg, rfl⟩ := List.mem_map.1 hf
    exact ⟨(h.classMethods g hg).1, .bind hE (h.classMethods g hg).2⟩
  instanceMethods f hf := by
    obtain ⟨g, hg, rfl⟩ := List.mem_map.1 hf
    exact ⟨(h.instanceMethods g hg).1, .bind hE (h.instanceMethods g hg).2⟩
  initializer f hf := by
    obtain ⟨g, hg, rfl⟩ := Option.map_eq_some_iff.1 hf
    exact ⟨(h.initializer g hg).1, .bind hE (h.initializer g hg).2⟩

mutual

theorem Declaration.steady_lines :
    (d : Declaration) → d.WellFormed E → Steady (d.bind.lines table)
  | .function _, h => steady_functionLines h.2
  | .namespaceDecl _ ds, h => .bind (steady_nestedLines true ds h.2) fun _ => .pure _
  | .classDecl c, h =>
    have hE (e : Expr) (_ : E e) : anyExpr (e.bind c.name) := trivial
    steady_classLines (ClassDecl.WellFormed.bind hE h)
  | .importDecl _, _ => .pure _

theorem steady_nestedLines (first : Bool) :
    (ds : List Declaration) → declarationsWellFormed E ds →
      Steady (nestedLines table first (bindDeclarations ds))
  | [], _ => .pure _
  | d :: rest, h =>
    .bind (d.steady_lines h.1) fun _ => .bind (steady_nestedLines false rest h.2) fun _ => .pure _

end

theorem steady_unitLines (table : ClassTable) {ds : List Declaration}
    (h : declarationsWellFormed E ds) : Steady (unitLines table (bindDeclarations ds)) := by
  induction ds with
  | nil => exact .pure _
  | cons d rest ih => exact (d.steady_lines h.1).bind fun _ => (ih h.2).bind fun _ => .pure _

/-- Every statement of a program that the source can write has a C++ form. -/
theorem Program.cppBodyWith_eq {p : Program} (h : p.WellFormed E) (placeholder : Stmt → String) :
    p.cppBodyWith placeholder = p.cppBody := by
  have hs := steady_unitLines (ClassTable.ofProgram p.bind) h placeholder
  unfold cppBody cppBodyWith
  exact congrArg (fun g => renderLines (StateT.run g Scope.start).1) (hs unsupportedStatement)

end Declarations

end VnScript
