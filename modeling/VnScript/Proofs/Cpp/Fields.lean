import VnScript.Proofs.Cpp.Sections

namespace VnScript

section Members

variable {type : String}

theorem Stmt.IsInitial.members {s : Stmt} (h : s.IsInitial) :
    s.parts.filterMap Stmt.member? = [] := by
  have hinstance : ¬IsName instanceName := by decide
  cases s with
  | declare _ _ _ => rfl
  | expr e =>
    cases e with
    | assignMember object member value =>
      cases object with
      | identifier name =>
        have hn : name ≠ instanceName := fun hn => hinstance (hn ▸ h)
        have hm : (Stmt.expr (.assignMember (.identifier name) member value)).member? = none :=
          if_neg hn
        exact List.filterMap_cons_none hm
      | _ => exact h.elim
    | assign _ _ => rfl
    | _ => exact h.elim
  | _ => exact h.elim

/-- Once receivers are bound, an assignment through the instance is one to a member of it. -/
theorem selfAssignments_assign {object value : Expr} {member : String} (h : object.IsObject) :
    (Stmt.bind type (.expr (.assignMember object member value))).selfAssignments.map Prod.fst =
      (Stmt.expr (.assignMember object member value)).parts.filterMap Stmt.member? := by
  obtain ⟨name, rfl, -⟩ := h
  by_cases hn : name = instanceName
  · subst hn
    rfl
  · have hm : (Stmt.expr (.assignMember (.identifier name) member value)).member? = none :=
      if_neg hn
    have hb : boundObject (.identifier name) (.identifier name) = .identifier name := if_neg hn
    rw [Stmt.bind, Expr.bind, Expr.bind, hb, Stmt.parts, List.filterMap_cons_none hm]
    rfl

mutual

theorem Stmt.selfAssignments_bind : (s : Stmt) → s.WellFormed Expr.WellFormed →
    (s.bind type).selfAssignments.map Prod.fst = s.parts.filterMap Stmt.member?
  | .expr e, h => by
    cases e with
    | assignMember object member value => exact selfAssignments_assign h.1
    | _ => rfl
  | .conditional clause, h => clause.selfAssignments_bind h
  | .forLoop initial _ _ body, h => by
    rw [Stmt.parts, List.cons_append, List.filterMap_cons_none rfl, List.filterMap_append,
      h.1.members, List.nil_append]
    exact blockSelfAssignments_bind body h.2.2.2.2
  | .forIn _ _ _ body, h => blockSelfAssignments_bind body h.2.2
  | .whileLoop _ body, h => blockSelfAssignments_bind body h.2
  | .doWhile body _, h => blockSelfAssignments_bind body h.1
  | .switch _ cases, h => casesSelfAssignments_bind cases h.2
  | .attempt body _ _ handler, h => by
    rw [Stmt.parts, List.cons_append, List.filterMap_cons_none rfl, List.filterMap_append,
      ← blockSelfAssignments_bind body h.1, ← blockSelfAssignments_bind handler h.2.2.2,
      ← List.map_append]
    rfl
  | .comment _, _ | .declare _ _ _, _ | .ret _, _ => rfl

theorem blockSelfAssignments_bind : (ss : List Stmt) → blockWellFormed Expr.WellFormed ss →
    (blockSelfAssignments (bindBlock type ss)).map Prod.fst =
      (blockParts ss).filterMap Stmt.member?
  | [], _ => rfl
  | s :: rest, h => by
    rw [bindBlock, blockSelfAssignments, blockParts, List.map_append, List.filterMap_append,
      s.selfAssignments_bind h.1, blockSelfAssignments_bind rest h.2]

theorem Conditional.selfAssignments_bind : (c : Conditional) → c.WellFormed Expr.WellFormed →
    (c.bind type).selfAssignments.map Prod.fst = c.parts.filterMap Stmt.member?
  | .mk _ body elseIfs none, h => by
    simp only [Conditional.bind, Conditional.selfAssignments, Conditional.parts, List.map_append,
      List.filterMap_append, blockSelfAssignments_bind body h.2.1,
      clausesSelfAssignments_bind elseIfs h.2.2.1, List.map_nil, List.filterMap_nil]
  | .mk _ body elseIfs (some b), h => by
    simp only [Conditional.bind, Conditional.selfAssignments, Conditional.parts, List.map_append,
      List.filterMap_append, blockSelfAssignments_bind body h.2.1,
      clausesSelfAssignments_bind elseIfs h.2.2.1, blockSelfAssignments_bind b h.2.2.2]

theorem clausesSelfAssignments_bind : (cs : List Conditional) →
    clausesWellFormed Expr.WellFormed cs →
      (clausesSelfAssignments (bindClauses type cs)).map Prod.fst =
        (clausesParts cs).filterMap Stmt.member?
  | [], _ => rfl
  | .mk _ body elseIfs orElse :: rest, h => by
    obtain ⟨⟨-, hbody, rfl, rfl⟩, hrest⟩ := h
    simp only [bindClauses, Conditional.bind, clausesSelfAssignments, clausesParts,
      Conditional.parts, List.map_append, List.filterMap_append, List.append_nil,
      blockSelfAssignments_bind body hbody, clausesSelfAssignments_bind rest hrest]

theorem casesSelfAssignments_bind : (cs : List Case) → casesWellFormed Expr.WellFormed cs →
    (casesSelfAssignments (bindCases type cs)).map Prod.fst =
      (casesParts cs).filterMap Stmt.member?
  | [], _ => rfl
  | .mk _ body :: rest, h => by
    rw [bindCases, casesSelfAssignments, casesParts, List.map_append, List.filterMap_append,
      blockSelfAssignments_bind body h.1.2, casesSelfAssignments_bind rest h.2]

end

end Members

namespace Cpp

section Fields

theorem map_firstByName (known : List String) (fields : List Field) :
    (firstByName known fields).map Field.name =
      ((fields.map Field.name).filter fun name => !known.contains name).eraseDups := by
  induction fields generalizing known with
  | nil => rfl
  | cons f rest ih =>
    rw [firstByName, List.map_cons]
    by_cases hf : known.contains f.name = true
    · rw [if_pos hf, List.filter_cons_of_neg (by rw [hf]; decide), ih]
    · rw [if_neg hf, List.filter_cons_of_pos (by rw [Bool.eq_false_iff.2 hf]; rfl),
        List.eraseDups_cons, List.map_cons, ih, List.filter_filter]
      simp only [List.contains_cons, Bool.not_or]

theorem nodup_firstByName (known : List String) (fields : List Field) :
    ((firstByName known fields).map Field.name).Nodup ∧
      ∀ f ∈ firstByName known fields, f.name ∉ known := by
  induction fields generalizing known with
  | nil => exact ⟨List.nodup_nil, nofun⟩
  | cons f rest ih =>
    rw [firstByName]
    by_cases hf : known.contains f.name = true
    · rw [if_pos hf]
      exact ih known
    rw [if_neg hf]
    obtain ⟨hnodup, hfresh⟩ := ih (f.name :: known)
    have hother : ∀ g ∈ firstByName (f.name :: known) rest, g.name ≠ f.name ∧ g.name ∉ known :=
      fun g hg => not_or.1 (List.mem_cons.not.1 (hfresh g hg))
    constructor
    · refine List.nodup_cons.2 ⟨fun hm => ?_, hnodup⟩
      obtain ⟨g, hg, hname⟩ := List.mem_map.1 hm
      exact (hother g hg).1 hname
    · rw [List.contains_iff_mem] at hf
      exact List.forall_mem_cons.2 ⟨hf, fun g hg => (hother g hg).2⟩

theorem map_methodFields {f : Function} (h : f.WellFormed Expr.WellFormed) (type : String) :
    (methodFields (f.bind type)).map Field.name = (blockParts f.body).filterMap Stmt.member? := by
  rw [methodFields, List.map_map]
  exact blockSelfAssignments_bind f.body h.body

/-- The fields of a class are the members that it assigns in statements, each once, where it is
first assigned. -/
theorem map_classFields {c : ClassDecl} (h : c.WellFormed Expr.WellFormed) :
    (classFields c.bind).map Field.name = c.assignedMembers.eraseDups := by
  have hfunctions : c.bind.initializer.toList ++ c.bind.instanceMethods =
      (c.initializer.toList ++ c.instanceMethods).map (Function.bind c.name) := by
    rw [List.map_append, ← Option.toList_map]
    rfl
  have hmethods : ∀ f ∈ c.initializer.toList ++ c.instanceMethods,
      (methodFields (f.bind c.name)).map Field.name =
        (blockParts f.body).filterMap Stmt.member? := by
    intro f hf
    obtain hf | hf := List.mem_append.1 hf
    · exact map_methodFields (h.initializer f (Option.mem_toList.1 hf)).2 c.name
    · exact map_methodFields (h.instanceMethods f hf).2 c.name
  have hall : ((c.bind.initializer.toList ++ c.bind.instanceMethods).flatMap methodFields).map
      Field.name = c.assignedMembers := by
    rw [hfunctions, List.flatMap_map, List.map_flatMap]
    exact List.flatMap_congr hmethods
  rw [classFields, map_firstByName, hall]
  exact congrArg List.eraseDups (List.filter_true _)

end Fields

section Table

variable {p : Program}

/-- What the table of a program knows about a class. -/
def ClassDecl.info (c : ClassDecl) : ClassInfo := ⟨c.name, c.base, classFields c.bind⟩

mutual

theorem classInfos_eq : (d : Declaration) → classInfos d.bind = d.classes.map ClassDecl.info
  | .classDecl _ | .function _ | .importDecl _ => rfl
  | .namespaceDecl _ ds => allClassInfos_eq ds

theorem allClassInfos_eq : (ds : List Declaration) →
    allClassInfos (bindDeclarations ds) = (classesOf ds).map ClassDecl.info
  | [] => rfl
  | d :: rest => by
    rw [bindDeclarations, allClassInfos, classesOf, List.map_append, classInfos_eq d,
      allClassInfos_eq rest]

end

theorem infos_ofProgram (p : Program) :
    (ClassTable.ofProgram p.bind).infos = p.classes.reverse.map ClassDecl.info := by
  rw [List.map_reverse]
  exact congrArg List.reverse (allClassInfos_eq p.declarations)

theorem find?_ofProgram (p : Program) (name : String) :
    (ClassTable.ofProgram p.bind).find? name = (p.class? name).map ClassDecl.info := by
  rw [ClassTable.find?, infos_ofProgram, List.find?_map]
  rfl

/-- The fields that are collected above a class are those of its base and of what is above that. -/
theorem fieldsAbove_succ (p : Program) (n : Nat) (c : ClassDecl) :
    (ClassTable.ofProgram p.bind).fieldsAbove (n + 1) c.base =
      match p.base? c with
      | none => []
      | some b => (classFields b.bind).map Field.name ++
          (ClassTable.ofProgram p.bind).fieldsAbove n b.base := by
  unfold Program.base?
  cases c.base with
  | none => rfl
  | some name =>
    rw [ClassTable.fieldsAbove, find?_ofProgram, Option.bind_some]
    cases p.class? name <;> rfl

/-- What is collected through `n` bases are the fields of the classes that many bases above. -/
theorem mem_fieldsAbove {n : Nat} {c : ClassDecl} {m : String} :
    m ∈ (ClassTable.ofProgram p.bind).fieldsAbove n c.base ↔
      ∃ k < n, ∃ a, p.climb (k + 1) c = some a ∧ m ∈ (classFields a.bind).map Field.name := by
  induction n generalizing c with
  | zero =>
    constructor
    · intro hm
      cases hm
    · rintro ⟨k, hk, -⟩
      exact absurd hk (Nat.not_lt_zero k)
  | succ n ih =>
    rw [fieldsAbove_succ]
    cases hb : p.base? c with
    | none =>
      constructor
      · intro hm
        cases hm
      · rintro ⟨k, -, a, ha, -⟩
        rw [Program.climb, hb] at ha
        cases ha
    | some b =>
      have hstep (k : Nat) : p.climb (k + 1) c = p.climb k b := by
        rw [Program.climb, hb, Option.bind_some]
      -- The base is the first class above, and the others are above it.
      simp only [List.mem_append, ih, hstep]
      constructor
      · rintro (hm | ⟨k, hk, a, ha, hm⟩)
        · exact ⟨0, Nat.succ_pos n, b, rfl, hm⟩
        · exact ⟨k + 1, Nat.succ_lt_succ hk, a, ha, hm⟩
      · rintro ⟨k, hk, a, ha, hm⟩
        cases k with
        | zero =>
          cases ha
          exact .inl hm
        | succ k => exact .inr ⟨k, Nat.lt_of_succ_lt_succ hk, a, ha, hm⟩

theorem mem_inherited {c : ClassDecl} {m : String} :
    m ∈ (ClassTable.ofProgram p.bind).inherited c.bind ↔
      ∃ a, p.Inherits c a ∧ m ∈ (classFields a.bind).map Field.name := by
  have hlength : (ClassTable.ofProgram p.bind).infos.length = p.classes.length := by
    rw [infos_ofProgram, List.length_map, List.length_reverse]
  have hbase : c.bind.base = c.base := rfl
  rw [ClassTable.inherited, hlength, hbase, mem_fieldsAbove]
  constructor
  · rintro ⟨k, -, a, ha, hm⟩
    exact ⟨a, Program.inherits_iff.2 ⟨k, ha⟩, hm⟩
  · rintro ⟨a, ha, hm⟩
    obtain ⟨n, hn⟩ := Program.inherits_iff.1 ha
    obtain ⟨k, hk, hk'⟩ := Program.exists_climb_le hn
    exact ⟨k, hk, a, hk', hm⟩

end Table

end Cpp

open Cpp

namespace Program

variable {p : Program} {c : ClassDecl}

mutual

theorem wellFormed_of_classes {E : Expr → Prop} : (d : Declaration) → d.WellFormed E →
    ∀ c ∈ d.classes, c.WellFormed E
  | .classDecl _, h => List.forall_mem_singleton.2 h
  | .namespaceDecl _ ds, h => wellFormed_of_classesOf ds h.2
  | .function _, _ | .importDecl _, _ => nofun

theorem wellFormed_of_classesOf {E : Expr → Prop} : (ds : List Declaration) →
    declarationsWellFormed E ds → ∀ c ∈ classesOf ds, c.WellFormed E
  | [], _ => nofun
  | d :: rest, h => List.forall_mem_append.2
    ⟨wellFormed_of_classes d h.1, wellFormed_of_classesOf rest h.2⟩

end

/-- The fields of a class are declared in it or inherited, if its name stands for it. -/
theorem map_declared (h : p.class? c.name = some c) :
    ((ClassTable.ofProgram p.bind).declared c.bind).map Field.name =
      ((classFields c.bind).map Field.name).filter fun m =>
        !((ClassTable.ofProgram p.bind).inherited c.bind).contains m := by
  have hname : c.bind.name = c.name := rfl
  rw [ClassTable.declared, hname, find?_ofProgram, h, List.filter_map]
  rfl

theorem WellFormed.mem_inherited (h : p.WellFormed Expr.WellFormed) {m : String} :
    m ∈ (ClassTable.ofProgram p.bind).inherited c.bind ↔
      ∃ a, p.Inherits c a ∧ m ∈ a.assignedMembers := by
  rw [Cpp.mem_inherited]
  refine exists_congr fun a => and_congr_right fun ha => ?_
  obtain ⟨n, hn⟩ := inherits_iff.1 ha
  have hwell := wellFormed_of_classesOf p.declarations h a (mem_of_climb hn)
  rw [map_classFields hwell, List.mem_eraseDups]

end Program

/-- Of what is read from a text, the last class of a name declares the members that it assigns in
statements, each once and in the order of the first assignments, but for those that a class above
it assigns. -/
theorem parse_class_fields (source : String) (p : Program) (h : parse source = .ok p)
    (before after : List ClassDecl) (c : ClassDecl) (hc : p.classes = before ++ c :: after)
    (hl : ∀ d ∈ after, d.name ≠ c.name) :
    ∃ (start middle rest : List Line) (fields : List Cpp.Field) (inherited : List String),
      p.cppBody = renderLines (start ++ middle ++ rest) ∧
      Sections (IsClassSection (ClassTable.ofProgram p.bind)) before start ∧
      Sections (IsClassSection (ClassTable.ofProgram p.bind)) after rest ∧
      DeclaresFields c fields middle ∧
      fields.map Field.name = c.assignedMembers.eraseDups.filter (fun m => !inherited.contains m) ∧
      ∀ m, m ∈ inherited ↔ ∃ a, p.Inherits c a ∧ m ∈ a.assignedMembers := by
  have hp := wellFormed_of_parse h
  have hmem : c ∈ p.classes := hc ▸ List.mem_append_right before List.mem_cons_self
  have hwell := Program.wellFormed_of_classesOf p.declarations hp c hmem
  have hsections := p.sections
  rw [hc] at hsections
  obtain ⟨start, middle, rest, hlines, hbefore, hmiddle, hafter⟩ := hsections.split
  refine ⟨start, middle, rest, _, (ClassTable.ofProgram p.bind).inherited c.bind, ?_, hbefore,
    hafter, hmiddle, ?_, fun m => hp.mem_inherited⟩
  · rw [Program.cppBody_eq, hlines]
  · rw [Program.map_declared (Program.class?_last hc hl), map_classFields hwell]

def derivedSource : String :=
  "class A() \x7b instance.init() \x7b instance.x = 1; \x7d \x7d namespace n \x7b class B(A) \x7b " ++
  "instance.init() \x7b instance.y = 2; instance.x = 3; \x7d \x7d \x7d"

/-- An assignment to a member of the instance as a statement. -/
def setMember (member : String) (value : Expr) : Stmt :=
  .expr (.assignMember (.identifier instanceName) member value)

/-- A class with nothing but an initializer. -/
def classWith (name : String) (base : Option String) (body : List Stmt) : ClassDecl :=
  ⟨name, base, [], [], some ⟨none, Grammar.initializerName, [], body⟩⟩

def baseClass : ClassDecl := classWith "A" none [setMember "x" (.integer 1)]

def derivedClass : ClassDecl :=
  classWith "B" (some "A") [setMember "y" (.integer 2), setMember "x" (.integer 3)]

def derivedProgram : Program :=
  ⟨[.classDecl baseClass, .namespaceDecl "n" [.classDecl derivedClass]]⟩

theorem derivedClass_fields : parse derivedSource = .ok derivedProgram ∧
    derivedProgram.classes = [baseClass] ++ derivedClass :: [] ∧
    ∃ (start middle rest : List Line) (fields : List Cpp.Field) (inherited : List String),
      derivedProgram.cppBody = renderLines (start ++ middle ++ rest) ∧
      DeclaresFields derivedClass fields middle ∧
      fields.map Field.name = ["y", "x"].filter (fun m => !inherited.contains m) ∧
      ∀ m, m ∈ inherited ↔ ∃ a, derivedProgram.Inherits derivedClass a ∧ m ∈ a.assignedMembers := by
  have h : parse derivedSource = .ok derivedProgram := by decide +kernel
  obtain ⟨start, middle, rest, fields, inherited, hbody, -, -, hmiddle, hnames, hinherited⟩ :=
    parse_class_fields derivedSource derivedProgram h [baseClass] [] derivedClass rfl
      (List.forall_mem_nil _)
  exact ⟨h, rfl, start, middle, rest, fields, inherited, hbody, hmiddle, hnames, hinherited⟩

def namesakesSource : String :=
  "namespace a \x7b class C() \x7b instance.init() \x7b instance.x = 1; \x7d \x7d \x7d " ++
  "namespace b \x7b class C() \x7b instance.init() \x7b instance.y = 2; \x7d \x7d \x7d"

def namesakes : Program :=
  ⟨[.namespaceDecl "a" [.classDecl (classWith "C" none [setMember "x" (.integer 1)])],
    .namespaceDecl "b" [.classDecl (classWith "C" none [setMember "y" (.integer 2)])]]⟩

/-- Of two classes with one name both declare the fields of the last one. -/
theorem namesakes_declare_last : parse namesakesSource = .ok namesakes ∧
    namesakes.classes.map ClassDecl.assignedMembers = [["x"], ["y"]] ∧
    namesakes.cppBody = "namespace a \x7b\nclass C \x7b\npublic:\n    int y;\n\n    C() \x7b\n" ++
      "        this->x = 1;\n    \x7d\n\x7d;\n\x7d // namespace a\n\n" ++
      "namespace b \x7b\nclass C \x7b\npublic:\n    int y;\n\n    C() \x7b\n" ++
      "        this->y = 2;\n    \x7d\n\x7d;\n\x7d // namespace b\n\n" := by
  refine ⟨by decide +kernel, by decide, ?_⟩
  decide +kernel

/-- The fields of a class that is read from a text have different names, which are the members that
a statement of its initializer or of an instance method assigns through the instance, in whatever
block it stands. Each of them is declared in the class or inherited, if the name of the class stands
for it. -/
theorem parse_assigned_fields (source : String) (p : Program) (h : parse source = .ok p)
    (c : ClassDecl) (hc : c ∈ p.classes) :
    ((classFields c.bind).map Field.name).Nodup ∧
    (∀ m, m ∈ (classFields c.bind).map Field.name ↔
      ∃ f ∈ c.initializer.toList ++ c.instanceMethods, ∃ value,
        Stmt.expr (.assignMember (.identifier instanceName) m value) ∈ blockParts f.body) ∧
    (p.class? c.name = some c → ∀ m ∈ (classFields c.bind).map Field.name,
      m ∈ ((ClassTable.ofProgram p.bind).declared c.bind).map Field.name ∨
        ∃ a, p.Inherits c a ∧ m ∈ (classFields a.bind).map Field.name) := by
  have hp := wellFormed_of_parse h
  have hwell := Program.wellFormed_of_classesOf p.declarations hp c hc
  refine ⟨(nodup_firstByName [] _).1, fun m => ?_, fun hlast m hm => ?_⟩
  · rw [map_classFields hwell, List.mem_eraseDups, ClassDecl.mem_assignedMembers]
  · rw [Program.map_declared hlast, List.mem_filter]
    by_cases hi : m ∈ (ClassTable.ofProgram p.bind).inherited c.bind
    · exact .inr (mem_inherited.1 hi)
    · exact .inl ⟨hm, by simpa using hi⟩

def branchingSource : String :=
  "class C() \x7b instance.init() \x7b if(true) \x7b instance.x = 1; \x7d " ++
  "else \x7b while(true) \x7b instance.y = 2; instance.x = 3; \x7d \x7d \x7d \x7d"

def branchingClass : ClassDecl :=
  classWith "C" none [.conditional (.mk (.boolean true) [setMember "x" (.integer 1)] []
    (some [.whileLoop (.boolean true)
      [setMember "y" (.integer 2), setMember "x" (.integer 3)]]))]

def branchingProgram : Program := ⟨[.classDecl branchingClass]⟩

theorem branchingClass_fields : parse branchingSource = .ok branchingProgram ∧
    ((classFields branchingClass.bind).map Field.name).Nodup ∧
    "y" ∈ (classFields branchingClass.bind).map Field.name ∧
    ("y" ∈ ((ClassTable.ofProgram branchingProgram.bind).declared branchingClass.bind).map
        Field.name ∨
      ∃ a, branchingProgram.Inherits branchingClass a ∧
        "y" ∈ (classFields a.bind).map Field.name) := by
  have h : parse branchingSource = .ok branchingProgram := by decide +kernel
  obtain ⟨hnodup, hfields, hdeclared⟩ :=
    parse_assigned_fields branchingSource branchingProgram h branchingClass List.mem_cons_self
  have hy := (hfields "y").2
    ⟨_, List.mem_cons_self, .integer 2, .tail _ (.tail _ (.tail _ (.head _)))⟩
  exact ⟨h, hnodup, hy, hdeclared rfl "y" hy⟩

def chainedSource : String :=
  "class C() \x7b instance.init() \x7b instance.x = instance.y = 1; \x7d \x7d"

def chainedClass : ClassDecl :=
  classWith "C" none [setMember "x" (.assignMember (.identifier instanceName) "y" (.integer 1))]

/-- A member that is only assigned within another assignment is no field. -/
theorem chained_member_missed : parse chainedSource = .ok ⟨[.classDecl chainedClass]⟩ ∧
    (classFields chainedClass.bind).map Field.name = ["x"] ∧
    Program.cppBody ⟨[.classDecl chainedClass]⟩ = "class C \x7b\npublic:\n    vn_value x;\n\n" ++
      "    C() \x7b\n        this->x = this->y = 1;\n    \x7d\n\x7d;\n\n" := by
  refine ⟨by decide +kernel, by decide, ?_⟩
  decide +kernel

end VnScript
