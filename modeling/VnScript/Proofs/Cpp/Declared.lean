import VnScript.Proofs.Cpp.Code
import VnScript.Proofs.Tree.Assigned

namespace VnScript

namespace Cpp

/-- An assignment to a name, and the names that are declared before it in the same block or in one
around it. It is standing if it is a statement or opens the head of a loop. -/
structure Assignment where
  name : String
  standing : Bool
  declared : List String
  deriving DecidableEq

def nested (declared : List String) (e : Expr) : List Assignment :=
  e.assigned.map fun name => ⟨name, false, declared⟩

def Simple.declares : Simple → List String
  | .declare _ name _ => [name]
  | _ => []

/-- A name is declared in its own initializer. -/
def Simple.assignments (declared : List String) : Simple → List Assignment
  | .declare _ name (some value) => nested (name :: declared) value
  | .declare _ _ none => []
  | .plain (.assign name value) => ⟨name, true, declared⟩ :: nested declared value
  | .plain e => nested declared e
  | .comment _ => []

/-- What code declares in the block in which it stands. -/
def Code.declares : Code → List String
  | .simple s => s.declares
  | _ => []

mutual

def Code.assignments (declared : List String) : Code → List Assignment
  | .comment _ => []
  | .simple s => s.assignments declared
  | .ret none => []
  | .ret (some e) => nested declared e
  | .conditional first further orElse =>
    first.assignments declared ++ clauseAssignments declared further ++
      match orElse with
      | some b => codeAssignments declared b
      | none => []
  | .forLoop initial condition increment body =>
    initial.assignments declared ++
      nested (initial.declares ++ declared) condition ++
      nested (initial.declares ++ declared) increment ++
      codeAssignments (initial.declares ++ declared) body
  | .forIn name _ collection body =>
    nested declared collection ++ codeAssignments (name :: declared) body
  | .whileLoop condition body => nested declared condition ++ codeAssignments declared body
  | .doWhile body condition => codeAssignments declared body ++ nested declared condition
  | .switch _ subject cases => nested declared subject ++ clauseAssignments declared cases
  | .attempt body _ _ binding handler =>
    codeAssignments declared body ++ codeAssignments (binding :: declared) handler

/-- The assignments of a block, in which declarations hold from where they stand. -/
def codeAssignments (declared : List String) : List Code → List Assignment
  | [] => []
  | c :: rest => c.assignments declared ++ codeAssignments (c.declares ++ declared) rest

def Clause.assignments (declared : List String) : Clause → List Assignment
  | .mk condition body => nested declared condition ++ codeAssignments declared body

def clauseAssignments (declared : List String) : List Clause → List Assignment
  | [] => []
  | c :: rest => c.assignments declared ++ clauseAssignments declared rest

end

/-- Every standing assignment is to a name that is declared or one of `dropped`. -/
def Standing (dropped : List String) (as : List Assignment) : Prop :=
  ∀ a ∈ as, a.standing = true → a.name ∈ a.declared ++ dropped

section Generation

variable {α β : Type} {declared : List String} {P : α → List String → Prop}
  {Q : β → List String → Prop}

/-- What is generated in a scope that declares these names, and the scope after it. -/
def Yields (declared : List String) (g : Gen α) (P : α → List String → Prop) : Prop :=
  ∀ (placeholder : Stmt → String) (s : Scope), s.blocks ≠ [] → s.blocks.flatten = declared →
    (g placeholder s).2.blocks ≠ [] ∧ P (g placeholder s).1 (g placeholder s).2.blocks.flatten

theorem Yields.pure {a : α} (h : P a declared) : Yields declared (Pure.pure a) P := by
  rintro placeholder s hs rfl
  exact ⟨hs, h⟩

theorem Yields.bind {g : Gen α} {f : α → Gen β} (hg : Yields declared g P)
    (hf : ∀ a d, P a d → Yields d (f a) Q) : Yields declared (g >>= f) Q := by
  intro placeholder s hs hd
  obtain ⟨hs', hp⟩ := hg placeholder s hs hd
  exact hf _ _ hp placeholder _ hs' rfl

theorem Yields.map {g : Gen α} {f : α → β} (hg : Yields declared g fun a d => Q (f a) d) :
    Yields declared (f <$> g) Q := by
  rw [← bind_pure_comp]
  exact hg.bind fun a d h => .pure h

theorem Yields.inBlock (names : List String) {g : Gen α} {P : α → Prop}
    (hg : Yields (names ++ declared) g fun a _ => P a) :
    Yields declared (inBlock names g) fun a d => d = declared ∧ P a := by
  rintro placeholder s hs rfl
  obtain ⟨-, hp⟩ := hg placeholder { s with blocks := names :: s.blocks } (List.cons_ne_nil _ _) rfl
  exact ⟨hs, rfl, hp⟩

theorem Yields.freshNumber : Yields declared freshNumber fun _ d => d = declared ∧ True := by
  rintro placeholder s hs rfl
  exact ⟨hs, rfl, trivial⟩

theorem Yields.andThen {g : Gen α} {f : α → Gen β} {P : α → Prop}
    (hg : Yields declared g fun a d => d = declared ∧ P a)
    (hf : ∀ a, P a → Yields declared (f a) Q) : Yields declared (g >>= f) Q := by
  refine hg.bind fun a d ⟨hd, hp⟩ => ?_
  subst hd
  exact hf a hp

theorem Yields.declare (name : String) :
    Yields declared (modify (Scope.declare name)) fun _ d => d = name :: declared := by
  rintro placeholder ⟨blocks, number⟩ hs rfl
  obtain ⟨block, outer, rfl⟩ := List.exists_cons_of_ne_nil hs
  exact ⟨List.cons_ne_nil _ _, rfl⟩

theorem Yields.get : Yields declared get fun (s : Scope) d => d = declared ∧
    ∀ name, s.declares name = true ↔ name ∈ declared := by
  rintro placeholder s hs rfl
  refine ⟨hs, rfl, fun name => ?_⟩
  change s.declares name = true ↔ _
  simp [Scope.declares, List.any_eq_true, List.mem_flatten]

end Generation

section Standing

variable {declared dropped : List String} {as as' : List Assignment}

theorem Standing.append (h : Standing dropped as) (h' : Standing dropped as') :
    Standing dropped (as ++ as') := List.forall_mem_append.2 ⟨h, h'⟩

theorem standing_nil : Standing dropped [] := nofun

theorem standing_nested (declared : List String) (e : Expr) :
    Standing dropped (nested declared e) := by
  intro a ha hs
  obtain ⟨name, -, rfl⟩ := List.mem_map.1 ha
  cases hs

theorem standing_declare (type : VariableType) (name : String) (value : Option Expr) :
    Standing dropped ((Simple.declare type name value).assignments declared) := by
  cases value with
  | none => exact standing_nil
  | some e => exact standing_nested _ e

theorem yields_simpleCode (s : Stmt) : Yields (declared ++ dropped) (simpleCode s) fun c d =>
    d = c.declares ++ declared ++ dropped ∧ Standing dropped (c.assignments declared) := by
  have hdeclare (type : VariableType) (name : String) (value : Option Expr) :
      Yields (declared ++ dropped) (do
        modify (Scope.declare name)
        return Simple.declare type name value) fun c d =>
          d = c.declares ++ declared ++ dropped ∧ Standing dropped (c.assignments declared) :=
    (Yields.declare name).bind fun _ d hd => .pure ⟨hd, standing_declare type name value⟩
  have hplain (e : Expr) (h : Standing dropped ((Simple.plain e).assignments declared)) :
      Yields (declared ++ dropped) (pure (Simple.plain e)) fun c d =>
        d = c.declares ++ declared ++ dropped ∧ Standing dropped (c.assignments declared) :=
    .pure ⟨rfl, h⟩
  cases s with
  | declare type name value => exact hdeclare type name value
  | expr e =>
    cases e with
    | assign name value =>
      -- The name is declared unless it is in scope already.
      refine Yields.get.bind fun scope d ⟨hd, hn⟩ => ?_
      subst hd
      split
      · next h =>
        refine hplain _ fun a ha hs => ?_
        obtain rfl | ha := List.mem_cons.1 ha
        · exact (hn name).1 h
        · exact standing_nested _ _ a ha hs
      · exact hdeclare .auto name (some value)
    | _ => exact hplain _ (standing_nested _ _)
  | _ =>
    rintro placeholder s hs hd
    exact ⟨hs, hd, standing_nil⟩

end Standing

end Cpp

open Cpp

section Statements

variable {declared dropped : List String}

/-- In a scope of the declared names and `dropped`, the scope becomes what the code declares, and
the standing assignments of the code are to names in scope. -/
def Sound (declared dropped : List String) (g : Gen Code) : Prop :=
  Yields (declared ++ dropped) g fun c d =>
    d = c.declares ++ declared ++ dropped ∧ Standing dropped (c.assignments declared)

def BlockSound (declared dropped : List String) (g : Gen (List Code)) : Prop :=
  Yields (declared ++ dropped) g fun cs _ => Standing dropped (codeAssignments declared cs)

def ClausesSound (declared dropped : List String) (g : Gen (List Clause)) : Prop :=
  Yields (declared ++ dropped) g fun cs d =>
    d = declared ++ dropped ∧ Standing dropped (clauseAssignments declared cs)

theorem BlockSound.within {g : Gen (List Code)} (h : BlockSound declared dropped g) :
    Yields (declared ++ dropped) (inBlock [] g) fun cs d =>
      d = declared ++ dropped ∧ Standing dropped (codeAssignments declared cs) :=
  Yields.inBlock [] h

theorem BlockSound.under {name : String} {g : Gen (List Code)}
    (h : BlockSound (name :: declared) dropped g) :
    Yields (declared ++ dropped) (inBlock [name] (inBlock [] g)) fun cs d =>
      d = declared ++ dropped ∧ Standing dropped (codeAssignments (name :: declared) cs) := by
  apply Yields.inBlock [name]
  intro placeholder s hs hd
  obtain ⟨hs', -, hc⟩ := h.within placeholder s hs hd
  exact ⟨hs', hc⟩

theorem BlockSound.clause {condition : Expr} {g : Gen (List Code)} {rest : Gen (List Clause)}
    (h : BlockSound declared dropped g) (hr : ClausesSound declared dropped rest) :
    ClausesSound declared dropped (do
      let inner ← inBlock [] g
      return .mk condition inner :: (← rest)) :=
  h.within.andThen fun _ hi => Yields.andThen hr fun _ hr =>
    .pure ⟨rfl, ((standing_nested _ _).append hi).append hr⟩

variable (dropped)

mutual

theorem Stmt.sound : (s : Stmt) → (declared : List String) → Sound declared dropped s.code
  | .comment _, _ => .pure ⟨rfl, standing_nil⟩
  | .declare _ _ _, _ => (yields_simpleCode _).map
  | .expr _, _ => (yields_simpleCode _).map
  | .ret none, _ => .pure ⟨rfl, standing_nil⟩
  | .ret (some _), _ => .pure ⟨rfl, standing_nested _ _⟩
  | .conditional clause, d => clause.sound d
  | .forLoop initial condition increment body, d => by
    -- The head stands in a scope of its own, so that its names are gone behind the loop.
    have h : Yields (d ++ dropped) (inBlock [] do
        let head ← simpleCode initial
        let inner ← inBlock [] (blockCode body)
        return Code.forLoop head condition increment inner) fun c d' =>
          d' = d ++ dropped ∧ (Standing dropped (c.assignments d) ∧ c.declares = []) := by
      have hhead : Yields (d ++ dropped) (simpleCode initial) fun c d' =>
          d' = c.declares ++ d ++ dropped ∧ Standing dropped (c.assignments d) :=
        yields_simpleCode initial
      apply Yields.inBlock []
      refine hhead.bind fun head d' ⟨hd, hh⟩ => ?_
      subst hd
      refine (block_sound body _).within.andThen fun inner hi => .pure ⟨?_, rfl⟩
      exact ((hh.append (standing_nested _ _)).append (standing_nested _ _)).append hi
    intro placeholder s hs hd
    obtain ⟨hs', hd', hc, hn⟩ := h placeholder s hs hd
    exact ⟨hs', hn ▸ hd', hc⟩
  | .forIn name _ collection body, d =>
    (block_sound body (name :: d)).under.andThen fun _ hi =>
      .pure ⟨rfl, (standing_nested d collection).append hi⟩
  | .whileLoop condition body, d =>
    (block_sound body d).within.andThen fun _ hi =>
      .pure ⟨rfl, (standing_nested d condition).append hi⟩
  | .doWhile body condition, d =>
    (block_sound body d).within.andThen fun _ hi =>
      .pure ⟨rfl, hi.append (standing_nested d condition)⟩
  | .switch subject cases, d =>
    Yields.freshNumber.andThen fun _ _ => Yields.andThen (cases_sound cases d) fun _ hi =>
      .pure ⟨rfl, (standing_nested d subject).append hi⟩
  | .attempt body _ binding handler, d =>
    Yields.freshNumber.andThen fun _ _ => (block_sound body d).within.andThen fun _ hb =>
      (block_sound handler (binding :: d)).under.andThen fun _ hh => .pure ⟨rfl, hb.append hh⟩

theorem block_sound : (ss : List Stmt) → (declared : List String) →
    BlockSound declared dropped (blockCode ss)
  | [], _ => .pure standing_nil
  | s :: rest, d => by
    refine (s.sound d).bind fun c d' ⟨hd, hc⟩ => ?_
    subst hd
    exact (block_sound rest _).bind fun cs _ hcs => .pure (hc.append hcs)

theorem Conditional.sound : (c : Conditional) → (declared : List String) →
    Sound declared dropped c.code
  | .mk condition body elseIfs none, d =>
    (block_sound body d).within.andThen fun _ hb =>
      Yields.andThen (clauses_sound elseIfs d) fun _ hc => .pure ⟨rfl,
        (((standing_nested d condition).append hb).append hc).append standing_nil⟩
  | .mk condition body elseIfs (some b), d =>
    (block_sound body d).within.andThen fun _ hb =>
      Yields.andThen (clauses_sound elseIfs d) fun _ hc =>
        (block_sound b d).within.andThen fun _ hi => .pure ⟨rfl,
          (((standing_nested d condition).append hb).append hc).append hi⟩

theorem clauses_sound : (cs : List Conditional) → (declared : List String) →
    ClausesSound declared dropped (clausesCode cs)
  | [], _ => .pure ⟨rfl, standing_nil⟩
  | .mk _ body _ _ :: rest, d => (block_sound body d).clause (clauses_sound rest d)

theorem cases_sound : (cs : List Case) → (declared : List String) →
    ClausesSound declared dropped (casesCode cs)
  | [], _ => .pure ⟨rfl, standing_nil⟩
  | .mk _ body :: rest, d => (block_sound body d).clause (cases_sound rest d)

end

end Statements

/-- The body of a function, method or initializer. `before` is evaluated before it: the arguments
for the constructor of the base class. -/
structure Body where
  inMain : Bool
  indent : Nat
  parameters : List String
  before : List Expr
  statements : List Stmt

namespace Body

def code (b : Body) (number : Nat) : List Code :=
  (blockCode b.statements unsupportedStatement ⟨[b.parameters], number⟩).1

/-- The parameters of the C++ function. `main` has none. -/
def declared (b : Body) : List String := if b.inMain then [] else b.parameters

def assignments (b : Body) (number : Nat) : List Assignment :=
  b.before.flatMap (nested b.declared) ++ codeAssignments b.declared (b.code number)

end Body

def Function.outerBody (f : Function) : Body :=
  ⟨f.name == "main", 1, f.parameters.map Parameter.name, [], f.body⟩

def Function.methodBody (f : Function) : Body :=
  ⟨false, 2, f.parameters.map Parameter.name, [], f.body⟩

def Function.initializerBody (base : Option String) (f : Function) : Body :=
  match base with
  | none => f.methodBody
  | some base =>
    { f.methodBody with
      before := (takeBaseCall base f.body).1.elim [] fun arguments =>
        arguments.filter fun e => !isReceiver e
      statements := (takeBaseCall base f.body).2 }

def ClassDecl.bodies (c : ClassDecl) : List Body :=
  c.initializer.toList.map (Function.initializerBody c.base) ++
    c.classMethods.map Function.methodBody ++ c.instanceMethods.map Function.methodBody

mutual

def Declaration.bodies : Declaration → List Body
  | .function f => [f.outerBody]
  | .namespaceDecl _ declarations => bodiesOf declarations
  | .classDecl c => c.bodies
  | .importDecl _ => []

def bodiesOf : List Declaration → List Body
  | [] => []
  | d :: rest => d.bodies ++ bodiesOf rest

end

/-- A standing assignment is to a name in scope. Of these `main` declares no parameters. -/
theorem Body.standing (b : Body) (number : Nat) :
    Standing (if b.inMain then b.parameters else [])
      (codeAssignments b.declared (b.code number)) := by
  have hd : [b.parameters].flatten = b.declared ++ if b.inMain then b.parameters else [] := by
    cases h : b.inMain <;> simp [declared, h]
  exact (block_sound _ b.statements b.declared unsupportedStatement ⟨[b.parameters], number⟩
    (List.cons_ne_nil _ _) hd).2

/-- The bodies of a program, in which receivers are bound. -/
def Program.bodies (p : Program) : List Body := bodiesOf p.bind.declarations

section Programs

variable {classes : List String} {bodies bodies' : List Body}

/-- The generated lines hold the code of these bodies, and no block is left open. -/
def Holds (classes : List String) (bodies : List Body) (g : Gen (List Line)) : Prop :=
  ∀ s : Scope, s.blocks = [] → (g unsupportedStatement s).2.blocks = [] ∧
    ∀ b ∈ bodies, ∃ number, codeLines classes b.inMain b.indent (b.code number) <:+:
      (g unsupportedStatement s).1

theorem Holds.pure (lines : List Line) : Holds classes [] (Pure.pure lines) :=
  fun _ hs => ⟨hs, nofun⟩

theorem Holds.bind {g : Gen (List Line)} {f : List Line → Gen (List Line)}
    (hg : Holds classes bodies g) (hf : ∀ lines, Holds classes bodies' (f lines))
    (hlines : ∀ lines s, lines <:+: (f lines unsupportedStatement s).1) :
    Holds classes (bodies ++ bodies') (g >>= f) := by
  intro s hs
  obtain ⟨hs', hb⟩ := hg s hs
  obtain ⟨hs'', hb'⟩ := hf _ _ hs'
  refine ⟨hs'', List.forall_mem_append.2 ⟨fun b hm => ?_, hb'⟩⟩
  obtain ⟨number, hn⟩ := hb b hm
  exact ⟨number, hn.trans (hlines _ _)⟩

theorem holds_bodyLines (inMain : Bool) (indent : Nat) (parameters : List Parameter)
    (before : List Expr) (body : List Stmt) :
    Holds classes [⟨inMain, indent, parameters.map Parameter.name, before, body⟩]
      (bodyLines classes inMain indent parameters body) := by
  rintro ⟨blocks, number⟩ rfl
  refine ⟨rfl, fun b hb => ?_⟩
  obtain rfl := List.mem_singleton.1 hb
  refine ⟨number, ?_⟩
  rw [bodyLines, blockLines_eq, inBlock_map]
  exact List.infix_refl _

theorem Holds.around {g : Gen (List Line)} (hg : Holds classes bodies g)
    (before after : List Line) : Holds classes bodies (do return before ++ (← g) ++ after) := by
  have h := hg.bind (f := fun lines => Pure.pure (before ++ lines ++ after))
    (fun _ => .pure _) fun lines s => ⟨before, after, rfl⟩
  rwa [List.append_nil] at h

theorem Holds.followed {g g' : Gen (List Line)} (hg : Holds classes bodies g)
    (hg' : Holds classes bodies' g') {f : List Line → List Line}
    (hf : ∀ lines, lines <:+: f lines) :
    Holds classes (bodies ++ bodies') (do
      let lines ← g
      return f lines ++ (← g')) := by
  refine hg.bind (fun lines => ?_) fun lines s => ?_
  · have h := hg'.around (f lines) []
    simpa using h
  · exact (hf lines).trans (List.prefix_append _ _).isInfix

theorem holds_functionLines (f : Function) :
    Holds classes [f.outerBody] (functionLines classes f) :=
  (holds_bodyLines _ _ _ _ _).around _ _

theorem holds_methodLines (qualifier : String) (f : Function) :
    Holds classes [f.methodBody] (methodLines classes qualifier f) :=
  (holds_bodyLines _ _ _ _ _).around [_, _] _

theorem holds_methodsLines (qualifier : String) (fs : List Function) :
    Holds classes (fs.map Function.methodBody) (methodsLines classes qualifier fs) := by
  induction fs with
  | nil => exact .pure _
  | cons f rest ih => exact (holds_methodLines qualifier f).followed ih List.infix_refl

theorem holds_constructorLines (c : ClassDecl) (f : Function) :
    Holds classes [f.initializerBody c.base] (constructorLines classes c f) := by
  unfold constructorLines Function.initializerBody
  cases c.base with
  | none => exact (holds_bodyLines _ _ _ _ _).around [_, _] _
  | some base => exact (holds_bodyLines _ _ _ _ _).around [_, _] _

/-- The lines of a class, with these for its constructor. -/
def linesWith (table : ClassTable) (c : ClassDecl) (constructor : List Line) :
    Gen (List Line) := do
  let classMethods ← methodsLines table.names "static " c.classMethods
  let instanceMethods ← methodsLines table.names "" c.instanceMethods
  return [⟨0, classHead c⟩, ⟨0, "public:"⟩] ++ (table.declared c).map fieldLine ++
    constructor ++ classMethods ++ instanceMethods ++ [⟨0, "\x7d;"⟩]

theorem holds_linesWith (table : ClassTable) (c : ClassDecl) (constructor : List Line) :
    Holds table.names (c.classMethods.map Function.methodBody ++
      c.instanceMethods.map Function.methodBody) (linesWith table c constructor) := by
  refine (holds_methodsLines _ _).bind
    (fun _ => (holds_methodsLines _ _).around _ _) fun _ _ => ?_
  exact (List.infix_append _ _ _).trans (List.prefix_append _ _).isInfix

theorem infix_linesWith (table : ClassTable) (c : ClassDecl) (constructor : List Line)
    (s : Scope) : constructor <:+: (linesWith table c constructor unsupportedStatement s).1 :=
  (List.suffix_append _ constructor).isInfix.trans ((List.prefix_append _ _).trans
    ((List.prefix_append _ _).trans (List.prefix_append _ _))).isInfix

theorem holds_classLines (table : ClassTable) (c : ClassDecl) :
    Holds table.names c.bodies (classLines table c) := by
  unfold classLines ClassDecl.bodies
  rw [List.append_assoc]
  cases c.initializer with
  | none => exact holds_linesWith table c []
  | some f =>
    exact (holds_constructorLines c f).bind (holds_linesWith table c) (infix_linesWith table c)

mutual

theorem Declaration.holds (table : ClassTable) :
    (d : Declaration) → Holds table.names d.bodies (d.lines table)
  | .function f => holds_functionLines f
  | .namespaceDecl _ declarations => (nested_holds table true declarations).around [_] _
  | .classDecl c => holds_classLines table c
  | .importDecl _ => .pure _

theorem nested_holds (table : ClassTable) (first : Bool) :
    (ds : List Declaration) → Holds table.names (bodiesOf ds) (nestedLines table first ds)
  | [] => .pure _
  | d :: rest => (d.holds table).followed (nested_holds table false rest) fun lines =>
    (List.suffix_append (if first then [] else [Line.blank]) lines).isInfix

end

theorem holds_unitLines (table : ClassTable) (ds : List Declaration) :
    Holds table.names (bodiesOf ds) (unitLines table ds) := by
  induction ds with
  | nil => exact .pure _
  | cons d rest ih =>
    have h := (d.holds table).followed ih fun lines =>
      (List.prefix_append lines [Line.blank]).isInfix
    simp only [List.append_assoc, List.singleton_append] at h
    exact h

/-- In the generated code of every body, an assignment to a name has a declaration of it before it,
in the same block or in one around it, unless the assignment is nested in another expression or the
name is a parameter of `main`. -/
theorem Program.assignments_declared (p : Program) {b : Body} (hb : b ∈ p.bodies) :
    ∃ number before after,
      p.cppBody = renderLines (before ++
        codeLines (ClassTable.ofProgram p.bind).names b.inMain b.indent (b.code number) ++ after) ∧
      ∀ a ∈ b.assignments number, a.name ∈ a.declared ∨ a.standing = false ∨
        b.inMain = true ∧ a.name ∈ b.parameters := by
  obtain ⟨-, hall⟩ := holds_unitLines (ClassTable.ofProgram p.bind) p.bind.declarations .start rfl
  obtain ⟨number, before, after, h⟩ := hall b hb
  refine ⟨number, before, after, ?_, fun a ha => ?_⟩
  · rw [h]
    rfl
  · obtain ha | ha := List.mem_append.1 ha
    · obtain ⟨e, -, he⟩ := List.mem_flatMap.1 ha
      obtain ⟨name, -, rfl⟩ := List.mem_map.1 he
      exact .inr (.inl rfl)
    · by_cases hs : a.standing = true
      · obtain hd | hd := List.mem_append.1 (b.standing number a ha hs)
        · exact .inl hd
        · cases hm : b.inMain with
          | true => exact .inr (.inr ⟨rfl, by simpa [hm] using hd⟩)
          | false => simp [hm] at hd
      · exact .inr (.inl (Bool.eq_false_iff.2 hs))

theorem assignments_declared_loop :
    let statements : List Stmt := [.expr (.assign "x" (.integer 0)),
      .whileLoop (.binary .less (.identifier "x") (.integer 3)) [.expr (.assign "x" (.integer 4))]]
    let p : Program := ⟨[.function ⟨none, "main", [], statements⟩]⟩
    let b : Body := ⟨true, 1, [], [], statements⟩
    b ∈ p.bodies ∧ ∃ number, ∀ a ∈ b.assignments number,
      a.name ∈ a.declared ∨ a.standing = false ∨ b.inMain = true ∧ a.name ∈ b.parameters := by
  intro statements p b
  have hb : b ∈ p.bodies := List.mem_singleton.2 rfl
  obtain ⟨number, _, _, -, h⟩ := p.assignments_declared hb
  exact ⟨hb, number, h⟩

/-- `y = x = 1;` declares `y` only, and a parameter of `main` is declared nowhere. -/
theorem assignments_undeclared :
    let chained : List Stmt := [.expr (.assign "y" (.assign "x" (.integer 1)))]
    let single : List Stmt := [.expr (.assign "a" (.integer 1))]
    let p : Program := ⟨[.function ⟨none, "main", [], chained⟩]⟩
    let q : Program := ⟨[.function ⟨none, "main", [⟨"a", none⟩], single⟩]⟩
    p.cppBody = "int main() \x7b\n    std::cout << std::boolalpha;\n    auto y = x = 1;\n\x7d\n\n" ∧
      q.cppBody = "int main() \x7b\n    std::cout << std::boolalpha;\n    a = 1;\n\x7d\n\n" ∧
      (∃ b ∈ p.bodies, ∃ a ∈ b.assignments 0, a = ⟨"x", false, ["y"]⟩ ∧ a.name ∉ a.declared) ∧
      ∃ b ∈ q.bodies, ∃ a ∈ b.assignments 0, a = ⟨"a", true, []⟩ ∧ a.name ∉ a.declared := by
  decide

end Programs

end VnScript
