import VnScript.Proofs.Cpp.Returns
import VnScript.Proofs.Tree.Nested

namespace VnScript

/-- Whether a function has the name of the one where a program starts. -/
def Function.isMain (f : Function) : Bool := f.name == "main"

namespace Cpp

def entryLine : Line := ⟨0, "int main() \x7b"⟩

def Line.isEntry (l : Line) : Bool := l.indent == 0 && l.text == entryLine.text

/-- The first line of a function with its own type, name and parameters. -/
def ownHead (f : Function) : Line :=
  ⟨0, (f.result.map typeText).getD "auto" ++ " " ++ mangle f.name ++ "(" ++
    parameterList f.parameters ++ ") \x7b"⟩

def openingLines (f : Function) : List Line :=
  if f.isMain then [entryLine, ⟨1, "std::cout << std::boolalpha;"⟩] else [ownHead f]

section Heads

variable {f : Function} {name text : String} {indent : Nat} {l : Line}

theorem dashless_eq_self (h : '_' ∉ (dashless name).toList) : dashless name = name := by
  have hkept : ∀ c ∈ name.toList, (if c = '-' then '_' else c) = c := by
    intro c hc
    refine if_neg fun hdash => h ?_
    rw [dashless, String.toList_ofList]
    exact List.mem_map.2 ⟨c, hc, if_pos hdash⟩
  rw [dashless, List.map_congr_left hkept, List.map_id', String.ofList_toList]

theorem mangle_eq_self (h : '_' ∉ (mangle name).toList) : mangle name = name := by
  unfold mangle at h ⊢
  split at h
  · exact absurd (by simp) h
  · next hr => rw [if_neg hr, dashless_eq_self h]

theorem isEntry_eq_false (h : l.text.toList.head? ≠ some 'i') : l.isEntry = false := by
  have htext : l.text ≠ entryLine.text := fun he => h (by rw [he]; rfl)
  rw [Line.isEntry, beq_eq_false_iff_ne.2 htext, Bool.and_false]

theorem isEntry_ownHead (h : f.isMain = false) : (ownHead f).isEntry = false := by
  have hname : f.name ≠ "main" := beq_eq_false_iff_ne.1 h
  cases hr : f.result with
  | none => exact isEntry_eq_false (by simp [ownHead, hr])
  | some t =>
    cases t with
    | int =>
      -- the only type with which a head begins like that line, so that the names have to differ
      have htext : (ownHead f).text ≠ entryLine.text := by
        intro he
        have hchars : "main".toList ++ '(' :: ") \x7b".toList = (mangle f.name).toList ++
            '(' :: ((parameterList f.parameters).toList ++ ") \x7b".toList) := by
          simpa [ownHead, hr, entryLine, typeText] using (congrArg String.toList he).symm
        obtain ⟨hmain, -⟩ := (List.append_cons_inj_of_notMem (by decide) (by decide)).1 hchars
        have hmangle : mangle f.name = "main" := (String.toList_inj.1 hmain).symm
        refine hname ((mangle_eq_self ?_).symm.trans hmangle)
        rw [hmangle]
        decide
      rw [Line.isEntry, beq_eq_false_iff_ne.2 htext, Bool.and_false]
    | _ => exact isEntry_eq_false (by simp [ownHead, hr, typeText])

end Heads

section Indented

variable {classes : List String} {inMain : Bool} {indent : Nat} {l : Line}
  {lines lines' : List Line}

def Indented (indent : Nat) (lines : List Line) : Prop := ∀ l ∈ lines, indent ≤ l.indent

theorem indented_nil : Indented indent [] := nofun

theorem Indented.cons (h : Indented indent lines) (hl : indent ≤ l.indent) :
    Indented indent (l :: lines) := List.forall_mem_cons.2 ⟨hl, h⟩

theorem Indented.append (h : Indented indent lines) (h' : Indented indent lines') :
    Indented indent (lines ++ lines') := List.forall_mem_append.2 ⟨h, h'⟩

theorem Indented.within (h : Indented (indent + 1) lines) : Indented indent lines :=
  fun l hl => (Nat.le_succ indent).trans (h l hl)

theorem Indented.ended (h : Indented indent lines) (text : String) :
    Indented indent (lines ++ [⟨indent, text⟩]) := h.append (indented_nil.cons le_rfl)

theorem indented_return (value : Option Expr) :
    Indented indent (returnLines classes inMain indent value) := by
  cases inMain <;> cases value <;> simp [Indented, returnLines]

theorem indented_noMatch (subject : String) (first : Bool) :
    Indented indent (noMatchLines indent subject first) := by
  simp [Indented, noMatchLines]

theorem indented_catch (caught errorType binding : String) :
    Indented indent (catchLines indent caught errorType binding) := by
  unfold catchLines
  split <;> simp [Indented]

mutual

theorem Code.indented (indent : Nat) : (c : Code) → Indented indent (c.lines classes inMain indent)
  | .comment _ | .simple _ => indented_nil.cons le_rfl
  | .ret value => indented_return value
  | .conditional (.mk _ body) further none =>
    ((((codeLines_indented (indent + 1) body).within.cons le_rfl).append
      (furtherLines_indented indent further)).append indented_nil).ended _
  | .conditional (.mk _ body) further (some b) =>
    ((((codeLines_indented (indent + 1) body).within.cons le_rfl).append
      (furtherLines_indented indent further)).append
        ((codeLines_indented (indent + 1) b).within.cons le_rfl)).ended _
  | .forLoop _ _ _ body | .forIn _ _ _ body | .whileLoop _ body | .doWhile body _ =>
    ((codeLines_indented (indent + 1) body).within.cons le_rfl).ended _
  | .switch name _ cases =>
    ((((casesLines_indented (indent + 1) name "if" cases).within.cons (Nat.le_succ indent)).cons
      le_rfl).append (indented_noMatch name cases.isEmpty).within).ended _
  | .attempt body caught errorType binding handler =>
    ((((codeLines_indented (indent + 1) body).within.cons le_rfl).append
      (indented_catch caught errorType binding)).append
        (codeLines_indented (indent + 1) handler).within).ended _

theorem codeLines_indented (indent : Nat) : (cs : List Code) →
    Indented indent (codeLines classes inMain indent cs)
  | [] => indented_nil
  | c :: rest => (c.indented indent).append (codeLines_indented indent rest)

theorem furtherLines_indented (indent : Nat) : (cs : List Clause) →
    Indented indent (furtherLines classes inMain indent cs)
  | [] => indented_nil
  | .mk _ body :: rest => ((codeLines_indented (indent + 1) body).within.cons le_rfl).append
    (furtherLines_indented indent rest)

theorem casesLines_indented (indent : Nat) (subject word : String) : (cs : List Clause) →
    Indented indent (casesLines classes inMain indent subject word cs)
  | [] => indented_nil
  | .mk _ body :: rest => ((codeLines_indented (indent + 1) body).within.cons le_rfl).append
    ((casesLines_indented indent subject "else if" rest).cons le_rfl)

end

end Indented

section Entries

variable {classes : List String} {f : Function} {fs fs' : List Function} {l : Line}
  {lines lines' : List Line}

/-- The lines of a function outside of classes: its head, and the code of its body, in which the
return statements of the source stand with their values. -/
def IsFunctionSection (classes : List String) (f : Function) (lines : List Line) : Prop :=
  ∃ code, (∃ placeholder s, (bodyCode f.parameters f.body placeholder s).1 = code) ∧
    codeReturns code = blockReturns f.body ∧
    Sections (IsReturn classes f.isMain) (codeReturns code) (codeLines classes f.isMain 1 code) ∧
    lines = openingLines f ++ codeLines classes f.isMain 1 code ++ [⟨0, "\x7d"⟩]

/-- Lines with a section for each of the functions, and with no other line like the one where a
program starts than those of functions of that name. -/
structure HoldsFunctions (classes : List String) (fs : List Function) (lines : List Line) :
    Prop where
  sections : Sections (IsFunctionSection classes) fs lines
  entries : lines.countP Line.isEntry = fs.countP Function.isMain

theorem HoldsFunctions.append (h : HoldsFunctions classes fs lines)
    (h' : HoldsFunctions classes fs' lines') :
    HoldsFunctions classes (fs ++ fs') (lines ++ lines') where
  sections := h.sections.append h'.sections
  entries := by rw [List.countP_append, List.countP_append, h.entries, h'.entries]

theorem holdsFunctions_nil : HoldsFunctions classes [] [] := ⟨.none [], rfl⟩

theorem HoldsFunctions.cons (h : HoldsFunctions classes fs lines) (hl : l.isEntry = false) :
    HoldsFunctions classes fs (l :: lines) where
  sections := h.sections.behind [l]
  entries := by rw [List.countP_cons_of_neg (by rw [hl]; decide), h.entries]

theorem HoldsFunctions.ended (h : HoldsFunctions classes fs lines) (hl : l.isEntry = false) :
    HoldsFunctions classes fs (lines ++ [l]) := by
  have hall := h.append (holdsFunctions_nil.cons hl)
  rwa [List.append_nil] at hall

theorem Indented.entries (h : Indented 1 lines) : lines.countP Line.isEntry = 0 := by
  refine List.countP_eq_zero.2 fun l hl => ?_
  have hne : l.indent ≠ 0 := Nat.one_le_iff_ne_zero.1 (h l hl)
  rw [Line.isEntry, beq_eq_false_iff_ne.2 hne, Bool.false_and]
  decide

theorem Indented.holdsFunctions (h : Indented 1 lines) : HoldsFunctions classes [] lines :=
  ⟨.none lines, h.entries⟩

theorem functionLines_eq (f : Function) :
    functionLines classes f = (fun code => openingLines f ++
      codeLines classes f.isMain 1 code ++ [⟨0, "\x7d"⟩]) <$> bodyCode f.parameters f.body := by
  rw [functionLines, bodyLines_eq]
  simp [openingLines, ownHead, entryLine, Function.isMain]

theorem entries_openingLines (f : Function) :
    (openingLines f).countP Line.isEntry = [f].countP Function.isMain := by
  unfold openingLines
  cases hf : f.isMain with
  | true => simp [hf, Line.isEntry, entryLine]
  | false => simp [hf, isEntry_ownHead hf]

theorem makes_function (f : Function) :
    Makes (HoldsFunctions classes [f]) (functionLines classes f) := by
  rw [functionLines_eq]
  intro placeholder s
  let code := (bodyCode f.parameters f.body placeholder s).1
  have hsection : IsFunctionSection classes f
      (openingLines f ++ codeLines classes f.isMain 1 code ++ [⟨0, "\x7d"⟩]) :=
    ⟨code, ⟨placeholder, s, rfl⟩, bodyCode_returns _ _ placeholder s, codeReturns_lines 1 code, rfl⟩
  have hbody : (codeLines classes f.isMain 1 code).countP Line.isEntry = 0 :=
    (codeLines_indented 1 code).entries
  have hentries : (openingLines f ++ codeLines classes f.isMain 1 code ++
      [Line.mk 0 "\x7d"]).countP Line.isEntry = [f].countP Function.isMain := by
    rw [List.countP_append, List.countP_append, entries_openingLines, hbody]
    rfl
  exact ⟨.single hsection, hentries⟩

theorem makes_indented (inMain : Bool) (indent : Nat) (parameters : List Parameter)
    (body : List Stmt) :
    Makes (Indented indent) (bodyLines classes inMain indent parameters body) := by
  rw [bodyLines_eq]
  exact fun placeholder s => codeLines_indented indent _

theorem makes_methods (qualifier : String) (fs : List Function) :
    Makes (HoldsFunctions classes []) (methodsLines classes qualifier fs) := by
  induction fs with
  | nil => exact .pure holdsFunctions_nil
  | cons f rest ih =>
    refine Makes.bind (P := HoldsFunctions classes []) ?_ fun _ hlines => ih.bind fun _ hrest =>
      .pure (hlines.append hrest)
    refine (makes_indented false 2 f.parameters f.body).bind fun body hbody => .pure ?_
    exact ((hbody.within.cons le_rfl).ended _).holdsFunctions.cons rfl

theorem makes_constructor (c : ClassDecl) (f : Function) :
    Makes (HoldsFunctions classes []) (constructorLines classes c f) := by
  have hlines (start : String) (body : List Stmt) : Makes (HoldsFunctions classes []) (do
      let inner ← bodyLines classes false 2 f.parameters body
      return Line.blank :: ⟨1, mangle c.name ++ "(" ++ parameterList f.parameters ++ ")" ++ start ++
        " \x7b"⟩ :: inner ++ [⟨1, "\x7d"⟩]) :=
    (makes_indented false 2 f.parameters body).bind fun body hbody =>
      .pure (((hbody.within.cons le_rfl).ended _).holdsFunctions.cons rfl)
  unfold constructorLines
  cases c.base with
  | none => exact hlines _ _
  | some base => exact hlines _ _

theorem isEntry_classHead (c : ClassDecl) : (Line.mk 0 (classHead c)).isEntry = false := by
  refine isEntry_eq_false ?_
  unfold classHead
  split <;> simp

theorem makes_class (table : ClassTable) (c : ClassDecl) :
    Makes (HoldsFunctions table.names []) (classLines table c) := by
  have hfields : HoldsFunctions table.names [] ((table.declared c).map fieldLine) :=
    Indented.holdsFunctions (List.forall_mem_map.2 fun _ _ => le_rfl)
  have hrest (constructor : List Line) (hc : HoldsFunctions table.names [] constructor) :
      Makes (HoldsFunctions table.names []) (linesWith table c constructor) := by
    refine (makes_methods _ _).bind fun _ hcs => (makes_methods _ _).bind fun _ his => .pure ?_
    exact ((((((hfields.cons rfl).cons (isEntry_classHead c)).append hc).append hcs).append
      his).ended rfl)
  unfold classLines
  split
  · exact (makes_constructor _ _).bind hrest
  · exact hrest [] holdsFunctions_nil

mutual

theorem makes_functions (table : ClassTable) : (d : Declaration) →
    Makes (HoldsFunctions table.names (d.members.filterMap Declaration.function?)) (d.lines table)
  | .function f => makes_function f
  | .namespaceDecl name ds => (nested_functions table true ds).bind fun _ hinner =>
    .pure ((hinner.cons (isEntry_eq_false (by simp))).ended (isEntry_eq_false (by simp)))
  | .classDecl c => makes_class table c
  | .importDecl _ => .pure (holdsFunctions_nil.cons (isEntry_eq_false (by simp)))

theorem nested_functions (table : ClassTable) (first : Bool) : (ds : List Declaration) →
    Makes (HoldsFunctions table.names ((membersOf ds).filterMap Declaration.function?))
      (nestedLines table first ds)
  | [] => .pure holdsFunctions_nil
  | d :: rest => by
    refine (makes_functions table d).bind fun lines hlines =>
      (nested_functions table false rest).bind fun _ hrest => .pure ?_
    rw [membersOf, List.filterMap_append]
    cases first with
    | true => exact hlines.append hrest
    | false => exact (hlines.cons rfl).append hrest

end

theorem unit_functions (table : ClassTable) (ds : List Declaration) :
    Makes (HoldsFunctions table.names ((membersOf ds).filterMap Declaration.function?))
      (unitLines table ds) := by
  induction ds with
  | nil => exact .pure holdsFunctions_nil
  | cons d rest ih =>
    refine (makes_functions table d).bind fun _ hlines => ih.bind fun _ hrest => .pure ?_
    rw [membersOf, List.filterMap_append]
    exact hlines.append (hrest.cons rfl)

end Entries

end Cpp

open Cpp

namespace Program

variable (p : Program)

theorem holdsFunctions :
    HoldsFunctions (ClassTable.ofProgram p.bind).names p.functions p.unitLines := by
  rw [← p.functions_bind]
  exact unit_functions (ClassTable.ofProgram p.bind) p.bind.declarations unsupportedStatement .start

theorem countP_functions (P : Function → Bool) :
    p.functions.countP P = p.outerFunctions.countP P + p.innerFunctions.countP P := by
  rw [← List.countP_append]
  exact (filterMap_membersOf (fun _ _ => rfl) p.declarations).countP_eq P

theorem function?_eq_find? (name : String) :
    p.function? name = p.outerFunctions.find? fun f => f.name == name := by
  rw [outerFunctions, function?]
  induction p.declarations with
  | nil => rfl
  | cons d rest ih =>
    cases d with
    | function f =>
      have hpick : (Declaration.function f).function? = some f := rfl
      rw [List.filterMap_cons_some hpick, List.findSome?_cons, List.find?_cons, ← ih]
      by_cases hf : f.name = name
      · simp [hf]
      · have hne : (f.name == name) = false := beq_eq_false_iff_ne.2 hf
        simp [hf, hne]
    | namespaceDecl _ _ | classDecl _ | importDecl _ => exact ih

end Program

/-- In the generated lines every function outside of classes has its section: one named `main` at
any depth that of the entry point, every other one that with its own type, name and parameters,
where return statements keep their values. So the entry points are those of the functions named
`main` at top level, which are the ones found by that name, exactly if no namespace holds another
function named `main`. -/
theorem entry_points (p : Program) :
    p.cppBody = renderLines p.unitLines ∧
    Sections (IsFunctionSection (ClassTable.ofProgram p.bind).names) p.functions p.unitLines ∧
    p.unitLines.countP Line.isEntry = p.functions.countP Function.isMain ∧
    (p.unitLines.countP Line.isEntry = p.outerFunctions.countP Function.isMain ↔
      ∀ f ∈ p.innerFunctions, f.name ≠ "main") ∧
    p.function? "main" = p.outerFunctions.find? Function.isMain := by
  obtain ⟨hsections, hentries⟩ := p.holdsFunctions
  refine ⟨p.cppBody_eq, hsections, hentries, ?_, p.function?_eq_find? "main"⟩
  rw [hentries, p.countP_functions, Nat.add_eq_left, List.countP_eq_zero]
  simp only [Function.isMain, beq_iff_eq]

def innerMainSource : String := "namespace n \x7b func main(a) \x7b return a; \x7d \x7d"

def innerMain : Program :=
  ⟨[.namespaceDecl "n"
    [.function ⟨none, "main", [⟨"a", none⟩], [.ret (some (.identifier "a"))]⟩]]⟩

/-- A function named `main` in a namespace becomes an entry point, without its parameter and its
result. -/
theorem innerMain_entry : parse innerMainSource = .ok innerMain ∧
    innerMain.function? "main" = none ∧
    innerMain.cppBody = "namespace n \x7b\nint main() \x7b\n    std::cout << std::boolalpha;\n" ++
      "    static_cast<void>(a);\n    return 0;\n\x7d\n\x7d // namespace n\n\n" := by
  refine ⟨by decide +kernel, rfl, ?_⟩
  decide +kernel

end VnScript
