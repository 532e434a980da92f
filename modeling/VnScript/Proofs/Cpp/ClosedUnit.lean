import VnScript.Proofs.Cpp.ClosedClass
import VnScript.Proofs.Grammar.WellFormed

namespace VnScript

open Cpp

theorem not_mem_module {name : String} (h : IsModuleName name) {c : Char}
    (hw : Reading.inWord c = false) (hp : c ≠ '.') : c ∉ name.toList := by
  obtain ⟨parts, -, hparts, rfl⟩ := h
  induction parts with
  | nil => nofun
  | cons part rest ih =>
    obtain ⟨hname, hrest⟩ := List.forall_mem_cons.1 hparts
    have hpart : c ∉ part.toList := Reading.not_mem_of_inWord (Reading.inWord_of_isWord hname.1) hw
    cases rest with
    | nil => rwa [String.intercalate_singleton]
    | cons next rest =>
      have hpoint : c ∉ ".".toList := fun hc => hp (List.mem_singleton.1 hc)
      rw [String.intercalate_cons_cons, String.toList_append, String.toList_append, List.mem_append,
        List.mem_append, not_or, not_or]
      exact ⟨⟨hpart, hpoint⟩, ih hrest⟩

section Declarations

variable {table : ClassTable}

mutual

theorem Declaration.lines_closed (ht : table.WellFormed) : (d : Declaration) →
    d.WellFormed Expr.WellFormed → Makes (LinesTake [] []) (d.bind.lines table)
  | .function _, h => makes_functionLines Expr.WellFormed.named h.1 h.2
  | .namespaceDecl name ds, h => by
    have hspace : Takes [] [] "namespace " := takes_of fun _ => ⟨_, rfl⟩
    have hopen : Takes [] [.curly] " \x7b" := takes_of fun _ => ⟨_, rfl⟩
    have hname := member_of_name h.1
    refine (nestedLines_closed ht true ds h.2).bind fun inner hinner => .pure ?_
    have hbegin := (((hspace.append (takes_mangle hname)).append hopen).line 0).cons
      (hinner.around [.curly])
    exact hbegin.append (linesTake_commented rfl (Reading.not_mem_of_inWord (inWord_of_mangle hname) rfl))
  | .classDecl _, h => makes_classLines ht h.bind_named
  | .importDecl _, h => .pure (linesTake_commented rfl (not_mem_module h rfl (by decide)))

theorem nestedLines_closed (ht : table.WellFormed) (first : Bool) : (ds : List Declaration) →
    declarationsWellFormed Expr.WellFormed ds →
      Makes (LinesTake [] []) (nestedLines table first (bindDeclarations ds))
  | [], _ => .pure linesTake_nil
  | d :: rest, h => by
    refine (d.lines_closed ht h.1).bind fun lines hlines => ?_
    refine (nestedLines_closed ht false rest h.2).bind fun further hfurther => .pure ?_
    have hblank : LinesTake [] [] (if first then [] else [Line.blank]) := by
      cases first with
      | true => exact linesTake_nil
      | false => exact takes_empty.line 0
    exact (hblank.append hlines).append hfurther

end

end Declarations

namespace Cpp

section Prelude

open Scanner

inductive Spelled : List String → List (List Char) → Prop
  | nil : Spelled [] []
  | cons {cs : List Char} {lines : List String} {css : List (List Char)}
    (rest : Spelled lines css) : Spelled (String.ofList cs :: lines) (cs :: css)

variable {lines texts : List String}

theorem Spelled.toList_textOf {css : List (List Char)} (h : Spelled lines css) :
    (textOf lines).toList = css.flatMap (· ++ ['\n']) := by
  induction h with
  | nil => rfl
  | cons rest ih =>
    rw [textOf, List.map_cons, String.join_cons, String.toList_append, ← textOf, ih]
    simp

theorem scan_textOf {css : List (List Char)} (hs : Spelled lines css)
    (h : (css.flatMap (· ++ ['\n'])).foldlM next start = some start) :
    start.scan (textOf lines) = some start := by
  rw [scan, hs.toList_textOf, h]

theorem scan_join {s : Scanner} (h : ∀ text ∈ texts, s.scan text = some s) :
    s.scan (String.join texts) = some s := by
  induction texts with
  | nil => rfl
  | cons text rest ih =>
    obtain ⟨ht, hrest⟩ := List.forall_mem_cons.1 h
    rw [String.join_cons, scan_append, ht, Option.bind_some, ih hrest]

theorem scan_prelude : start.scan prelude = some start := by
  refine scan_join (List.forall_mem_map.2 ?_)
  simp only [List.forall_mem_cons, List.not_mem_nil, false_imp_iff, implies_true, and_true]
  refine ⟨?headers, ?errors, ?valueType, ?range, ?conversions, ?strings⟩
  -- The characters of the lines are found first, so that only lists of them are computed with.
  all_goals exact scan_textOf (by repeat' constructor) (by decide +kernel)

end Prelude

section Parts

def partLines (table : ClassTable) : List Declaration → Gen (List (List Line))
  | [] => return []
  | d :: rest => do
    let lines ← d.lines table
    return lines :: (← partLines table rest)

theorem unitLines_eq (table : ClassTable) (ds : List Declaration) (placeholder : Stmt → String)
    (s : Scope) : unitLines table ds placeholder s =
      ((partLines table ds placeholder s).1.flatMap (· ++ [Line.blank]),
        (partLines table ds placeholder s).2) := by
  induction ds generalizing s with
  | nil => rfl
  | cons d rest ih =>
    have hstep : unitLines table (d :: rest) placeholder s =
        ((d.lines table placeholder s).1 ++
            Line.blank :: (unitLines table rest placeholder (d.lines table placeholder s).2).1,
          (unitLines table rest placeholder (d.lines table placeholder s).2).2) := rfl
    rw [hstep, ih, List.append_cons]
    rfl

theorem length_partLines (table : ClassTable) (ds : List Declaration) :
    Makes (fun parts => parts.length = ds.length) (partLines table (bindDeclarations ds)) := by
  induction ds with
  | nil => exact .pure rfl
  | cons d rest ih =>
    exact (Makes.any _).bind fun lines _ => ih.bind fun parts hparts =>
      .pure (congrArg (· + 1) hparts)

theorem partLines_closed {table : ClassTable} (ht : table.WellFormed) {ds : List Declaration}
    (h : declarationsWellFormed Expr.WellFormed ds) :
    Makes (fun parts => ∀ lines ∈ parts, LinesTake [] [] lines)
      (partLines table (bindDeclarations ds)) := by
  induction ds with
  | nil => exact .pure nofun
  | cons d rest ih =>
    exact (d.lines_closed ht h.1).bind fun lines hlines => (ih h.2).bind fun parts hparts =>
      .pure (List.forall_mem_cons.2 ⟨hlines, hparts⟩)

theorem renderLines_parts (parts : List (List Line)) :
    renderLines (parts.flatMap (· ++ [Line.blank])) =
      String.join (parts.map fun lines => renderLines lines ++ "\n") := by
  induction parts with
  | nil => rfl
  | cons lines rest ih =>
    have hblank : renderLines [Line.blank] = "\n" := rfl
    rw [List.flatMap_cons, List.map_cons, String.join_cons, ← ih, renderLines_append,
      renderLines_append, hblank]

end Parts

end Cpp

namespace Program

variable {p : Program}

def unitLines (p : Program) : List Line :=
  let bound := p.bind
  let lines := Cpp.unitLines (ClassTable.ofProgram bound) bound.declarations
  ((lines.run unsupportedStatement).run .start).1

theorem cppBody_eq (p : Program) : p.cppBody = renderLines p.unitLines := rfl

/-- The lines of each top-level declaration, in the scope that those before it leave. -/
def declarationLines (p : Program) : List (List Line) :=
  let bound := p.bind
  let parts := partLines (ClassTable.ofProgram bound) bound.declarations
  ((parts.run unsupportedStatement).run .start).1

def declarationTexts (p : Program) : List String := p.declarationLines.map renderLines

theorem unitLines_parts (p : Program) :
    p.unitLines = p.declarationLines.flatMap (· ++ [Line.blank]) :=
  congrArg Prod.fst
    (unitLines_eq (ClassTable.ofProgram p.bind) p.bind.declarations unsupportedStatement .start)

/-- The generated code is the prelude and the texts of the declarations, each with a blank line
behind it. -/
theorem cpp_eq_join (p : Program) :
    p.cpp = Cpp.prelude ++ String.join (p.declarationTexts.map (· ++ "\n")) := by
  rw [cpp, cppBody_eq, unitLines_parts, renderLines_parts, declarationTexts, List.map_map]
  rfl

theorem length_declarationTexts (p : Program) :
    p.declarationTexts.length = p.declarations.length := by
  rw [declarationTexts, List.length_map]
  exact length_partLines (ClassTable.ofProgram p.bind) p.declarations unsupportedStatement .start

theorem WellFormed.linesTake (h : p.WellFormed Expr.WellFormed) :
    ∀ lines ∈ p.declarationLines, LinesTake [] [] lines :=
  partLines_closed h.table h unsupportedStatement .start

theorem WellFormed.unitLines_take (h : p.WellFormed Expr.WellFormed) :
    LinesTake [] [] p.unitLines := by
  have hdeclarations := h.linesTake
  rw [unitLines_parts]
  generalize p.declarationLines = parts at hdeclarations
  induction parts with
  | nil => exact linesTake_nil
  | cons lines rest ih =>
    obtain ⟨hfirst, hrest⟩ := List.forall_mem_cons.1 hdeclarations
    exact (hfirst.append (takes_empty.line 0)).append (ih hrest)

theorem WellFormed.declarationLines_closed (h : p.WellFormed Expr.WellFormed) :
    ∀ lines ∈ p.declarationLines, Scanner.start.scan (renderLines lines) = some .start :=
  fun lines hl => (h.linesTake lines hl).scan

theorem WellFormed.scan_cpp (h : p.WellFormed Expr.WellFormed) :
    Scanner.start.scan p.cpp = some .start := by
  have hend : Scanner.start.scan "\n" = some .start := rfl
  rw [cpp_eq_join, scan_append, scan_prelude, Option.bind_some]
  refine scan_join fun text ht => ?_
  obtain ⟨_, htext, rfl⟩ := List.mem_map.1 ht
  obtain ⟨lines, hl, rfl⟩ := List.mem_map.1 htext
  have hlines : Scanner.start.scan (renderLines lines) = some .start :=
    h.declarationLines_closed lines hl
  rw [scan_append, hlines, Option.bind_some, hend]

end Program

/-- The code that is generated for what is read from a text, and in it the text of each top-level
declaration, ends outside comments and literals and closes every bracket that it opens outside
them. -/
theorem parse_cpp_closed (source : String) (p : Program) (h : parse source = .ok p) :
    IsClosed p.cpp ∧
      p.cpp = Cpp.prelude ++ String.join (p.declarationTexts.map (· ++ "\n")) ∧
      p.declarationTexts.length = p.declarations.length ∧
      ∀ text ∈ p.declarationTexts, IsClosed text := by
  rw [parse_eq] at h
  have hp : p.WellFormed Expr.WellFormed :=
    (Scan.phrase_of_parse (Scan.lexed_ofString source) h).2.wellFormed
  refine ⟨⟨false, hp.scan_cpp⟩, p.cpp_eq_join, p.length_declarationTexts, fun text ht => ?_⟩
  obtain ⟨lines, hl, rfl⟩ := List.mem_map.1 ht
  exact ⟨false, hp.declarationLines_closed lines hl⟩

def quotedSource : String := "func f() \x7b | it's \"( /*\n return \"*/ [\"; \x7d"

def quotedProgram : Program :=
  ⟨[.function ⟨none, "f", [], [.comment "it's \"( /*", .ret (some (.string "*/ ["))]⟩]⟩

theorem quotedProgram_closed : parse quotedSource = .ok quotedProgram ∧
    IsClosed quotedProgram.cpp ∧
      quotedProgram.cpp =
        Cpp.prelude ++ String.join (quotedProgram.declarationTexts.map (· ++ "\n")) ∧
      quotedProgram.declarationTexts.length = quotedProgram.declarations.length ∧
      ∀ text ∈ quotedProgram.declarationTexts, IsClosed text :=
  have h : parse quotedSource = .ok quotedProgram := by decide +kernel
  ⟨h, parse_cpp_closed quotedSource quotedProgram h⟩

end VnScript
