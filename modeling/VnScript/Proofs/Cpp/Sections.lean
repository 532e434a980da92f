import VnScript.Proofs.Cpp.ClosedUnit
import VnScript.Proofs.Cpp.Declared
import VnScript.Proofs.Tree.Members

namespace VnScript

namespace Cpp

section Sections

variable {α β : Type} {IsSection : α → List β → Prop} {as as' : List α} {a : α}
  {lines lines' : List β}

/-- Lines in which there is a section for each of `as`, one behind the other. -/
inductive Sections {α β : Type} (IsSection : α → List β → Prop) : List α → List β → Prop
  | none (lines : List β) : Sections IsSection [] lines
  | next {a : α} {as : List α} {lines rest : List β} (gap : List β) (first : IsSection a lines)
    (further : Sections IsSection as rest) : Sections IsSection (a :: as) (gap ++ lines ++ rest)

theorem Sections.behind (h : Sections IsSection as lines) (start : List β) :
    Sections IsSection as (start ++ lines) := by
  cases h with
  | none => exact .none _
  | next gap first further =>
    rw [← List.append_assoc, ← List.append_assoc]
    exact .next (start ++ gap) first further

theorem Sections.append (h : Sections IsSection as lines) (h' : Sections IsSection as' lines') :
    Sections IsSection (as ++ as') (lines ++ lines') := by
  induction h with
  | none start => exact h'.behind start
  | next gap first _ ih =>
    rw [List.append_assoc]
    exact .next gap first ih

theorem Sections.around (h : Sections IsSection as lines) (start rest : List β) :
    Sections IsSection as (start ++ lines ++ rest) := by
  have hall := (h.behind start).append (.none rest)
  rwa [List.append_nil] at hall

theorem Sections.single (h : IsSection a lines) : Sections IsSection [a] lines := by
  have hall := Sections.next [] h (.none [])
  rwa [List.append_nil] at hall

theorem Sections.split (h : Sections IsSection (as ++ a :: as') lines) :
    ∃ start middle rest, lines = start ++ middle ++ rest ∧ Sections IsSection as start ∧
      IsSection a middle ∧ Sections IsSection as' rest := by
  induction as generalizing lines with
  | nil =>
    cases h with
    | next gap first further => exact ⟨gap, _, _, rfl, .none gap, first, further⟩
  | cons b as ih =>
    cases h with
    | next gap first further =>
      obtain ⟨start, middle, rest, rfl, hstart, hmiddle, hrest⟩ := ih further
      refine ⟨_, middle, rest, ?_, .next gap first hstart, hmiddle, hrest⟩
      simp only [List.append_assoc]

end Sections

section Classes

variable {table : ClassTable} {classes : List String} {c : ClassDecl} {lines lines' : List Line}

/-- Lines that a blank line sets off, if there are any. -/
def IsSetOff (lines : List Line) : Prop := ∀ l ∈ lines.head?, l = Line.blank

/-- The lines of a class that declares these fields: its head, a line for each of them, and a blank
line or the end behind them. -/
def DeclaresFields (c : ClassDecl) (fields : List Field) (lines : List Line) : Prop :=
  ∃ body, IsSetOff body ∧ lines = ⟨0, classHead c⟩ :: ⟨0, "public:"⟩ ::
    fields.map fieldLine ++ body ++ [⟨0, "\x7d;"⟩]

def IsClassSection (table : ClassTable) (c : ClassDecl) (lines : List Line) : Prop :=
  DeclaresFields c (table.declared c.bind) lines

theorem IsSetOff.append (h : IsSetOff lines) (h' : IsSetOff lines') :
    IsSetOff (lines ++ lines') := by
  cases lines with
  | nil => exact h'
  | cons l rest => exact h

theorem isSetOff_blank (lines : List Line) : IsSetOff (Line.blank :: lines) := fun _ hl =>
  (Option.mem_some_iff.1 hl).symm

theorem isSetOff_methods (qualifier : String) (fs : List Function) :
    Makes IsSetOff (methodsLines classes qualifier fs) := by
  induction fs with
  | nil => exact .pure nofun
  | cons f rest ih =>
    have hfirst : Makes IsSetOff (methodLines classes qualifier f) :=
      (Makes.any _).bind fun body _ => .pure (isSetOff_blank _)
    exact hfirst.bind fun _ hlines => ih.bind fun _ hrest => .pure (hlines.append hrest)

theorem isSetOff_constructor (c : ClassDecl) (f : Function) :
    Makes IsSetOff (constructorLines classes c f) := by
  unfold constructorLines
  cases c.base with
  | none => exact (Makes.any _).bind fun _ _ => .pure (isSetOff_blank _)
  | some base => exact (Makes.any _).bind fun _ _ => .pure (isSetOff_blank _)

theorem makes_section (table : ClassTable) (c : ClassDecl) :
    Makes (IsClassSection table c) (classLines table c.bind) := by
  have hrest (constructor : List Line) (hc : IsSetOff constructor) :
      Makes (IsClassSection table c) (linesWith table c.bind constructor) := by
    refine (isSetOff_methods _ _).bind fun _ hcs => ?_
    refine (isSetOff_methods _ _).bind fun _ his => .pure ?_
    exact ⟨_, (hc.append hcs).append his, by simp only [List.append_assoc]; rfl⟩
  unfold classLines
  split
  · exact (isSetOff_constructor _ _).bind hrest
  · exact hrest [] nofun

mutual

theorem makes_sections (table : ClassTable) : (d : Declaration) →
    Makes (Sections (IsClassSection table) d.classes) (d.bind.lines table)
  | .function _ | .importDecl _ => fun _ _ => .none _
  | .namespaceDecl _ ds => (nested_sections table true ds).bind fun _ hinner =>
    .pure (hinner.around [_] [_])
  | .classDecl c => fun placeholder s => .single (makes_section table c placeholder s)

theorem nested_sections (table : ClassTable) (first : Bool) : (ds : List Declaration) →
    Makes (Sections (IsClassSection table) (classesOf ds))
      (nestedLines table first (bindDeclarations ds))
  | [] => .pure (.none [])
  | d :: rest => (makes_sections table d).bind fun _ hlines =>
    (nested_sections table false rest).bind fun _ hfurther =>
      .pure ((hlines.behind _).append hfurther)

end

theorem unit_sections (table : ClassTable) (ds : List Declaration) :
    Makes (Sections (IsClassSection table) (classesOf ds))
      (unitLines table (bindDeclarations ds)) := by
  induction ds with
  | nil => exact .pure (.none [])
  | cons d rest ih =>
    exact (makes_sections table d).bind fun _ hlines => ih.bind fun further hfurther =>
      .pure (hlines.append (hfurther.behind [Line.blank]))

end Classes

end Cpp

namespace Program

open Cpp

/-- The generated lines have a section for every class, in source order. -/
theorem sections (p : Program) :
    Sections (IsClassSection (ClassTable.ofProgram p.bind)) p.classes p.unitLines :=
  unit_sections (ClassTable.ofProgram p.bind) p.declarations unsupportedStatement .start

end Program

end VnScript
