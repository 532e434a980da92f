import VnScript.Proofs.Cpp.Phases

namespace VnScript

namespace Cpp

section Lines

variable {a : String} {texts : List String} {lines : List (List Char)}

/-- A line that is one for C++ too, with all comments and literals closed behind it. -/
structure Stands (cs : List Char) : Prop where
  oneLine : '\n' ∉ cs
  complete : IsComplete cs
  closed : IsClosedLine cs

theorem logicalLines_append (ha : a.toList = ofLines lines) (h : ∀ cs ∈ lines, Stands cs)
    (b : String) : logicalLines (a ++ b) = lines ++ logicalLines b := by
  rw [logicalLines, String.toList_append, ha,
    spliced_ofLines fun cs hc => ⟨(h cs hc).oneLine, (h cs hc).complete⟩,
    splitOn_ofLines fun cs hc => (h cs hc).oneLine]
  rfl

theorem readLines_append (ha : a.toList = ofLines lines) (h : ∀ cs ∈ lines, Stands cs)
    (b : String) :
    readLines (a ++ b) = (lines.map uncommented).filter notBlank ++ readLines b := by
  have hcode : ∀ cs ∈ lines.map uncommented, '\n' ∉ cs :=
    List.forall_mem_map.2 fun cs hc => newline_not_mem_uncommented (h cs hc).oneLine
  rw [readLines, String.toList_append, ha,
    spliced_ofLines fun cs hc => ⟨(h cs hc).oneLine, (h cs hc).complete⟩,
    uncommented_ofLines fun cs hc => (h cs hc).closed, splitOn_ofLines hcode, List.filter_append]
  rfl

theorem logicalLines_of (ha : a.toList = ofLines lines) (h : ∀ cs ∈ lines, Stands cs) :
    logicalLines a = lines ++ [[]] := by
  rw [← String.append_empty (s := a), logicalLines_append ha h]
  rfl

theorem readLines_of (ha : a.toList = ofLines lines) (h : ∀ cs ∈ lines, Stands cs) :
    readLines a = (lines.map uncommented).filter notBlank := by
  rw [← String.append_empty (s := a), readLines_append ha h]
  exact List.append_nil _

theorem stands_textOf {css : List (List Char)} (hs : Spelled texts css)
    (h : ∀ cs ∈ css, '\n' ∉ cs ∧ IsComplete cs ∧ IsClosedLine cs) :
    ∃ lines, (textOf texts).toList = ofLines lines ∧ ∀ cs ∈ lines, Stands cs := by
  refine ⟨css, hs.toList_textOf, fun cs hc => ?_⟩
  obtain ⟨hline, hcomplete, hclosed⟩ := h cs hc
  exact ⟨hline, hcomplete, hclosed⟩

theorem stands_join
    (h : ∀ text ∈ texts, ∃ lines, text.toList = ofLines lines ∧ ∀ cs ∈ lines, Stands cs) :
    ∃ lines, (String.join texts).toList = ofLines lines ∧ ∀ cs ∈ lines, Stands cs := by
  induction texts with
  | nil => exact ⟨[], rfl, nofun⟩
  | cons text rest ih =>
    obtain ⟨⟨first, hfirst, hs⟩, hrest⟩ := List.forall_mem_cons.1 h
    obtain ⟨further, hfurther, hs'⟩ := ih hrest
    refine ⟨first ++ further, ?_, List.forall_mem_append.2 ⟨hs, hs'⟩⟩
    rw [String.join_cons, String.toList_append, hfirst, hfurther, ofLines_append]

theorem stands_prelude :
    ∃ lines, prelude.toList = ofLines lines ∧ ∀ cs ∈ lines, Stands cs := by
  refine stands_join (List.forall_mem_map.2 ?_)
  simp only [List.forall_mem_cons, List.not_mem_nil, false_imp_iff, implies_true, and_true]
  refine ⟨?headers, ?errors, ?valueType, ?range, ?conversions, ?strings⟩
  -- As for the brackets of the prelude, only lists of characters are computed with.
  all_goals exact stands_textOf (by repeat' constructor) (by decide +kernel)

theorem LinesTake.mem {k k' : List Bracket} {generated : List Line} (h : LinesTake k k' generated)
    {l : Line} (hl : l ∈ generated) : ∃ k k', LineTakes k k' l := by
  induction h with
  | none => cases hl
  | line first _ ih =>
    obtain rfl | hl := List.mem_cons.1 hl
    · exact ⟨_, _, first⟩
    · exact ih hl

theorem LineTakes.closed {k k' : List Bracket} {l : Line} (h : LineTakes k k' l) :
    IsClosedLine l.characters := by
  have hmode := mode_scan h.scan
  rw [toList_render] at hmode
  exact hmode.symm

end Lines

section Comments

def IsCommentLine (text : String) (cs : List Char) : Prop :=
  ∃ indent, cs = List.replicate indent ' ' ++ "// ".toList ++ text.toList

variable {text : String} {l : Line}

theorem IsComment.characters (h : IsComment text l) : IsCommentLine text l.characters := by
  obtain ⟨indent, rfl⟩ := h
  exact ⟨4 * indent, by rw [Line.characters, String.toList_append, List.append_assoc]⟩

theorem IsComment.newline_not_mem (h : IsComment text l) (hn : '\n' ∉ l.text.toList) :
    '\n' ∉ text.toList := by
  obtain ⟨indent, rfl⟩ := h
  rw [String.toList_append, List.mem_append, not_or] at hn
  exact hn.2

theorem IsComment.blank (h : IsComment text l) (hn : '\n' ∉ text.toList) :
    notBlank (uncommented l.characters) = false := by
  obtain ⟨indent, rfl⟩ := h
  have htext : '\n' ∉ ' ' :: text.toList := List.mem_cons.not.2 (not_or.2 ⟨by decide, hn⟩)
  rw [Line.characters, String.toList_append]
  exact congrArg (!·) (uncommented_comment htext (4 * indent))

theorem IsComment.ended (h : IsComment text l) : Ended l.text ↔ Ended text := by
  obtain ⟨indent, rfl⟩ := h
  have hslashes : "// ".toList.getLast? = some ' ' := rfl
  rw [Ended, Ended, String.toList_append, List.getLast?_append, hslashes]
  cases text.toList.getLast? with
  | some c => exact Iff.rfl
  | none => decide

end Comments

end Cpp

open Cpp

namespace Program

variable {p : Program}

theorem WellFormed.oneLine (h : p.WellFormed Expr.WellFormed) {l : Line} (hl : l ∈ p.unitLines) :
    '\n' ∉ l.text.toList := by
  obtain ⟨_, _, htakes⟩ := h.unitLines_take.mem hl
  exact htakes.oneLine

theorem WellFormed.stands (h : p.WellFormed Expr.WellFormed) {l : Line} (hl : l ∈ p.unitLines)
    (he : Ended l.text) : Stands l.characters := by
  obtain ⟨_, _, htakes⟩ := h.unitLines_take.mem hl
  exact ⟨newline_not_mem_characters htakes.oneLine, (isComplete_characters l).2 he, htakes.closed⟩

theorem WellFormed.stands_code (h : p.WellFormed Expr.WellFormed) :
    ∀ l ∈ p.withoutComments.unitLines, Stands l.characters := fun l hl =>
  h.stands (h.interleaves.annotated.code_subset hl) (h.interleaves.ended l hl)

theorem WellFormed.stands_all (h : p.WellFormed Expr.WellFormed)
    (hc : ∀ text ∈ p.comments, Ended text) : ∀ l ∈ p.unitLines, Stands l.characters := by
  have hended : ∀ l ∈ p.unitLines, Ended l.text :=
    h.interleaves.annotated.forall_mem h.interleaves.ended fun text ht _ hl =>
      hl.ended.2 (hc text ht)
  exact fun l hl => h.stands hl (hended l hl)

theorem toList_cppBody (p : Program) :
    p.cppBody.toList = ofLines (p.unitLines.map Line.characters) := toList_renderLines p.unitLines

theorem logicalLines_cpp : ∃ start, ∀ p : Program,
    logicalLines p.cpp = start ++ logicalLines p.cppBody := by
  obtain ⟨start, hstart, hstands⟩ := stands_prelude
  exact ⟨start, fun p => logicalLines_append hstart hstands p.cppBody⟩

theorem readLines_cpp : ∃ start, ∀ p : Program, readLines p.cpp = start ++ readLines p.cppBody := by
  obtain ⟨start, hstart, hstands⟩ := stands_prelude
  exact ⟨_, fun p => readLines_append hstart hstands p.cppBody⟩

/-- Every comment is on a line of its own exactly if none ends in a backslash. -/
theorem WellFormed.annotated_iff (h : p.WellFormed Expr.WellFormed) :
    Annotated IsCommentLine p.comments (logicalLines p.withoutComments.cpp) (logicalLines p.cpp) ↔
      ∀ text ∈ p.comments, Ended text := by
  obtain ⟨start, hstart⟩ := logicalLines_cpp
  have hlines := h.interleaves.annotated
  have hcode : logicalLines p.withoutComments.cppBody =
      p.withoutComments.unitLines.map Line.characters ++ [[]] :=
    logicalLines_of (toList_cppBody _) (List.forall_mem_map.2 h.stands_code)
  rw [hstart, hstart, hcode]
  constructor
  · intro hlogical text ht
    -- A line that is not complete takes one away, but there are as many as lines and comments.
    have hn : ∀ cs ∈ p.unitLines.map Line.characters, '\n' ∉ cs :=
      List.forall_mem_map.2 fun l hl => newline_not_mem_characters (h.oneLine hl)
    have hcomplete : (p.unitLines.map Line.characters).countP (fun cs => decide (IsComplete cs)) =
        (p.unitLines.map Line.characters).length := by
      have hcount := hlogical.length_eq
      have hlength := hlines.length_eq
      rw [List.length_append, logicalLines, length_splitOn, toList_cppBody,
        count_spliced hn] at hcount
      simp only [List.length_append, List.length_map, List.length_singleton] at hcount ⊢
      omega
    obtain ⟨l, hl, hcomment⟩ := hlines.exists_line ht
    have hl := List.countP_eq_length.1 hcomplete l.characters (List.mem_map_of_mem hl)
    exact hcomment.ended.1 ((isComplete_characters l).1 (of_decide_eq_true hl))
  · intro hc
    have hunit : Annotated IsCommentLine p.comments
        (p.withoutComments.unitLines.map Line.characters) (p.unitLines.map Line.characters) :=
      hlines.map fun text _ l hl => hl.characters
    have hall : logicalLines p.cppBody = p.unitLines.map Line.characters ++ [[]] :=
      logicalLines_of (toList_cppBody _) (List.forall_mem_map.2 (h.stands_all hc))
    have hbody := hunit.append (annotated_self [[]])
    have hfile := (annotated_self start).append hbody
    rw [hall]
    rwa [List.nil_append, List.append_nil] at hfile

theorem WellFormed.readLines_eq (h : p.WellFormed Expr.WellFormed)
    (hc : ∀ text ∈ p.comments, Ended text) : readLines p.cpp = readLines p.withoutComments.cpp := by
  obtain ⟨start, hstart⟩ := readLines_cpp
  have hlines := h.interleaves.annotated
  have hunit : Annotated (fun _ cs => notBlank cs = false) p.comments
      ((p.withoutComments.unitLines.map Line.characters).map uncommented)
      ((p.unitLines.map Line.characters).map uncommented) := by
    rw [List.map_map, List.map_map]
    refine hlines.map fun text ht l hl => ?_
    obtain ⟨l', hl', hcomment⟩ := hlines.exists_line ht
    exact hl.blank (hcomment.newline_not_mem (h.oneLine hl'))
  have hall := readLines_of p.toList_cppBody (List.forall_mem_map.2 (h.stands_all hc))
  have hcode := readLines_of (toList_cppBody _) (List.forall_mem_map.2 h.stands_code)
  rw [hstart, hstart, hall, hcode, hunit.filter_eq fun _ _ _ hblank => hblank]

end Program

/-- The comments of what is read from a text are complete lines of their own among the lines that
are generated without them, exactly if none of them ends in a backslash. What C++ reads is then the
code that is generated without them. -/
theorem parse_cpp_annotated (source : String) (p : Program) (h : parse source = .ok p) :
    (Annotated IsCommentLine p.comments (logicalLines p.withoutComments.cpp) (logicalLines p.cpp) ↔
      ∀ text ∈ p.comments, Ended text) ∧
    ((∀ text ∈ p.comments, Ended text) → readLines p.cpp = readLines p.withoutComments.cpp) := by
  have hp := wellFormed_of_parse h
  exact ⟨hp.annotated_iff, hp.readLines_eq⟩

def commentedSource : String := "func main() \x7b | a\\b\n if(true) \x7b | c\n x = 1; \x7d \x7d"

def commentedProgram : Program :=
  ⟨[.function ⟨none, "main", [], [.comment "a\\b", .conditional (.mk (.boolean true)
    [.comment "c", .expr (.assign "x" (.integer 1))] [] none)]⟩]⟩

theorem commentedProgram_annotated : parse commentedSource = .ok commentedProgram ∧
    Annotated IsCommentLine commentedProgram.comments
      (logicalLines commentedProgram.withoutComments.cpp) (logicalLines commentedProgram.cpp) ∧
    readLines commentedProgram.cpp = readLines commentedProgram.withoutComments.cpp := by
  have h : parse commentedSource = .ok commentedProgram := by decide +kernel
  have hc : ∀ text ∈ commentedProgram.comments, Ended text := by
    decide
  obtain ⟨hlines, hcode⟩ := parse_cpp_annotated commentedSource commentedProgram h
  exact ⟨h, hlines.2 hc, hcode hc⟩

def swallowingSource : String := "func main() \x7b | c \\\n x = 1; \x7d"

def swallowingProgram : Program :=
  ⟨[.function ⟨none, "main", [], [.comment "c \\", .expr (.assign "x" (.integer 1))]⟩]⟩

/-- A comment that ends in a backslash takes the statement behind it out of the code. -/
theorem comment_swallows_statement : parse swallowingSource = .ok swallowingProgram ∧
    readLines swallowingProgram.cpp ≠ readLines swallowingProgram.withoutComments.cpp := by
  refine ⟨by decide +kernel, fun h => ?_⟩
  obtain ⟨start, hstart⟩ := Program.readLines_cpp
  rw [hstart, hstart] at h
  have hbody := congrArg List.length (List.append_cancel_left h)
  revert hbody
  decide +kernel

end VnScript
