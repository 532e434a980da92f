import Mathlib.Data.List.TakeWhile
import VnScript.Text.Lines

namespace VnScript.Text

/-- A line without the carriage return that belongs to the newline behind it. -/
def withoutReturn (line : List Char) : List Char :=
  if line.getLast? = some '\r' then line.dropLast else line

/-- The line that so many others stand before in a text: it starts the text or stands behind a
newline, and a newline, one behind a carriage return, or the end of the text ends it. -/
def IsLine (text : List Char) (number : Nat) (line : List Char) : Prop :=
  ∃ front ending back, text = front ++ line ++ ending ++ back ∧
    (front = [] ∨ front.getLast? = some '\n') ∧ front.count '\n' = number ∧ '\n' ∉ line ∧
    (ending = ['\n'] ∧ line.getLast? ≠ some '\r' ∨ ending = ['\r', '\n'] ∨
      ending = [] ∧ back = [] ∧ line ≠ [])

variable {line rest front : List Char}

theorem splitLines_cons_newline (before rest : List Char) :
    splitLines before ('\n' :: rest) = withoutReturn before.reverse :: splitLines [] rest := by
  rw [splitLines.eq_def, withoutReturn]
  simp only [if_true]
  cases before with
  | nil => rfl
  | cons c before => by_cases hc : c = '\r' <;> simp [hc]

theorem splitLines_cons {c : Char} (h : c ≠ '\n') (before rest : List Char) :
    splitLines before (c :: rest) = splitLines (c :: before) rest := by
  rw [splitLines.eq_def]
  exact if_neg h

theorem splitLines_newline (before : List Char) (h : '\n' ∉ line) (rest : List Char) :
    splitLines before (line ++ '\n' :: rest) =
      withoutReturn (before.reverse ++ line) :: splitLines [] rest := by
  induction line generalizing before with
  | nil => rw [List.nil_append, splitLines_cons_newline, List.append_nil]
  | cons c line ih =>
    obtain ⟨hc, hline⟩ := not_or.1 (mt List.mem_cons.2 h)
    rw [List.cons_append, splitLines_cons (Ne.symm hc), ih (c :: before) hline]
    simp

theorem splitLines_end (before : List Char) (h : '\n' ∉ line) :
    splitLines before line =
      if before.reverse ++ line = [] then [] else [before.reverse ++ line] := by
  induction line generalizing before with
  | nil => cases before <;> simp [splitLines]
  | cons c line ih =>
    obtain ⟨hc, hline⟩ := not_or.1 (mt List.mem_cons.2 h)
    rw [splitLines_cons (Ne.symm hc), ih (c :: before) hline]
    simp

theorem line_cases (text : List Char) :
    '\n' ∉ text ∨ ∃ line rest, '\n' ∉ line ∧ text = line ++ '\n' :: rest := by
  by_cases h : '\n' ∈ text
  · obtain ⟨line, rest, heq, hline⟩ := List.eq_append_cons_of_mem h
    exact .inr ⟨line, rest, hline, heq⟩
  · exact .inl h

theorem splitLines_append (h : front = [] ∨ front.getLast? = some '\n') (rest : List Char) :
    splitLines [] (front ++ rest) = splitLines [] front ++ splitLines [] rest ∧
      (splitLines [] front).length = front.count '\n' := by
  induction hn : front.length using Nat.strong_induction_on generalizing front with
  | _ n ih =>
    obtain hline | ⟨line, back, hline, rfl⟩ := line_cases front
    · obtain rfl | h := h
      · exact ⟨rfl, rfl⟩
      · exact absurd (List.mem_of_getLast? h) hline
    · have hback : back = [] ∨ back.getLast? = some '\n' := by
        cases back with
        | nil => exact .inl rfl
        | cons c back =>
          obtain h | h := h
          · simp at h
          · exact .inr (by simpa using h)
      obtain ⟨hlines, hlength⟩ := ih back.length (by simp [← hn]; omega) hback rfl
      rw [List.append_assoc, List.cons_append, splitLines_newline [] hline, hlines,
        splitLines_newline [] hline]
      refine ⟨rfl, ?_⟩
      rw [List.length_cons, hlength, List.count_append, List.count_cons_self,
        List.count_eq_zero_of_not_mem hline]
      omega

theorem withoutReturn_append (line : List Char) : withoutReturn (line ++ ['\r']) = line := by
  simp [withoutReturn]

theorem withoutReturn_of_ne (h : line.getLast? ≠ some '\r') : withoutReturn line = line :=
  if_neg h

theorem withoutReturn_ending (line : List Char) :
    ∃ ending, line ++ ['\n'] = withoutReturn line ++ ending ∧
      (ending = ['\n'] ∧ (withoutReturn line).getLast? ≠ some '\r' ∨ ending = ['\r', '\n']) := by
  by_cases h : line.getLast? = some '\r'
  · obtain ⟨before, rfl⟩ := List.getLast?_eq_some_iff.1 h
    rw [withoutReturn_append, List.append_assoc]
    exact ⟨['\r', '\n'], rfl, .inr rfl⟩
  · rw [withoutReturn_of_ne h]
    exact ⟨['\n'], rfl, .inl ⟨rfl, h⟩⟩

theorem mem_of_mem_withoutReturn {c : Char} (h : c ∈ withoutReturn line) : c ∈ line := by
  unfold withoutReturn at h
  split at h
  · exact List.dropLast_subset _ h
  · exact h

theorem isLine_first (h : '\n' ∉ line) (rest : List Char) :
    IsLine (line ++ '\n' :: rest) 0 (withoutReturn line) := by
  obtain ⟨ending, heq, hending⟩ := withoutReturn_ending line
  refine ⟨[], ending, rest, ?_, .inl rfl, rfl, mt mem_of_mem_withoutReturn h, ?_⟩
  · rw [List.nil_append, ← heq, List.append_assoc, List.singleton_append]
  · exact hending.imp_right .inl

theorem isLine_last (h : '\n' ∉ line) (hempty : line ≠ []) : IsLine line 0 line :=
  ⟨[], [], [], by simp, .inl rfl, rfl, h, .inr (.inr ⟨rfl, rfl, hempty⟩)⟩

theorem IsLine.behind {text body : List Char} {number : Nat} (h : IsLine text number line)
    (hbody : '\n' ∉ body) : IsLine (body ++ '\n' :: text) (number + 1) line := by
  obtain ⟨front, ending, back, rfl, hfront, hcount, hline⟩ := h
  refine ⟨body ++ '\n' :: front, ending, back, by simp, .inr ?_, ?_, hline⟩
  · obtain rfl | hfront := hfront
    · simp
    · simp [List.getLast?_cons, hfront]
  · rw [List.count_append, List.count_cons_self, hcount, List.count_eq_zero_of_not_mem hbody,
      Nat.zero_add]

theorem isLine_of_getElem? {text : List Char} {number : Nat}
    (h : (splitLines [] text)[number]? = some line) : IsLine text number line := by
  induction number generalizing text with
  | zero =>
    obtain hend | ⟨body, rest, hbody, rfl⟩ := line_cases text
    · rw [splitLines_end [] hend] at h
      by_cases hempty : text = []
      · simp [hempty] at h
      · obtain rfl : text = line := by simpa [hempty] using h
        exact isLine_last hend hempty
    · rw [splitLines_newline [] hbody] at h
      obtain rfl : withoutReturn body = line := by simpa using h
      exact isLine_first hbody rest
  | succ number ih =>
    obtain hend | ⟨body, rest, hbody, rfl⟩ := line_cases text
    · rw [splitLines_end [] hend] at h
      split at h <;> simp at h
    · rw [splitLines_newline [] hbody, List.getElem?_cons_succ] at h
      exact (ih h).behind hbody

theorem splitLines_ending {ending back : List Char} (hline : '\n' ∉ line)
    (h : ending = ['\n'] ∧ line.getLast? ≠ some '\r' ∨ ending = ['\r', '\n'] ∨
      ending = [] ∧ back = [] ∧ line ≠ []) :
    (splitLines [] (line ++ ending ++ back))[0]? = some line := by
  obtain ⟨rfl, hreturn⟩ | rfl | ⟨rfl, rfl, hempty⟩ := h
  · rw [List.append_assoc, List.singleton_append, splitLines_newline [] hline]
    simp [withoutReturn_of_ne hreturn]
  · have hbody : '\n' ∉ line ++ ['\r'] := by simp [hline]
    have hsplit : line ++ ['\r', '\n'] ++ back = line ++ ['\r'] ++ '\n' :: back := by simp
    rw [hsplit, splitLines_newline [] hbody, List.reverse_nil, List.nil_append,
      withoutReturn_append]
    rfl
  · rw [List.append_nil, List.append_nil, splitLines_end [] hline]
    simp [hempty]

/-- The lines of a text are those that stand in it, each where its number says. -/
theorem getElem?_splitLines_iff {text : List Char} {number : Nat} :
    (splitLines [] text)[number]? = some line ↔ IsLine text number line := by
  refine ⟨isLine_of_getElem?, ?_⟩
  rintro ⟨front, ending, back, rfl, hfront, rfl, hline, hending⟩
  obtain ⟨hlines, hlength⟩ := splitLines_append hfront (line ++ ending ++ back)
  rw [List.append_assoc, List.append_assoc, ← List.append_assoc line, hlines, ← hlength,
    List.getElem?_append_right (Nat.le_refl _), Nat.sub_self]
  exact splitLines_ending hline hending

end VnScript.Text
