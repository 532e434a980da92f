import VnScript.Backend
import VnScript.Command.Invocation
import VnScript.Proofs.Execution.Consoles
import VnScript.Proofs.Text.Lines

namespace VnScript

namespace StreamConsole

variable {line : List Char}

theorem rawLine_newline (h : '\n' ∉ line) (rest : List Char) :
    rawLine (line ++ '\n' :: rest) = line ++ ['\n'] := by
  have hline (c : Char) (hc : c ∈ line) : (c != '\n') = true := bne_iff_ne.2 fun he => h (he ▸ hc)
  rw [rawLine, List.takeWhile_append_of_pos hline, List.dropWhile_append_of_pos hline]
  simp

theorem rawLine_end (h : '\n' ∉ line) : rawLine line = line := by
  have hline (c : Char) (hc : c ∈ line) : (c != '\n') = true := bne_iff_ne.2 fun he => h (he ▸ hc)
  rw [rawLine, List.takeWhile_eq_self_iff.2 hline, List.dropWhile_eq_nil_iff.2 hline]
  simp

theorem trimEnding_newline (line : List Char) :
    trimEnding (line ++ ['\n']) = Text.withoutReturn line := by
  by_cases h : line.getLast? = some '\r'
  · obtain ⟨before, rfl⟩ := List.getLast?_eq_some_iff.1 h
    rw [Text.withoutReturn_append]
    simp [trimEnding]
  · rw [Text.withoutReturn_of_ne h]
    rw [List.getLast?_eq_head?_reverse] at h
    rw [trimEnding, List.reverse_append, List.reverse_singleton, List.singleton_append]
    split
    · next heq =>
      obtain ⟨-, hreverse⟩ := List.cons.inj heq
      rw [hreverse] at h
      exact absurd rfl h
    · next heq =>
      obtain ⟨-, rfl⟩ := List.cons.inj heq
      exact List.reverse_reverse line
    · next hne => exact absurd rfl (hne _)

theorem trimEnding_end (h : '\n' ∉ line) : trimEnding line = line := by
  have hlast {before : List Char} (heq : line.reverse = '\n' :: before) : False := by
    refine h (List.mem_reverse.1 ?_)
    rw [heq]
    exact List.mem_cons_self
  unfold trimEnding
  split
  · next heq => exact (hlast heq).elim
  · next heq => exact (hlast heq).elim
  · rfl

/-- The console that has split what is left of the input. -/
def buffered (c : StreamConsole) : BufferedConsole :=
  ⟨(Text.splitLines [] c.input).map String.ofList, c.output⟩

theorem read_buffered (c : StreamConsole) : c.buffered.read = c.read.map id buffered := by
  obtain ⟨input, output⟩ := c
  obtain hend | ⟨line, rest, hline, rfl⟩ := Text.line_cases input
  · rw [buffered, Text.splitLines_end [] hend, read, rawLine_end hend, trimEnding_end hend]
    by_cases hinput : input = []
    · subst hinput
      rfl
    · simp [hinput, BufferedConsole.read, buffered, Text.splitLines]
  · rw [buffered, Text.splitLines_newline [] hline, read, rawLine_newline hline,
      trimEnding_newline]
    simp [BufferedConsole.read, buffered]

theorem along_buffered : Console.Along buffered where
  writeLine _ _ := rfl
  writePrompt _ _ := rfl
  readLine c := by
    change (Except.ok c.buffered.read.1, c.buffered.read.2) = _
    rw [read_buffered]
    rfl

end StreamConsole

namespace BufferedConsole

/-- Reads take the lines in turn, and nothing else does. -/
theorem input_after (calls : List ConsoleCall) (c : BufferedConsole) :
    (Console.after calls c).input = c.input.drop (calls.count .read) := by
  induction calls generalizing c with
  | nil => rfl
  | cons call calls ih =>
    refine (ih (call.perform c).2).trans ?_
    cases call with
    | line text =>
      rw [List.count_cons_of_ne (show ConsoleCall.line text ≠ .read from nofun)]
      rfl
    | prompt text =>
      rw [List.count_cons_of_ne (show ConsoleCall.prompt text ≠ .read from nofun)]
      rfl
    | read =>
      rw [List.count_cons_self]
      obtain ⟨_ | ⟨line, rest⟩, output⟩ := c
      · simp [ConsoleCall.perform, Console.readLine, read]
      · rfl

theorem readLine_after (calls : List ConsoleCall) (c : BufferedConsole) :
    (Console.readLine (Console.after calls c)).1 = .ok c.input[calls.count .read]? := by
  have hinput := input_after calls c
  generalize Console.after calls c = c' at hinput
  obtain ⟨input, output⟩ := c'
  change Except.ok (BufferedConsole.read ⟨input, output⟩).1 = _
  rw [← List.head?_drop, ← hinput]
  cases input <;> rfl

end BufferedConsole

theorem Text.getElem?_lines_iff {text line : String} {number : Nat} :
    (lines text)[number]? = some line ↔ IsLine text.toList number line.toList := by
  rw [lines, List.getElem?_map, Option.map_eq_some_iff, ← getElem?_splitLines_iff]
  constructor
  · rintro ⟨cs, hcs, rfl⟩
    rwa [String.toList_ofList]
  · intro h
    exact ⟨_, h, String.ofList_toList⟩

example : Text.lines "a\r\n\n\rb\r" = ["a", "", "\rb\r"] := by decide

/-- What the user of a command sees of its action: the output, or why it failed. -/
def Command.Effect.answer (e : Effect) : Except Cause String :=
  match e.failure with
  | none => .ok e.output
  | some failure => .error failure.cause

/-- What a run has for its user, as soon as it ends. -/
def Outcome.answer? {σ : Type} (output : σ → String) :
    Outcome σ Flow → Option (Except RuntimeError String)
  | .done _ s => some (.ok (output s.console))
  | .failed e _ => some (.error e)
  | .unfinished => none

theorem Backend.run_interpreter (limit : Nat) (compilers : Compilers) (p : Program)
    (input : String) : Backend.interpreter.run limit compilers p input =
      ((p.run limit (BufferedConsole.ofInput input)).answer? (·.output)).map
        (·.mapError .runtime) := by
  unfold Backend.run Backend.prepare Program.run
  cases p.function? "main" with
  | none => rfl
  | some main =>
    simp only [Prepared.run]
    cases main.run limit (BufferedConsole.ofInput input) <;> rfl

theorem Command.Invocation.runProgram_answer (limit : Nat) (w : World) (p : Program) :
    (runProgram limit w p).map Effect.answer =
      ((p.run limit (StreamConsole.ofInput w.input)).answer? (·.output)).map
        (·.mapError .runtime) := by
  unfold runProgram
  cases p.run limit (StreamConsole.ofInput w.input) <;> rfl

theorem Program.exists_answer_iff {σ β : Type} [Console σ] (p : Program) (console : σ)
    {output : σ → String} {g : Except RuntimeError String → β} (hg : Function.Injective g)
    (answer : Except RuntimeError String) :
    (∃ limit, ((p.run limit console).answer? output).map g = some (g answer)) ↔
      ∃ o, p.EndsWith console o ∧ o.answer? output = some answer := by
  constructor
  · rintro ⟨limit, h⟩
    obtain ⟨answer', hanswer, heq⟩ := Option.map_eq_some_iff.1 h
    obtain rfl := hg heq
    refine ⟨_, Program.endsWith_of_run rfl ?_, hanswer⟩
    intro hunfinished
    rw [hunfinished] at hanswer
    cases hanswer
  · rintro ⟨o, ⟨-, limit, h⟩, hanswer⟩
    exact ⟨limit, by rw [h limit (Nat.le_refl _), hanswer, Option.map_some]⟩

theorem Except.mapError_injective {ε ε' α : Type} {f : ε → ε'} (hf : Function.Injective f) :
    Function.Injective (Except.mapError f : Except ε α → Except ε' α) := by
  rintro (e | a) (e' | b) h
  · exact congrArg Except.error (hf (Except.error.inj h))
  · cases h
  · cases h
  · exact congrArg Except.ok (Except.ok.inj h)

theorem Outcome.answer?_mapConsole {o : Outcome StreamConsole Flow} :
    (o.mapConsole StreamConsole.buffered).answer? (·.output) = o.answer? (·.output) := by
  cases o <;> rfl

/-- Both consoles read the lines of the text that they are given, one with every read and whatever
is written in between, and nothing behind the last one. So a program runs alike on both, and has the
same answer when it is run from the command line as from a backend. -/
theorem consoles_read_same (text : String) :
    (∀ calls : List ConsoleCall,
      (Console.readLine (Console.after calls (BufferedConsole.ofInput text))).1 =
        .ok (Text.lines text)[calls.count .read]? ∧
      (Console.readLine (Console.after calls (StreamConsole.ofInput text))).1 =
        .ok (Text.lines text)[calls.count .read]?) ∧
    (∀ n line, (Text.lines text)[n]? = some line ↔ Text.IsLine text.toList n line.toList) ∧
    (∀ (p : Program) (o : Outcome BufferedConsole Flow),
      p.EndsWith (BufferedConsole.ofInput text) o ↔
        ∃ o', p.EndsWith (StreamConsole.ofInput text) o' ∧
          o'.mapConsole StreamConsole.buffered = o) ∧
    ∀ (p : Program) (files : Files) (compilers : Compilers) (answer : Except RuntimeError String),
      (∃ limit, Backend.interpreter.run limit compilers p text =
        some (answer.mapError .runtime)) ↔
      ∃ limit e, Command.Invocation.runProgram limit ⟨files, text, compilers⟩ p = some e ∧
        e.answer = answer.mapError .runtime := by
  have hends (p : Program) (o : Outcome BufferedConsole Flow) :=
    p.endsWith_mapConsole StreamConsole.along_buffered (StreamConsole.ofInput text) o
  refine ⟨fun calls => ?_, fun n line => Text.getElem?_lines_iff, hends, ?_⟩
  · have hread := BufferedConsole.readLine_after calls (BufferedConsole.ofInput text)
    refine ⟨hread, ?_⟩
    -- A stream answers as the buffer that it stands for.
    change (Console.readLine (Console.after calls (StreamConsole.ofInput text).buffered)).1 = _
      at hread
    rw [StreamConsole.along_buffered.after, StreamConsole.along_buffered.readLine] at hread
    exact hread
  · intro p files compilers answer
    have hruntime : Function.Injective BackendError.runtime := fun _ _ => BackendError.runtime.inj
    have hcause : Function.Injective Cause.runtime := fun _ _ => Cause.runtime.inj
    simp only [Backend.run_interpreter, ← Option.map_eq_some_iff,
      Command.Invocation.runProgram_answer]
    rw [p.exists_answer_iff _ (Except.mapError_injective hruntime),
      p.exists_answer_iff _ (Except.mapError_injective hcause)]
    constructor
    · rintro ⟨o, ho, hanswer⟩
      obtain ⟨o', ho', rfl⟩ := (hends p o).1 ho
      exact ⟨o', ho', Outcome.answer?_mapConsole ▸ hanswer⟩
    · rintro ⟨o', ho', hanswer⟩
      exact ⟨_, (hends p _).2 ⟨o', ho', rfl⟩, Outcome.answer?_mapConsole ▸ hanswer⟩

end VnScript
