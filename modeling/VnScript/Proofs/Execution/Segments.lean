import VnScript.Cpp.Expression
import VnScript.Proofs.Execution.Laws

namespace VnScript

open Eval

variable {σ : Type} [Console σ]

theorem evalAll_append (es es' : List Expr) :
    (evalAll (es ++ es') : Eval σ (List Value)) =
      do return (← evalAll es) ++ (← evalAll es') := by
  induction es with
  | nil => simp [evalAll]
  | cons e es ih => simp [evalAll, ih]

theorem renderAll_append (vs ws : List Value) :
    renderAll (vs ++ ws) = renderAll vs ++ renderAll ws := by
  simp [renderAll, String.join_append]

omit [Console σ] in
theorem render_sum (left right : Eval σ Value) :
    Value.render <$> operation .add left right = do
      return (← Value.render <$> left) ++ (← Value.render <$> right) := by
  have h (l r : Value) : (ofExcept (l.apply .add r) : Eval σ Value) =
      pure (.string (l.render ++ r.render)) := rfl
  simp [operation, h, Value.render]

/-- A sum evaluates its segments from left to right and has the text of their values. -/
theorem Expr.eval_segments (e : Expr) :
    (Value.render <$> e.eval : Eval σ String) = renderAll <$> evalAll e.segments := by
  fun_induction segments e with
  | case1 left right ihl ihr =>
    rw [eval, render_sum, ihl, ihr, evalAll_append]
    simp [renderAll_append]
  | case2 e h => simp [evalAll, renderAll]

/-- Arguments evaluate as their segments do, from left to right, and have the same text. -/
theorem evalAll_segments (arguments : List Expr) :
    (renderAll <$> evalAll arguments : Eval σ String) =
      renderAll <$> evalAll (arguments.flatMap Expr.segments) := by
  induction arguments with
  | nil => rfl
  | cons e rest ih =>
    have hcons : (renderAll <$> evalAll (e :: rest) : Eval σ String) = do
        return (← Value.render <$> e.eval) ++ (← renderAll <$> evalAll rest) := by
      simp [evalAll, renderAll]
    rw [hcons, e.eval_segments, ih, List.flatMap_cons, evalAll_append]
    simp [renderAll_append]

omit [Console σ] in
theorem stream_renderedAll (classes : List String) (arguments : List Expr) :
    (renderedAll classes arguments).flatMap Cpp.Rendered.stream =
      (arguments.flatMap Expr.segments).map fun e =>
        Cpp.operand e (e.cpp classes) .shift true := by
  induction arguments with
  | nil => rfl
  | cons e rest ih =>
    rw [renderedAll, List.flatMap_cons, List.flatMap_cons, List.map_append, ih,
      Expr.stream_rendered]

/-- Printing arguments and printing their segments one after another are the same: both end,
in the same state, with the same first error or with the same line. The generated code streams
the segments in this order. -/
theorem print_segments (arguments : List Expr) (classes : List String) (s : RunState σ) :
    let segments := arguments.flatMap Expr.segments
    let printed := Expr.call (.named "System") "print" arguments
    ((∃ values parts s',
        evalAll arguments s = .done values s' ∧ evalAll segments s = .done parts s' ∧
        renderAll values = String.join (parts.map Value.render) ∧
        printed.eval s = (do
          onConsole (Console.writeLine (String.join (parts.map Value.render)))
          return Value.absent) s') ∨
      ∃ e s', evalAll arguments s = .failed e s' ∧ evalAll segments s = .failed e s' ∧
        printed.eval s = .failed e s') ∧
    printed.cpp classes = "std::cout" ++
      String.join (segments.map fun e => " << " ++ Cpp.operand e (e.cpp classes) .shift true) ++
      " << std::endl" := by
  intro segments printed
  have hprint : (printed.eval : Eval σ Value) = print (evalAll arguments) := rfl
  refine ⟨?_, ?_⟩
  · obtain ⟨values, parts, s', hv, hp, hr⟩ | ⟨e, s', hv, hp⟩ | ⟨hv, -⟩ :=
      same_ending (evalAll_segments (σ := σ) arguments) s
    · refine .inl ⟨values, parts, s', hv, hp, hr, ?_⟩
      rw [hprint, print, bind_done hv, hr]
      rfl
    · refine .inr ⟨e, s', hv, hp, ?_⟩
      rw [hprint, print, bind_failed hv]
    · exact absurd hv (evalAll_ends arguments s)
  · change Cpp.printText (renderedAll classes arguments) = _
    rw [Cpp.printText, stream_renderedAll, List.map_map]
    rfl

end VnScript
