import Mathlib.Algebra.Group.Nat.Defs
import VnScript.Console.Stream
import VnScript.Proofs.Execution.Laws
import VnScript.Proofs.Value.Arithmetic

namespace VnScript

/-- An expression of exact operators over integer literals and over variables that hold integers. -/
inductive Expr.Arithmetic (environment : Environment) : Expr → Prop
  | integer (n : Int64) : Arithmetic environment (.integer n)
  | held {name : String} {n : Int64} (h : environment.get? name = some (.integer n)) :
    Arithmetic environment (.identifier name)
  | operation {op : Operator} {left right : Expr} (hop : op.IsExact)
      (hl : Arithmetic environment left) (hr : Arithmetic environment right) :
    Arithmetic environment (.binary op left right)

namespace Expr

/-- The number that an expression denotes over unbounded integers. -/
def number (environment : Environment) : Expr → Int
  | .integer n => n.toInt
  | .identifier name =>
    match environment.get? name with
    | some (.integer n) => n.toInt
    | _ => 0
  | .binary op left right => op.onIntegers (left.number environment) (right.number environment)
  | _ => 0

/-- The operators of an expression with their operands, from left to right, and those of the
operands before the one between them. -/
def operations : Expr → List (Operator × Expr × Expr)
  | .binary op left right => left.operations ++ (right.operations ++ [(op, left, right)])
  | _ => []

/-- The error of the first operation that has one. -/
def firstFault? (environment : Environment) (e : Expr) : Option RuntimeError :=
  e.operations.findSome? fun (op, left, right) =>
    op.fault? (left.number environment) (right.number environment)

theorem firstFault?_binary (environment : Environment) (op : Operator) (left right : Expr) :
    (Expr.binary op left right).firstFault? environment =
      (left.firstFault? environment).or ((right.firstFault? environment).or
        (op.fault? (left.number environment) (right.number environment))) := by
  simp [firstFault?, operations, List.findSome?_append]

end Expr

theorem apply_integers {op : Operator} (hop : op.IsExact) (a b : Int64) :
    Value.apply op (.integer a) (.integer b) =
      match op.fault? a.toInt b.toInt with
      | none => .ok (.integer (Int64.ofInt (op.onIntegers a.toInt b.toInt)))
      | some e => .error e := by
  have hcompute : Value.apply op (.integer a) (.integer b) =
      Value.compute op (.integer a) (.integer b) := by
    obtain rfl | rfl | rfl | rfl | rfl := hop <;> rfl
  rw [hcompute, Value.compute, Operator.arithmetic?_eq hop]
  cases op.fault? a.toInt b.toInt <;> rfl

variable {σ : Type}

theorem operation_strict {op : Operator} (hop : ¬(op = .and ∨ op = .or)) (left right : Eval σ Value) :
    Eval.operation op left right = (do
      let l ← left
      let r ← right
      Eval.ofExcept (l.apply op r)) := if_neg hop

theorem operation_exact {op : Operator} (hop : op.IsExact) (left right : Eval σ Value) :
    Eval.operation op left right = (do
      let l ← left
      let r ← right
      Eval.ofExcept (l.apply op r)) := by
  refine operation_strict ?_ left right
  obtain rfl | rfl | rfl | rfl | rfl := hop <;> decide

variable [Console σ] {e : Expr}

/-- An expression has the number that it denotes, unless an operation in it has no result of 64
bits: then the first such one, from left to right and from the inside out, gives its error. Either
way nothing else changes. -/
theorem arithmetic_exact {s : RunState σ} (h : e.Arithmetic s.environment) :
    match e.firstFault? s.environment with
    | none => ∃ n : Int64, n.toInt = e.number s.environment ∧ e.eval s = .done (.integer n) s
    | some error => e.eval s = .failed error s := by
  induction h with
  | integer n => exact ⟨n, rfl, rfl⟩
  | @held name n h =>
    refine ⟨n, ?_, ?_⟩
    · simp only [Expr.number, h]
    · rw [Expr.eval, Eval.variableValue_apply, h]
  | @operation op left right hop hl hr ihl ihr =>
    -- The faults of the left operand come first, and the operation only behind both operands.
    rw [Expr.firstFault?_binary, Expr.eval, operation_exact hop]
    cases hfl : left.firstFault? s.environment with
    | some error =>
      rw [hfl] at ihl
      exact Eval.bind_failed ihl
    | none =>
      rw [hfl] at ihl
      obtain ⟨a, ha, hleft⟩ := ihl
      rw [Option.none_or, Eval.bind_done hleft]
      cases hfr : right.firstFault? s.environment with
      | some error =>
        rw [hfr] at ihr
        exact Eval.bind_failed ihr
      | none =>
        rw [hfr] at ihr
        obtain ⟨b, hb, hright⟩ := ihr
        rw [Option.none_or, Eval.bind_done hright, apply_integers hop, ← ha, ← hb]
        cases hfault : op.fault? a.toInt b.toInt with
        | some error => rfl
        | none =>
          refine ⟨Int64.ofInt (op.onIntegers a.toInt b.toInt), ?_, rfl⟩
          rw [Operator.toInt_ofInt_of_fits (Operator.fits_of_fault? hfault), Expr.number, ha, hb]

/-- The smallest integer has a half, but no remainder by -1, for which the division by zero behind
it does not count. -/
theorem arithmetic_exact_smallest :
    let s : RunState StreamConsole :=
      ⟨⟨[("x", .integer (-9223372036854775807))]⟩, .ofInput ""⟩
    let smallest := Expr.binary .sub (.identifier "x") (.integer 1)
    let half := Expr.binary .shiftRight smallest (.integer 1)
    let remainder := Expr.binary .mod smallest (.binary .sub (.integer 2) (.integer 3))
    let faulty := Expr.binary .mul remainder (.binary .div (.integer 1) (.integer 0))
    half.Arithmetic s.environment ∧ faulty.Arithmetic s.environment ∧
      half.eval s = .done (.integer (-4611686018427387904)) s ∧
      faulty.eval s = .failed (.integerOverflow "%") s := by
  intro s smallest half remainder faulty
  have hsmallest : smallest.Arithmetic s.environment :=
    .operation (by decide) (.held (n := -9223372036854775807) rfl) (.integer 1)
  have hhalf : half.Arithmetic s.environment := .operation (by decide) hsmallest (.integer 1)
  have hfaulty : faulty.Arithmetic s.environment :=
    .operation (by decide)
      (.operation (by decide) hsmallest (.operation (by decide) (.integer 2) (.integer 3)))
      (.operation (by decide) (.integer 1) (.integer 0))
  have hnone : half.firstFault? s.environment = none := by decide
  have hsome : faulty.firstFault? s.environment = some (.integerOverflow "%") := by decide
  have hexact := arithmetic_exact hhalf
  have hfault := arithmetic_exact hfaulty
  rw [hnone] at hexact
  rw [hsome] at hfault
  obtain ⟨n, hn, heval⟩ := hexact
  have hvalue : n = -4611686018427387904 := Int64.toInt_inj.1 (hn.trans (by decide))
  exact ⟨hhalf, hfaulty, hvalue ▸ heval, hfault⟩

/-- A left shift by 0 to 63 places gives the last 64 bits of the product with the power of two:
the product itself if it has 64 bits, and another number if it has more. By any other amount it
overflows. -/
theorem shiftLeft_exact_iff {left right : Expr} {a n : Int64} {s s₁ s₂ : RunState σ}
    (hl : left.eval s = .done (.integer a) s₁) (hr : right.eval s₁ = .done (.integer n) s₂) :
    (0 ≤ n.toInt ∧ n.toInt ≤ 63 →
      ∃ m : Int64, (Expr.binary .shiftLeft left right).eval s = .done (.integer m) s₂ ∧
        m.toInt = (a.toInt * 2 ^ n.toInt.toNat).bmod (2 ^ 64) ∧
        (m.toInt = a.toInt * 2 ^ n.toInt.toNat ↔ Fits (a.toInt * 2 ^ n.toInt.toNat))) ∧
    (¬(0 ≤ n.toInt ∧ n.toInt ≤ 63) →
      (Expr.binary .shiftLeft left right).eval s = .failed (.integerOverflow "<<") s₂) := by
  have heval : (Expr.binary .shiftLeft left right).eval s =
      Eval.ofExcept (Value.compute .shiftLeft (.integer a) (.integer n)) s₂ := by
    rw [Expr.eval, operation_strict (by decide), Eval.bind_done hl, Eval.bind_done hr]
    rfl
  rw [Value.compute, Operator.shiftLeft_eq] at heval
  constructor
  · intro hn
    rw [if_pos hn] at heval
    exact ⟨_, heval, Int64.toInt_ofInt, Operator.toInt_ofInt_eq_iff⟩
  · intro hn
    rwa [if_neg hn] at heval

/-- A shift can reach the smallest integer, but not go on to a 64th place. -/
theorem shiftLeft_exact_smallest :
    let s : RunState StreamConsole := ⟨⟨[("x", .integer (-2)), ("n", .integer 62)]⟩, .ofInput ""⟩
    let smallest := Expr.binary .shiftLeft (.identifier "x") (.identifier "n")
    let far := Expr.binary .shiftLeft (.identifier "x") (.integer 64)
    (Expr.identifier "x").eval s = .done (.integer (-2)) s ∧
      (Expr.identifier "n").eval s = .done (.integer 62) s ∧
      (∃ m : Int64, smallest.eval s = .done (.integer m) s ∧ m.toInt = -2 * 2 ^ 62) ∧
      far.eval s = .failed (.integerOverflow "<<") s := by
  intro s smallest far
  have hx : (Expr.identifier "x").eval s = .done (.integer (-2)) s := rfl
  have hn : (Expr.identifier "n").eval s = .done (.integer 62) s := rfl
  obtain ⟨m, heval, -, hm⟩ := (shiftLeft_exact_iff hx hn).1 (by decide)
  have h64 : (Expr.integer 64).eval s = .done (.integer 64) s := rfl
  have hfar := (shiftLeft_exact_iff hx h64).2 (by decide)
  exact ⟨hx, hn, ⟨m, heval, hm.2 (by decide)⟩, hfar⟩

/-- The sign of a product with 65 bits is lost, and there is no overflow. -/
theorem shiftLeft_loses_sign :
    let s : RunState StreamConsole := ⟨⟨[]⟩, .ofInput ""⟩
    (Expr.binary .shiftLeft (.integer 1) (.integer 63)).eval s = .done (.integer Int64.minValue) s ∧
      ¬Fits (1 * 2 ^ 63) ∧ Int64.minValue.toInt ≠ 1 * 2 ^ 63 :=
  ⟨rfl, by decide, by decide⟩

end VnScript
