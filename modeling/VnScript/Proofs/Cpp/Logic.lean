import VnScript.Console.Stream
import VnScript.Proofs.Cpp.Grouping
import VnScript.Proofs.Decimal.Exact
import VnScript.Proofs.Execution.Segments

namespace VnScript

namespace Cpp

/-- Booleans count as 0 and 1. -/
def ofBool (b : Bool) : Int := if b then 1 else 0

def literal? (text : String) : Option Int :=
  if text = "true" then some 1
  else if text = "false" then some 0
  else (Text.digitsValue? text.toList).map Int.ofNat

namespace Tree

variable (memory : String → Option Int)

/-- The value of a logical expression in C++. `&&` and `||` test for zero and skip their right
operand where the left one decides, `!=` compares numbers. -/
def value? : Tree → Option Int
  | .leaf text => (literal? text).or (memory text)
  | .negative t => (value? t).map (- ·)
  | .binary sign left right =>
    (value? left).bind fun l =>
      if sign = "&&" then
        if l = 0 then some 0 else (value? right).map fun r => ofBool (r ≠ 0)
      else if sign = "||" then
        if l ≠ 0 then some 1 else (value? right).map fun r => ofBool (r ≠ 0)
      else if sign = "!=" then (value? right).map fun r => ofBool (l ≠ r)
      else none
  | _ => none

/-- The left operand decides. -/
def Skips (sign : String) (left : Tree) : Prop :=
  sign = "&&" ∧ left.value? memory = some 0 ∨
    sign = "||" ∧ ∃ l, left.value? memory = some l ∧ l ≠ 0

/-- No `!=` that is evaluated compares two numbers that differ without one of them being zero. -/
def ComparesTruth : Tree → Prop
  | .negative t => ComparesTruth t
  | .binary sign left right => ComparesTruth left ∧ (left.Skips memory sign ∨
      ComparesTruth right ∧ (sign = "!=" → ∀ l r, left.value? memory = some l →
        right.value? memory = some r → l = r ∨ l = 0 ∨ r = 0))
  | _ => True

end Tree

end Cpp

open Cpp

def Value.number? : Value → Option Int
  | .integer n => some n.toInt
  | .boolean b => some (ofBool b)
  | _ => none

/-- An expression of logical operators over literals and over variables that hold a boolean or an
integer, which is the same in the C++ program. -/
inductive Expr.Logical (environment : Environment) (memory : String → Option Int) : Expr → Prop
  | boolean (b : Bool) : Logical environment memory (.boolean b)
  | integer (n : Int64) : Logical environment memory (.integer n)
  | held {name : String} {v : Value} {n : Int} (hn : IsNameText (mangle name))
      (hl : mangle name ≠ "true" ∧ mangle name ≠ "false") (hv : environment.get? name = some v)
      (hnumber : v.number? = some n) (hc : memory (mangle name) = some n) :
    Logical environment memory (.identifier name)
  | operation {op : Operator} {left right : Expr} (hop : op = .and ∨ op = .or ∨ op = .xor)
      (hl : Logical environment memory left) (hr : Logical environment memory right) :
    Logical environment memory (.binary op left right)

section Literals

theorem literal?_decimal {n : Int} (h : 0 ≤ n) : literal? (Text.decimal n) = some n := by
  have hv : Text.digitsValue? (Text.decimal n).toList = some n.toNat := by
    rw [Text.toList_decimal h, Text.digitsValue?_toDigits]
  have hne {text : String} (ht : Text.digitsValue? text.toList = none) : Text.decimal n ≠ text := by
    rintro rfl
    rw [hv] at ht
    cases ht
  rw [literal?, if_neg (hne (by decide)), if_neg (hne (by decide)), hv]
  exact congrArg some (Int.toNat_of_nonneg h)

theorem literal?_name {text : String} (h : IsNameText text)
    (hl : text ≠ "true" ∧ text ≠ "false") : literal? text = none := by
  obtain ⟨c, cs, ht, hc⟩ := h.start
  have hd : c.isDigit = false := Bool.eq_false_iff.2 fun hd => by
    rw [(digit_not_start hd).2.2] at hc
    cases hc
  rw [literal?, if_neg hl.1, if_neg hl.2, ht]
  simp [Text.digitsValue?, hd]

theorem value?_integer (memory : String → Option Int) (n : Int) :
    (integerTree n).value? memory = some n := by
  unfold integerTree
  split
  · next h =>
    simp [Tree.value?, literal?_decimal (show 0 ≤ -n by omega)]
  · next h =>
    simp [Tree.value?, literal?_decimal (Int.not_lt.1 h)]

end Literals

section Values

variable {σ : Type}

theorem truth_of_number {v : Value} {n : Int} (h : v.number? = some n) :
    v.truth = .ok (decide (n ≠ 0)) := by
  cases v with
  | integer m =>
    cases h
    have hm : (m != 0) = decide (m.toInt ≠ 0) := by
      rw [Bool.eq_iff_iff, bne_iff_ne, decide_eq_true_iff, ne_eq, ne_eq, ← Int64.toInt_inj]
      rfl
    exact congrArg Except.ok hm
  | boolean b =>
    cases h
    cases b <;> rfl
  | _ => cases h

/-- What a logical operator makes of two numbers in C++. -/
def Operator.onNumbers : Operator → Int → Int → Int
  | .and, l, r => ofBool (l ≠ 0 ∧ r ≠ 0)
  | .or, l, r => ofBool (l ≠ 0 ∨ r ≠ 0)
  | _, l, r => ofBool (l ≠ r)

/-- What a logical operator makes of the truth of its operands. -/
def Operator.onTruth : Operator → Bool → Bool → Bool
  | .and, l, r => l && r
  | .or, l, r => l || r
  | _, l, r => l != r

theorem operation_done {op : Operator} (hop : op = .and ∨ op = .or ∨ op = .xor)
    {x y : Eval σ Value} {s : RunState σ} {v w : Value} {l r : Bool} (hx : x s = .done v s)
    (hv : v.truth = .ok l) (hy : y s = .done w s) (hw : w.truth = .ok r) :
    Eval.operation op x y s = .done (.boolean (op.onTruth l r)) s := by
  have hlogical (op : Operator) : Eval.logical op x y s =
      .done (.boolean (if (op = .and && !l) || (op = .or && l) then l else r)) s := by
    unfold Eval.logical
    rw [Eval.bind_done hx, hv]
    change (if _ then _ else _ : Eval σ Value) s = _
    split
    · rfl
    · rw [Eval.bind_done hy, hw]
      rfl
  obtain rfl | rfl | rfl := hop
  · refine (hlogical .and).trans ?_
    cases l <;> rfl
  · refine (hlogical .or).trans ?_
    cases l <;> rfl
  · change (x >>= fun v => y >>= fun w => Eval.ofExcept (v.apply .xor w)) s = _
    rw [Eval.bind_done hx, Eval.bind_done hy, Value.apply, hv, hw]
    rfl

theorem variableValue_done {s : RunState σ} {name : String} {v : Value}
    (h : s.environment.get? name = some v) : Eval.variableValue name s = .done v s := by
  rw [Eval.variableValue_apply, h]

end Values

section Operations

theorem tree_logical {op : Operator} (hop : op = .and ∨ op = .or ∨ op = .xor)
    (classes : List String) (left right : Expr) : (Expr.binary op left right).tree classes =
      .binary op.cppSymbol (left.tree classes) (right.tree classes) := by
  obtain rfl | rfl | rfl := hop <;> rfl

theorem value?_logical {op : Operator} (hop : op = .and ∨ op = .or ∨ op = .xor)
    {memory : String → Option Int} {left right : Cpp.Tree} {l r : Int}
    (hl : left.value? memory = some l) (hr : right.value? memory = some r) :
    (Cpp.Tree.binary op.cppSymbol left right).value? memory = some (op.onNumbers l r) := by
  obtain rfl | rfl | rfl := hop
  · by_cases h : l = 0 <;>
      simp [Tree.value?, Operator.cppSymbol, Operator.onNumbers, hl, hr, h, ofBool]
  · by_cases h : l = 0 <;>
      simp [Tree.value?, Operator.cppSymbol, Operator.onNumbers, hl, hr, h, ofBool]
  · simp [Tree.value?, Operator.cppSymbol, Operator.onNumbers, hl, hr]

theorem differ_iff {l r : Int} (h : l = r ∨ l = 0 ∨ r = 0) :
    decide (l ≠ r) = (decide (l ≠ 0) != decide (r ≠ 0)) := by
  obtain rfl | rfl | rfl := h
  · simp
  · by_cases hr : r = 0
    · simp [hr]
    · simp [hr, Ne.symm hr]
  · by_cases hl : l = 0 <;> simp [hl]

/-- Numbers are combined as their truth is, where the right operand does not count or is the same
and a comparison is one of truth. -/
theorem onNumbers_eq {op : Operator} (hop : op = .and ∨ op = .or ∨ op = .xor) {l r m : Int}
    (h : op = .and ∧ l = 0 ∨ op = .or ∧ l ≠ 0 ∨
      r = m ∧ (op = .xor → l = r ∨ l = 0 ∨ r = 0)) :
    op.onNumbers l r = ofBool (op.onTruth (l ≠ 0) (m ≠ 0)) := by
  obtain ⟨rfl, rfl⟩ | ⟨rfl, hl⟩ | ⟨rfl, hx⟩ := h
  · simp [Operator.onNumbers, Operator.onTruth]
  · simp [Operator.onNumbers, Operator.onTruth, hl]
  · obtain rfl | rfl | rfl := hop
    · simp [Operator.onNumbers, Operator.onTruth]
    · simp [Operator.onNumbers, Operator.onTruth]
    · exact congrArg ofBool (differ_iff (hx rfl))

theorem skips_iff {op : Operator} (hop : op = .and ∨ op = .or ∨ op = .xor)
    {memory : String → Option Int} {left : Cpp.Tree} {l : Int} (hl : left.value? memory = some l) :
    left.Skips memory op.cppSymbol ↔ op = .and ∧ l = 0 ∨ op = .or ∧ l ≠ 0 := by
  obtain rfl | rfl | rfl := hop <;>
    simp [Tree.Skips, Operator.cppSymbol, hl]

end Operations

section Agreement

variable {σ : Type} [Console σ] {memory : String → Option Int} {e : Expr} (classes : List String)

/-- A logical expression has a value in the run and one in C++. They are the same number where the
expression compares truth only. -/
theorem Expr.Logical.values {s : RunState σ} (h : e.Logical s.environment memory) :
    ∃ v m n, e.eval s = .done v s ∧ v.number? = some m ∧
      (e.tree classes).value? memory = some n ∧
      ((e.tree classes).ComparesTruth memory → n = m) := by
  induction h with
  | boolean b =>
    refine ⟨.boolean b, ofBool b, ofBool b, rfl, rfl, ?_, fun _ => rfl⟩
    cases b <;> rfl
  | integer n =>
    exact ⟨.integer n, n.toInt, n.toInt, rfl, rfl, value?_integer memory n.toInt, fun _ => rfl⟩
  | @held name v n hn hl hv hnumber hc =>
    refine ⟨v, n, n, ?_, hnumber, ?_, fun _ => rfl⟩
    · exact variableValue_done hv
    · change (literal? (mangle name)).or (memory (mangle name)) = _
      rw [literal?_name hn hl, hc]
      rfl
  | @operation op left right hop hl hr ihl ihr =>
    obtain ⟨v, m, n, hev, hm, hn, hvn⟩ := ihl
    obtain ⟨w, m', n', hev', hm', hn', hvn'⟩ := ihr
    refine ⟨_, _, op.onNumbers n n',
      operation_done hop hev (truth_of_number hm) hev' (truth_of_number hm'), rfl, ?_, ?_⟩
    · rw [tree_logical hop]
      exact value?_logical hop hn hn'
    · rw [tree_logical hop]
      rintro ⟨ht, hr⟩
      obtain rfl := hvn ht
      apply onNumbers_eq hop
      rw [skips_iff hop hn] at hr
      obtain (h | h) | ⟨ht', hx⟩ := hr
      · exact .inl h
      · exact .inr (.inl h)
      · refine .inr (.inr ⟨hvn' ht', fun ho => ?_⟩)
        subst ho
        exact hx rfl n n' hn hn'

omit [Console σ] in
theorem operand_of_written {text : String} {t : Cpp.Tree} (parent : Strength) (right : Bool)
    (h : ∀ s ≤ e.strength, s < .access → Written text (nodeAt s t))
    (hs : (if right then parent + 1 else parent) < .access) :
    Written (operand e text parent right) (nodeAt (if right then parent + 1 else parent) t) := by
  refine written_operand_of (h (min (if right then parent + 1 else parent) e.strength)
    (Nat.min_le_right _ _) (Nat.lt_of_le_of_lt (Nat.min_le_left _ _) hs)) fun hle => ?_
  exact Nat.le_min.2 ⟨Nat.le_refl _, hle⟩

omit [Console σ] in
theorem Expr.Logical.written {environment : Environment} (h : e.Logical environment memory) :
    ∀ s ≤ e.strength, s < .access → Written (e.cpp classes) (nodeAt s (e.tree classes)) := by
  induction h with
  | boolean b =>
    intro s _ _
    cases b
    · have hn : IsNameText "false" := by decide
      exact (written_name hn).atom s
    · have hn : IsNameText "true" := by decide
      exact (written_name hn).atom s
  | integer n => exact fun s _ hs => written_integer n.toInt hs
  | held hn => exact fun s _ _ => (written_name hn).atom s
  | @operation op left right hop hl hr ihl ihr =>
    intro s hs _
    have hadd : ¬(op = .add ∧ (left.joinsText || right.joinsText) = true) := by
      rintro ⟨rfl, -⟩
      simp at hop
    have hstrength : op.strength + 1 < Strength.access := by
      obtain rfl | rfl | rfl := hop <;> decide
    have hw := (operand_of_written op.strength false ihl
      (Nat.lt_of_succ_lt hstrength)).operation op
      (operand_of_written op.strength true ihr hstrength)
    have hc : binaryText op left right (left.cpp classes) (right.cpp classes) =
        operand left (left.cpp classes) op.strength false ++ spaced op.cppSymbol ++
          operand right (right.cpp classes) op.strength true := by
      rw [binaryText, if_neg hadd]
      simp only [spaced, String.append_assoc]
    have he : (Expr.binary op left right).cpp classes =
        binaryText op left right (left.cpp classes) (right.cpp classes) := by
      obtain rfl | rfl | rfl := hop <;> rfl
    rw [he, hc, tree_logical hop]
    exact hw.map fun ls hp => hp.looser hs

/-- A logical expression has the truth in C++ that it has in the run, if it compares truth only.
Where its operands do so, the outermost `!=` gives the same truth only then. -/
theorem Expr.logic_agrees {s : RunState σ} (h : e.Logical s.environment memory) :
    ReadsOnly (e.cpp classes) (e.tree classes) ∧
      ∃ v b n, e.eval s = .done v s ∧ v.truth = .ok b ∧
        (e.tree classes).value? memory = some n ∧
        ((e.tree classes).ComparesTruth memory → (n ≠ 0 ↔ b = true)) ∧
        ∀ left right, e = .binary .xor left right →
          (left.tree classes).ComparesTruth memory → (right.tree classes).ComparesTruth memory →
          (n ≠ 0 ↔ b = true) → (e.tree classes).ComparesTruth memory := by
  obtain ⟨v, m, n, he, hm, hn, hagree⟩ := h.values classes
  refine ⟨(h.written classes 0 (Nat.zero_le _) (by decide)).readsOnly, v, decide (m ≠ 0), n, he,
    truth_of_number hm, hn, fun ht => ?_, ?_⟩
  · rw [hagree ht, decide_eq_true_iff]
  · rintro left right rfl htl htr hiff
    obtain ⟨hop, hl, hr⟩ : _ ∧ _ ∧ _ := by
      cases h with
      | operation hop hl hr => exact ⟨hop, hl, hr⟩
    obtain ⟨v', m', n', he', hm', hn', hagree'⟩ := hl.values classes
    obtain ⟨w', k', l', hf', hk', hl', hagree''⟩ := hr.values classes
    obtain rfl := hagree' htl
    obtain rfl := hagree'' htr
    have hv := he.symm.trans
      (operation_done hop he' (truth_of_number hm') hf' (truth_of_number hk'))
    cases hv
    cases hm
    cases hn.symm.trans (value?_logical hop hn' hl')
    refine ⟨htl, .inr ⟨htr, fun _ l r hvl hvr => ?_⟩⟩
    cases hvl.symm.trans hn'
    cases hvr.symm.trans hl'
    -- Otherwise the numbers are unequal and both true, so that `!=` holds where `xor` does not.
    by_contra hne
    obtain ⟨hne, hl₀, hr₀⟩ := not_or.1 hne |>.imp_right not_or.1
    simp [Operator.onNumbers, Operator.onTruth, ofBool, hne, hl₀, hr₀] at hiff

theorem logic_agrees_flag :
    let s : RunState StreamConsole := ⟨⟨[("flag", .boolean true), ("n", .integer 7)]⟩, .ofInput ""⟩
    let memory := fun name => if name = "flag" then some 1 else if name = "n" then some 7 else none
    let e := Expr.binary .xor (.binary .and (.identifier "flag") (.integer (-3)))
      (.binary .or (.identifier "n") (.boolean false))
    e.Logical s.environment memory ∧ ReadsOnly (e.cpp []) (e.tree []) := by
  intro s memory e
  have hflag : Expr.Logical s.environment memory (.identifier "flag") :=
    .held (v := .boolean true) (by decide) (by decide) rfl rfl rfl
  have hn : Expr.Logical s.environment memory (.identifier "n") :=
    .held (v := .integer 7) (by decide) (by decide) rfl rfl rfl
  have h : e.Logical s.environment memory :=
    .operation (by decide) (.operation (by decide) hflag (.integer (-3)))
      (.operation (by decide) hn (.boolean false))
  exact ⟨h, (Expr.logic_agrees [] h).1⟩

/-- Two true numbers that differ: `2 XOR 1` is false in the run and `2 != 1` is true in C++. -/
theorem xor_of_true_numbers :
    let s : RunState StreamConsole := ⟨.empty, .ofInput ""⟩
    let e := Expr.binary .xor (.integer 2) (.integer 1)
    e.eval s = .done (.boolean false) s ∧ e.cpp [] = "2 != 1" ∧
      ReadsOnly "2 != 1" (.binary "!=" (.leaf "2") (.leaf "1")) ∧
      (Cpp.Tree.binary "!=" (.leaf "2") (.leaf "1")).value? (fun _ => none) = some 1 := by
  intro s e
  have h : e.Logical s.environment fun _ => none :=
    .operation (by decide) (.integer 2) (.integer 1)
  have hc : e.cpp [] = "2 != 1" := by decide
  have ht : e.tree [] = .binary "!=" (.leaf "2") (.leaf "1") := by
    have hn : Text.decimal 2 = "2" ∧ Text.decimal 1 = "1" := by decide
    change Cpp.Tree.binary "!=" (.leaf (Text.decimal 2)) (.leaf (Text.decimal 1)) = _
    rw [hn.1, hn.2]
  have hw := h.written [] 0 (Nat.zero_le _) (by decide)
  rw [hc, ht] at hw
  exact ⟨rfl, hc, hw.readsOnly, by decide⟩

end Agreement

end VnScript
