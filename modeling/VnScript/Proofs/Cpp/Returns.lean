import VnScript.Proofs.Cpp.Sections

namespace VnScript

open Cpp

mutual

/-- What the return statements of a statement give, at any depth and in source order. Of a further
clause only the body has code. -/
def Stmt.returns : Stmt → List (Option Expr)
  | .ret value => [value]
  | .conditional clause => clause.returns
  | .forLoop _ _ _ body => blockReturns body
  | .forIn _ _ _ body => blockReturns body
  | .whileLoop _ body => blockReturns body
  | .doWhile body _ => blockReturns body
  | .switch _ cases => casesReturns cases
  | .attempt body _ _ handler => blockReturns body ++ blockReturns handler
  | .comment _ => []
  | .declare _ _ _ => []
  | .expr _ => []

def blockReturns : List Stmt → List (Option Expr)
  | [] => []
  | s :: rest => s.returns ++ blockReturns rest

def Conditional.returns : Conditional → List (Option Expr)
  | .mk _ body elseIfs orElse =>
    blockReturns body ++ clausesReturns elseIfs ++
      match orElse with
      | some b => blockReturns b
      | none => []

def clausesReturns : List Conditional → List (Option Expr)
  | [] => []
  | .mk _ body _ _ :: rest => blockReturns body ++ clausesReturns rest

def casesReturns : List Case → List (Option Expr)
  | [] => []
  | .mk _ body :: rest => blockReturns body ++ casesReturns rest

end

section FirstReturned

def firstValue (values : List (Option Expr)) : Option Expr := values.findSome? id

theorem firstValue_append (vs ws : List (Option Expr)) :
    firstValue (vs ++ ws) = (firstValue vs).or (firstValue ws) := List.findSome?_append

theorem firstValue_eq_none {vs : List (Option Expr)} :
    firstValue vs = none ↔ ∀ value ∈ vs, value = none := List.findSome?_eq_none_iff

mutual

theorem Stmt.firstReturned_eq : (s : Stmt) → s.firstReturned = firstValue s.returns
  | .ret value => by cases value <;> rfl
  | .conditional clause => clause.firstReturned_eq
  | .forLoop _ _ _ body | .forIn _ _ _ body | .whileLoop _ body | .doWhile body _ =>
    blockFirstReturned_eq body
  | .switch _ cases => casesFirstReturned_eq cases
  | .attempt body _ _ handler => by
    rw [Stmt.firstReturned, Stmt.returns, firstValue_append, blockFirstReturned_eq body,
      blockFirstReturned_eq handler]
  | .comment _ | .declare _ _ _ | .expr _ => rfl

theorem blockFirstReturned_eq : (ss : List Stmt) →
    blockFirstReturned ss = firstValue (blockReturns ss)
  | [] => rfl
  | s :: rest => by
    rw [blockFirstReturned, blockReturns, firstValue_append, s.firstReturned_eq,
      blockFirstReturned_eq rest]

theorem Conditional.firstReturned_eq : (c : Conditional) → c.firstReturned = firstValue c.returns
  | .mk _ body elseIfs none => by
    rw [Conditional.firstReturned, Conditional.returns, firstValue_append, firstValue_append,
      blockFirstReturned_eq body, clausesFirstReturned_eq elseIfs]
    rfl
  | .mk _ body elseIfs (some b) => by
    rw [Conditional.firstReturned, Conditional.returns, firstValue_append, firstValue_append,
      blockFirstReturned_eq body, clausesFirstReturned_eq elseIfs]
    exact congrArg _ (blockFirstReturned_eq b)

theorem clausesFirstReturned_eq : (cs : List Conditional) →
    clausesFirstReturned cs = firstValue (clausesReturns cs)
  | [] => rfl
  | .mk _ body _ _ :: rest => by
    rw [clausesFirstReturned, clausesReturns, firstValue_append, blockFirstReturned_eq body,
      clausesFirstReturned_eq rest]

theorem casesFirstReturned_eq : (cs : List Case) →
    casesFirstReturned cs = firstValue (casesReturns cs)
  | [] => rfl
  | .mk _ body :: rest => by
    rw [casesFirstReturned, casesReturns, firstValue_append, blockFirstReturned_eq body,
      casesFirstReturned_eq rest]

end

end FirstReturned

namespace Cpp

mutual

/-- What the return statements in code give, at any depth and in source order. -/
def Code.returns : Code → List (Option Expr)
  | .ret value => [value]
  | .conditional first further orElse =>
    first.returns ++ furtherReturns further ++
      match orElse with
      | some b => codeReturns b
      | none => []
  | .forLoop _ _ _ body => codeReturns body
  | .forIn _ _ _ body => codeReturns body
  | .whileLoop _ body => codeReturns body
  | .doWhile body _ => codeReturns body
  | .switch _ _ cases => furtherReturns cases
  | .attempt body _ _ _ handler => codeReturns body ++ codeReturns handler
  | .comment _ => []
  | .simple _ => []

def codeReturns : List Code → List (Option Expr)
  | [] => []
  | c :: rest => c.returns ++ codeReturns rest

def Clause.returns : Clause → List (Option Expr)
  | .mk _ body => codeReturns body

def furtherReturns : List Clause → List (Option Expr)
  | [] => []
  | c :: rest => c.returns ++ furtherReturns rest

end

end Cpp

section Generated

mutual

theorem Stmt.code_returns : (s : Stmt) → Makes (fun c => c.returns = s.returns) s.code
  | .ret _ | .comment _ => .pure rfl
  | .declare _ _ _ | .expr _ => fun _ _ => rfl
  | .conditional clause => clause.code_returns
  | .forLoop _ _ _ body =>
    .inBlock [] ((Makes.any _).bind fun _ _ =>
      ((block_returns body).inBlock []).bind fun _ hi => .pure hi)
  | .forIn name _ _ body =>
    (((block_returns body).inBlock []).inBlock [name]).bind fun _ hi => .pure hi
  | .whileLoop _ body | .doWhile body _ =>
    ((block_returns body).inBlock []).bind fun _ hi => .pure hi
  | .switch _ cases => (Makes.any _).bind fun _ _ => (cases_returns cases).bind fun _ hi => .pure hi
  | .attempt body _ binding handler =>
    (Makes.any _).bind fun _ _ => ((block_returns body).inBlock []).bind fun _ hb =>
      (((block_returns handler).inBlock []).inBlock [binding]).bind fun _ hh =>
        .pure (congrArg₂ (· ++ ·) hb hh)

theorem block_returns : (ss : List Stmt) →
    Makes (fun cs => codeReturns cs = blockReturns ss) (blockCode ss)
  | [] => .pure rfl
  | s :: rest => s.code_returns.bind fun _ hs => (block_returns rest).bind fun _ hr =>
    .pure (congrArg₂ (· ++ ·) hs hr)

theorem Conditional.code_returns : (c : Conditional) →
    Makes (fun code => code.returns = c.returns) c.code
  | .mk _ body elseIfs none =>
    ((block_returns body).inBlock []).bind fun _ hb => (clauses_returns elseIfs).bind fun _ hc =>
      .pure (congrArg (· ++ []) (congrArg₂ (· ++ ·) hb hc))
  | .mk _ body elseIfs (some b) =>
    ((block_returns body).inBlock []).bind fun _ hb => (clauses_returns elseIfs).bind fun _ hc =>
      ((block_returns b).inBlock []).bind fun _ hi =>
        .pure (congrArg₂ (· ++ ·) (congrArg₂ (· ++ ·) hb hc) hi)

theorem clauses_returns : (cs : List Conditional) →
    Makes (fun clauses => furtherReturns clauses = clausesReturns cs) (clausesCode cs)
  | [] => .pure rfl
  | .mk _ body _ _ :: rest =>
    ((block_returns body).inBlock []).bind fun _ hb => (clauses_returns rest).bind fun _ hr =>
      .pure (congrArg₂ (· ++ ·) hb hr)

theorem cases_returns : (cs : List Case) →
    Makes (fun clauses => furtherReturns clauses = casesReturns cs) (casesCode cs)
  | [] => .pure rfl
  | .mk _ body :: rest =>
    ((block_returns body).inBlock []).bind fun _ hb => (cases_returns rest).bind fun _ hr =>
      .pure (congrArg₂ (· ++ ·) hb hr)

end

end Generated

namespace Cpp

section Lines

variable {classes : List String} {inMain : Bool}

/-- The lines of a return statement. In `main` the value is computed for its effects only. -/
inductive IsReturn (classes : List String) : Bool → Option Expr → List Line → Prop
  | value (indent : Nat) (e : Expr) :
      IsReturn classes false (some e) [⟨indent, "return " ++ e.cpp classes ++ ";"⟩]
  | bare (indent : Nat) : IsReturn classes false none [⟨indent, "return;"⟩]
  | mainValue (indent : Nat) (e : Expr) : IsReturn classes true (some e)
      [⟨indent, "static_cast<void>(" ++ e.cpp classes ++ ");"⟩, ⟨indent, "return 0;"⟩]
  | mainBare (indent : Nat) : IsReturn classes true none [⟨indent, "return 0;"⟩]

theorem isReturn_returnLines (indent : Nat) (value : Option Expr) :
    IsReturn classes inMain value (returnLines classes inMain indent value) := by
  cases inMain <;> cases value <;> constructor

mutual

/-- The lines of code have those of its return statements among them, in this order. -/
theorem Code.returns_lines (indent : Nat) : (c : Code) →
    Sections (IsReturn classes inMain) c.returns (c.lines classes inMain indent)
  | .ret value => .single (isReturn_returnLines indent value)
  | .comment _ | .simple _ => .none _
  | .conditional (.mk _ body) further none =>
    ((((codeReturns_lines (indent + 1) body).behind [_]).append
      (furtherReturns_lines indent further)).append (.none [])).around [] [_]
  | .conditional (.mk _ body) further (some b) =>
    ((((codeReturns_lines (indent + 1) body).behind [_]).append
      (furtherReturns_lines indent further)).append
        ((codeReturns_lines (indent + 1) b).behind [_])).around [] [_]
  | .forLoop _ _ _ body | .forIn _ _ _ body | .whileLoop _ body | .doWhile body _ =>
    (codeReturns_lines (indent + 1) body).around [_] [_]
  | .switch name _ cases => ((casesReturns_lines (indent + 1) name "if" cases).around [_, _]
      (noMatchLines (indent + 1) name cases.isEmpty)).around [] [_]
  | .attempt body _ _ _ handler =>
    (((codeReturns_lines (indent + 1) body).around [_] _).append
      (codeReturns_lines (indent + 1) handler)).around [] [_]

theorem codeReturns_lines (indent : Nat) : (cs : List Code) →
    Sections (IsReturn classes inMain) (codeReturns cs) (codeLines classes inMain indent cs)
  | [] => .none _
  | c :: rest => (c.returns_lines indent).append (codeReturns_lines indent rest)

theorem furtherReturns_lines (indent : Nat) : (cs : List Clause) →
    Sections (IsReturn classes inMain) (furtherReturns cs) (furtherLines classes inMain indent cs)
  | [] => .none _
  | .mk _ body :: rest =>
    ((codeReturns_lines (indent + 1) body).behind [_]).append (furtherReturns_lines indent rest)

theorem casesReturns_lines (indent : Nat) (subject word : String) : (cs : List Clause) →
    Sections (IsReturn classes inMain) (furtherReturns cs)
      (casesLines classes inMain indent subject word cs)
  | [] => .none _
  | .mk _ body :: rest =>
    ((codeReturns_lines (indent + 1) body).behind [_]).append
      ((casesReturns_lines indent subject "else if" rest).behind [_])

end

end Lines

end Cpp

section Bodies

variable {classes : List String}

/-- The code of a body, in whose scope the parameters are. -/
def Cpp.bodyCode (parameters : List Parameter) (body : List Stmt) : Gen (List Code) :=
  inBlock (parameters.map Parameter.name) (blockCode body)

theorem Cpp.bodyCode_returns (parameters : List Parameter) (body : List Stmt) :
    Makes (fun code => codeReturns code = blockReturns body) (bodyCode parameters body) :=
  (block_returns body).inBlock _

theorem Cpp.bodyLines_eq (inMain : Bool) (indent : Nat) (parameters : List Parameter)
    (body : List Stmt) : bodyLines classes inMain indent parameters body =
      codeLines classes inMain indent <$> bodyCode parameters body := by
  rw [bodyLines, blockLines_eq, inBlock_map, bodyCode]

/-- The first line of a method that gives `result`. -/
def Cpp.methodHead (qualifier result : String) (f : Function) : Line :=
  ⟨1, qualifier ++ result ++ " " ++ mangle f.name ++ "(" ++ parameterList f.parameters ++ ") \x7b"⟩

theorem Cpp.methodLines_eq (qualifier : String) (f : Function) :
    methodLines classes qualifier f = (fun code => Line.blank ::
      methodHead qualifier (methodResult f) f :: codeLines classes false 2 code ++
        [⟨1, "\x7d"⟩]) <$> bodyCode f.parameters f.body := by
  rw [methodLines, bodyLines_eq]
  simp [methodHead]

theorem Cpp.conventionalType?_ne_void {name type : String}
    (h : conventionalType? name = some type) : type ≠ "void" := by
  unfold conventionalType? at h
  split at h
  · cases h
    decide
  · split at h
    · cases h
      decide
    · cases h

/-- A method without a declared type gives `void` exactly if no return statement has a value. -/
theorem Cpp.methodResult_eq_void {f : Function} (h : f.result = none) :
    methodResult f = "void" ↔ ∀ value ∈ blockReturns f.body, value = none := by
  rw [← firstValue_eq_none, ← blockFirstReturned_eq, methodResult, h]
  cases hv : blockFirstReturned f.body with
  | none => simp
  | some e =>
    have hauto : "auto" ≠ "void" := by decide
    cases e with
    | member object name =>
      cases ht : conventionalType? name with
      | none => simp [ht]
      | some type => simp [ht, conventionalType?_ne_void ht]
    | _ => simp

/-- The head of a method without a declared type gives `void` exactly if no return statement in the
code behind it has a value. These are the return statements that the body has, each with lines of
its own. -/
theorem method_void_iff (classes : List String) (qualifier : String) (f : Function)
    (h : f.result = none) (placeholder : Stmt → String) (s : Scope) :
    ∃ code, (bodyCode f.parameters f.body placeholder s).1 = code ∧
      (methodLines classes qualifier f placeholder s).1 = Line.blank ::
        methodHead qualifier (methodResult f) f :: codeLines classes false 2 code ++
          [⟨1, "\x7d"⟩] ∧
      (methodResult f = "void" ↔ ∀ value ∈ codeReturns code, value = none) ∧
      codeReturns code = blockReturns f.body ∧
      Sections (IsReturn classes false) (codeReturns code) (codeLines classes false 2 code) := by
  have hreturns := bodyCode_returns f.parameters f.body placeholder s
  refine ⟨_, rfl, ?_, ?_, hreturns, codeReturns_lines 2 _⟩
  · rw [methodLines_eq]
    rfl
  · rw [hreturns, methodResult_eq_void h]

/-- Only the bare return has code: nothing stands for what starts a loop, for a clause of a clause
or for its last body. -/
def unreachedReturns : Function :=
  ⟨none, "stop", [],
    [.forLoop (.ret (some (.integer 1))) (.boolean true) (.boolean true) [.ret none],
      .conditional (.mk (.boolean true) []
        [.mk (.boolean true) []
          [.mk (.boolean true) [.ret (some (.integer 2))] [] none]
          (some [.ret (some (.integer 3))])] none)]⟩

theorem unreachedReturns_void : unreachedReturns.result = none ∧
    methodResult unreachedReturns = "void" ∧
    ∃ code, (bodyCode [] unreachedReturns.body unsupportedStatement .start).1 = code ∧
      (methodResult unreachedReturns = "void" ↔ ∀ value ∈ codeReturns code, value = none) ∧
      codeReturns code = [none] := by
  obtain ⟨code, hcode, -, hvoid, hreturns, -⟩ :=
    method_void_iff [] "" unreachedReturns rfl unsupportedStatement .start
  exact ⟨rfl, by decide, code, hcode, hvoid, hreturns⟩

end Bodies

end VnScript
