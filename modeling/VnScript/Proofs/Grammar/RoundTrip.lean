import VnScript.Proofs.Grammar.Printing

namespace VnScript

open Grammar Word

theorem Operator.spelled_kind (op : Operator) : (sym op.kind).Spelled := by
  cases op <;> exact spelled_sym rfl

theorem Operator.level (op : Operator) : ∃ level,
    levels.drop (op.rank - 1) = level :: levels.drop op.rank ∧ level op.kind = some op := by
  cases op <;> exact ⟨_, rfl, rfl⟩

theorem Operator.rank_pos (op : Operator) : 0 < op.rank := by
  cases op <;> decide

def Expr.node (e : Expr) : ExprNode :=
  match e with
  | .assign _ _ | .assignMember _ _ _ => .expression e
  | .binary op _ _ => .binary (levels.drop (op.rank - 1)) e
  | _ => .primary e

section Expressions

variable {ws : List Word} {e : Expr} {es : List Expr}

theorem ExprPhrase.looser {ls : List (TokenKind → Option Operator)} {n : Nat}
    (h : ExprPhrase ws (.binary (ls.drop n) e)) : ExprPhrase ws (.binary ls e) := by
  induction ls generalizing n with
  | nil => rwa [List.drop_nil] at h
  | cons l ls ih =>
    cases n with
    | zero => exact h
    | succ n => exact .tighter (ih h)

theorem ExprPhrase.of_primary {ls : List (TokenKind → Option Operator)}
    (h : ExprPhrase ws (.primary e)) : ExprPhrase ws (.binary ls e) := by
  refine ExprPhrase.looser (n := ls.length) ?_
  rw [List.drop_length]
  exact .operand h

theorem ExprPhrase.at_level (h : ExprPhrase ws e.node) {k : Nat} (hk : k < e.rank) :
    ExprPhrase ws (.binary (levels.drop k) e) := by
  cases e with
  | assign | assignMember => exact absurd hk (Nat.not_lt_zero k)
  | binary op left right =>
    have hk' : k < op.rank := hk
    have hdrop : levels.drop (op.rank - 1) = (levels.drop k).drop (op.rank - 1 - k) := by
      rw [List.drop_drop]
      congr 1
      omega
    refine ExprPhrase.looser (n := op.rank - 1 - k) ?_
    rw [← hdrop]
    exact h
  | _ => exact h.of_primary

theorem ExprPhrase.expression (h : ExprPhrase ws e.node) : e.Phrase ws := by
  cases e with
  | assign | assignMember => exact h
  | binary op left right => exact .value (h.at_level op.rank_pos)
  | _ => exact .value (h.at_level (k := 0) (Nat.succ_pos 5))

theorem ExprPhrase.enclosed (h : es ≠ [] →
    ExprPhrase ([sym .comma].intercalate (exprsWords es)) (.items es)) :
    ExprPhrase (enclosed (exprsWords es)) (.arguments es) := by
  cases es with
  | nil => exact .noArguments
  | cons e es => exact .arguments (h (List.cons_ne_nil e es))

theorem integer_phrase {n : Int64} (h : 0 ≤ n.toInt) :
    ExprPhrase [⟨.integer, Text.decimal n.toInt⟩] (.primary (.integer n)) := by
  refine .literal ⟨_, .integer ?_⟩ ?_
  · rw [Text.toList_decimal h]
    exact Decimal.isWhole_toDigits _
  · exact congrArg (Option.map Expr.integer) (Text.readInt64?_decimal h)

theorem float_phrase {bits : UInt32} (h : bits.toNat ≤ Decimal.FloatFormat.single.infinityBits) :
    ExprPhrase [⟨.float, String.ofList (Decimal.FloatFormat.single.exactDigits bits.toNat)⟩]
      (.primary (.float bits)) := by
  refine .literal ⟨_, .float (Or.inr ?_) (Or.inl rfl)⟩ ?_
  · rw [String.toList_ofList]
    exact Decimal.FloatFormat.isPointed_exactDigits _ _
  · rw [literal?, Decimal.FloatFormat.read?_exactDigits _ h, Option.map_some]
    simp

theorem double_phrase {bits : UInt64} (h : bits.toNat ≤ Decimal.FloatFormat.double.infinityBits) :
    ExprPhrase [⟨.double, String.ofList (Decimal.FloatFormat.double.exactDigits bits.toNat)⟩]
      (.primary (.double bits)) := by
  refine .literal ⟨_, .double ?_⟩ ?_
  · rw [String.toList_ofList]
    exact Decimal.FloatFormat.isPointed_exactDigits _ _
  · rw [literal?, Decimal.FloatFormat.read?_exactDigits _ h, Option.map_some]
    simp

theorem char_phrase {c : Char} (h : c ≠ '\x27') :
    ExprPhrase [⟨.char, String.ofList [c]⟩] (.primary (.char c)) := by
  refine .literal ⟨_, .char ?_⟩ ?_
  · simpa using h.symm
  · simp [literal?, literalChar?]

mutual

theorem Expr.phrase_words : (e : Expr) → e.WellFormed → e.Laddered → ExprPhrase e.words e.node
  | .identifier name, hw, hl => .named hw .alone
  | .integer n, hw, hl => integer_phrase hw.1
  | .float bits, hw, hl => float_phrase hw
  | .double bits, hw, hl => double_phrase hw
  | .char c, hw, hl => char_phrase hw
  | .boolean true, hw, hl => .true
  | .boolean false, hw, hl => .false
  | .string s, hw, hl => .literal ⟨_, .string hw⟩ rfl
  | .self, hw, hl => hw.elim
  | .binary op left right, hw, hl => by
    obtain ⟨hleft, hright⟩ := hl.1
    obtain ⟨level, hlevel, hop⟩ := op.level
    have hpos := op.rank_pos
    have h := (Expr.phrase_words left hw.1 hl.2.1).at_level (k := op.rank - 1) (by omega)
    have h' := (Expr.phrase_words right hw.2 hl.2.2).at_level hright
    change ExprPhrase _ (.binary (levels.drop (op.rank - 1)) _)
    rw [hlevel] at h ⊢
    exact .operation h op.spelled_kind hop h'
  | .assign name value, hw, hl => by
    have h := (Expr.phrase_words value hw.2 hl).expression
    exact .assign (ExprPhrase.named hw.1 .alone).of_primary (spelled_sym (k := .assign) rfl) rfl h
  | .assignMember object member value, hw, hl => by
    obtain ⟨name, rfl, hn⟩ := hw.1
    have h := (Expr.phrase_words value hw.2.2 hl).expression
    have ht : ExprPhrase _ (.primary (.member (.identifier name) member)) :=
      .named hn (.member hw.2.1)
    have h := ExprPhrase.assignMember ht.of_primary (spelled_sym (k := .assign) rfl) rfl h
    exact h
  | .call .free name arguments, hw, hl =>
    .named hw.1 (.freeCall (.enclosed (exprs_phrase_words arguments hw.2 hl)))
  | .call (.named receiver) name arguments, hw, hl => by
    obtain ⟨⟨hr, hm⟩, hargs⟩ := hw
    have h := ExprPhrase.enclosed (exprs_phrase_words arguments hargs hl)
    obtain hr | rfl := hr
    · exact .named hr (.memberCall hm h)
    · exact .classCall hm h
  | .call (.namespaced space) name arguments, hw, hl =>
    .named hw.1.1 (.spaceCall hw.1.2 (.enclosed (exprs_phrase_words arguments hw.2 hl)))
  | .call .self name arguments, hw, hl => hw.1.elim
  | .namespaceMember space member, hw, hl => .named hw.1 (.spaceMember hw.2)
  | .create none type arguments, hw, hl =>
    .create hw.2.1 (.enclosed (exprs_phrase_words arguments hw.2.2 hl))
  | .create (some space) type arguments, hw, hl =>
    .createIn (hw.1 space rfl) hw.2.1 (.enclosed (exprs_phrase_words arguments hw.2.2 hl))
  | .member object name, hw, hl => by
    obtain ⟨target, rfl, hn⟩ := hw.1
    exact .named hn (.member hw.2)

theorem exprs_phrase_words : (es : List Expr) → exprsWellFormed es → exprsLaddered es → es ≠ [] →
    ExprPhrase ([sym .comma].intercalate (exprsWords es)) (.items es)
  | [e], hw, hl, _ => by
    have h := (Expr.phrase_words e hw.1 hl.1).expression
    change ExprPhrase ([sym .comma].intercalate [e.words]) _
    rw [List.intercalate_singleton]
    exact .lastItem h
  | e :: e' :: rest, hw, hl, _ => by
    have h := (Expr.phrase_words e hw.1 hl.1).expression
    have h' := exprs_phrase_words (e' :: rest) hw.2 hl.2 (List.cons_ne_nil _ _)
    change ExprPhrase ([sym .comma].intercalate (e.words :: e'.words :: exprsWords rest)) _
    rw [List.intercalate_cons_cons, List.append_assoc]
    exact .item h h'

end

theorem Expr.IsSource.phrase (h : e.IsSource) : e.Phrase e.words :=
  (Expr.phrase_words e h.1 h.2).expression

end Expressions

section Statements

variable {ws ws' : List Word} {e : Expr} {b : List Stmt}

theorem variableType?_keyword (type : VariableType) :
    variableType? (.keyword type.keyword) = some type := by
  cases type <;> rfl

theorem valueWords_phrase {value : Option Expr} (h : ∀ e ∈ value, e.IsSource) :
    ValuePhrase (valueWords value) value := by
  cases value with
  | none => exact .none
  | some e => exact .some (h e rfl).phrase

theorem clause_phrase (he : e.IsSource) (hb : StmtPhrase (stmtsWords b) (.statements b)) :
    StmtPhrase (headWords e ++ inBraces (stmtsWords b)) (.clause e b) := by
  have h := StmtPhrase.clause he.phrase (.block hb)
  simpa [headWords, inBraces] using h

theorem initial_phrase {s : Stmt} (hi : s.IsInitial) (hs : s.WellFormed Expr.IsSource) :
    ∃ ws, s.words = ws ++ [sym .semicolon] ∧ StmtPhrase ws (.initial s) := by
  cases s with
  | declare type name value =>
    exact ⟨_, rfl, .declareInitial (variableType?_keyword type) hs.1 (valueWords_phrase hs.2)⟩
  | expr e =>
    have he : e.IsSource := hs
    cases e with
    | assign name value =>
      have hk : (ofName name).kind = .identifier := by rw [ofName_of_isName hi]
      exact ⟨_, rfl, .assignInitial hk he.phrase trivial⟩
    | assignMember object member value =>
      obtain ⟨name, rfl, -⟩ := he.1.1
      have hk : (ofName name).kind = .identifier := by rw [ofName_of_isName hi]
      exact ⟨_, rfl, .assignInitial hk he.phrase trivial⟩
    | _ => exact hi.elim
  | _ => exact hi.elim

mutual

theorem Stmt.phrase_words : (s : Stmt) → s.WellFormed Expr.IsSource →
    StmtPhrase s.words (.statement s)
  | .comment text, hs => by
    have h := StmtPhrase.comment (w := ⟨.comment, text⟩) ⟨_, .comment hs.2⟩ rfl
    rwa [hs.1] at h
  | .declare type name value, hs =>
    .declare (variableType?_keyword type) hs.1 (valueWords_phrase hs.2)
  | .expr e, hs => .expr (Expr.IsSource.phrase hs)
  | .ret none, hs => .ret
  | .ret (some e), hs => .retValue (hs e rfl).phrase
  | .conditional (.mk condition body elseIfs orElse), hs => by
    obtain ⟨he, hb, hc, ho⟩ := hs
    have h := StmtPhrase.conditional (clause_phrase he (stmts_phrase_words body hb))
      (clauses_phrase_words elseIfs hc (orElse_phrase_words orElse ho))
    simpa only [Stmt.words, Conditional.words, List.append_assoc, List.cons_append] using h
  | .forLoop initial condition increment body, hs => by
    obtain ⟨hi, hs, hc, he, hb⟩ := hs
    obtain ⟨ws, hws, hinitial⟩ := initial_phrase hi hs
    have h := StmtPhrase.forLoop hinitial hc.phrase he.phrase (.block (stmts_phrase_words body hb))
    simpa only [Stmt.words, hws, inBraces, List.append_assoc, List.cons_append, List.nil_append]
      using h
  | .forIn name none collection body, hs =>
    .forIn hs.1 hs.2.1.phrase (.block (stmts_phrase_words body hs.2.2))
  | .forIn name (some type) collection body, hs =>
    .typedForIn (variableType?_keyword (.typed type)) hs.1 hs.2.1.phrase
      (.block (stmts_phrase_words body hs.2.2))
  | .whileLoop condition body, hs =>
    .whileLoop (clause_phrase hs.1 (stmts_phrase_words body hs.2))
  | .doWhile body condition, hs => by
    have h := StmtPhrase.doWhile (.block (stmts_phrase_words body hs.1)) hs.2.phrase
      (Or.inr rfl)
    simpa only [Stmt.words, headWords, inBraces, List.append_assoc, List.cons_append,
      List.nil_append] using h
  | .switch subject cases, hs => by
    have h := StmtPhrase.switch hs.1.phrase (cases_phrase_words cases hs.2)
    simpa only [Stmt.words, headWords, inBraces, List.append_assoc, List.cons_append,
      List.nil_append] using h
  | .attempt body errorType binding handler, hs =>
    .attempt (.block (stmts_phrase_words body hs.1)) hs.2.1 hs.2.2.1
      (.block (stmts_phrase_words handler hs.2.2.2))

theorem stmts_phrase_words : (ss : List Stmt) → blockWellFormed Expr.IsSource ss →
    StmtPhrase (stmtsWords ss) (.statements ss)
  | [], _ => .nil
  | s :: rest, hs => .cons (Stmt.phrase_words s hs.1) (stmts_phrase_words rest hs.2)

theorem clauses_phrase_words : (cs : List Conditional) → clausesWellFormed Expr.IsSource cs →
    {orElse : Option (List Stmt)} → StmtPhrase (orElseWords orElse) (.further [] orElse) →
    StmtPhrase (clausesWords cs ++ orElseWords orElse) (.further cs orElse)
  | [], _, _, ho => ho
  | .mk condition body elseIfs orElse :: rest, hs, orElse', ho => by
    obtain ⟨⟨he, hb, rfl, rfl⟩, hrest⟩ := hs
    have h := StmtPhrase.elseIf (clause_phrase he (stmts_phrase_words body hb))
      (clauses_phrase_words rest hrest ho)
    simpa only [clausesWords, orElseWords, Conditional.words, List.append_assoc, List.cons_append,
      List.append_nil] using h

theorem orElse_phrase_words : (orElse : Option (List Stmt)) →
    orElseWellFormed Expr.IsSource orElse → StmtPhrase (orElseWords orElse) (.further [] orElse)
  | none, _ => .noFurther
  | some b, hs => .orElse (.block (stmts_phrase_words b hs))

theorem cases_phrase_words : (cs : List Case) → casesWellFormed Expr.IsSource cs →
    StmtPhrase (casesWords cs) (.cases cs)
  | [], _ => .noCases
  | .mk _ body :: rest, hs =>
    .case hs.1.1.phrase (.block (stmts_phrase_words body hs.1.2)) (cases_phrase_words rest hs.2)

end

end Statements

section Declarations

variable {α : Type} {P : List Word → α → Prop} {words : α → List Word} {as : List α}

theorem separated_words (h : ∀ a ∈ as, P (words a) a) (hne : as ≠ []) :
    Separated P ([sym .comma].intercalate (as.map words)) as := by
  induction as with
  | nil => exact absurd rfl hne
  | cons a as ih =>
    obtain ⟨ha, has⟩ := List.forall_mem_cons.1 h
    cases as with
    | nil => simpa using Separated.last ha
    | cons b as =>
      have h := Separated.cons ha (ih has (List.cons_ne_nil b as))
      simpa [List.intercalate_cons_cons] using h

theorem enclosed_words (h : ∀ a ∈ as, P (words a) a) : Enclosed P (enclosed (as.map words)) as := by
  cases as with
  | nil => exact .empty
  | cons a as => exact .items (separated_words h (List.cons_ne_nil a as))

theorem commented_words (h : ∀ a ∈ as, P (words a) a) : Commented P (as.flatMap words) as := by
  induction as with
  | nil => exact .nil
  | cons a as ih =>
    obtain ⟨ha, has⟩ := List.forall_mem_cons.1 h
    exact .cons ha (ih has)

theorem parameter_phrase {p : Parameter} (h : IsUsable p.name) : ParameterPhrase p.words p := by
  obtain ⟨name, type⟩ := p
  cases type with
  | none => exact .untyped h
  | some type => exact .typed h

namespace Function

variable {f : Function}

theorem WellFormed.signature_phrase (h : f.WellFormed Expr.IsSource) :
    SignaturePhrase f.signatureWords f.parameters f.body :=
  .mk (enclosed_words fun p hp => parameter_phrase (h.parameters p hp))
    (.block (stmts_phrase_words f.body h.body))

theorem WellFormed.method_phrase (h : f.WellFormed Expr.IsSource) :
    SignaturePhrase f.methodWords (⟨instanceName, none⟩ :: f.parameters) f.body := by
  have hp : ∀ p ∈ (⟨instanceName, none⟩ : Parameter) :: f.parameters, IsUsable p.name :=
    List.forall_mem_cons.2 ⟨Or.inr rfl, h.parameters⟩
  exact .mk (enclosed_words fun p hmem => parameter_phrase (hp p hmem))
    (.block (stmts_phrase_words f.body h.body))

theorem eq_method (h : f.result = none) :
    f = ⟨none, f.name, withoutReceiver (⟨instanceName, none⟩ :: f.parameters), f.body⟩ := by
  obtain ⟨result, name, parameters, body⟩ := f
  obtain rfl : result = none := h
  rfl

theorem eq_function (h : f.result = none) : f = ⟨none, f.name, f.parameters, f.body⟩ := by
  rw [← h]

end Function

namespace ClassDecl

variable {c : ClassDecl}

theorem member_phrase (h : c.WellFormed Expr.IsSource) {m : Member} (hm : m ∈ c.members) :
    MemberPhrase m.words m := by
  unfold members at hm
  rw [List.mem_append, List.mem_append, List.mem_map, List.mem_map, List.mem_map] at hm
  obtain (⟨f, hf, rfl⟩ | ⟨f, hf, rfl⟩) | ⟨f, hf, rfl⟩ := hm
  · obtain ⟨hname, hw⟩ := h.initializer f (Option.mem_toList.1 hf)
    have hp := MemberPhrase.initializer hw.method_phrase
    rwa [← hname, ← Function.eq_method hw.result] at hp
  · obtain ⟨hname, hw⟩ := h.instanceMethods f hf
    have hp := MemberPhrase.instanceMethod hname hw.method_phrase
    rwa [← Function.eq_method hw.result] at hp
  · obtain ⟨hname, hw⟩ := h.classMethods f hf
    have hp := MemberPhrase.classMethod hname hw.method_phrase
    rwa [← Function.eq_method hw.result] at hp

theorem classOfMembers_members (c : ClassDecl) : classOfMembers c.name c.base c.members = c := by
  obtain ⟨name, base, classMethods, instanceMethods, initializer⟩ := c
  cases initializer <;> simp [classOfMembers, members, List.filterMap_map]

theorem base_phrase (h : ∀ b ∈ c.base, IsName b) :
    BasePhrase (c.base.toList.map ofName) c.base := by
  cases hb : c.base with
  | none => exact .none
  | some b => exact .some (h b hb)

theorem phrase_words (h : c.WellFormed Expr.IsSource) : ClassPhrase c.words c := by
  have hm := commented_words fun m hm => member_phrase h (m := m) hm
  have hc := ClassPhrase.mk h.name (base_phrase h.base) hm
  rw [classOfMembers_members] at hc
  simpa only [words, inBraces, List.append_assoc, List.cons_append] using hc

end ClassDecl

theorem IsName.not_mem {name : String} (h : IsName name) {c : Char} (hc : Reading.inWord c = false) :
    c ∉ name.toList :=
  Reading.not_mem_of_inWord (Reading.inWord_of_isWord h.1) hc

theorem splitOn_intercalate {names : List String} (hne : names ≠ [])
    (h : ∀ name ∈ names, IsName name) :
    (".".intercalate names).toList.splitOn '.' = names.map String.toList := by
  have hmem : ∀ cs ∈ names.map String.toList, '.' ∉ cs := by
    intro cs hcs
    obtain ⟨name, hname, rfl⟩ := List.mem_map.1 hcs
    exact (h name hname).not_mem rfl
  have hsep : ".".toList = ['.'] := rfl
  rw [String.toList_intercalate, hsep, List.splitOn_intercalate '.' hmem (by simpa using hne)]

theorem namesOfModule_intercalate {names : List String} (hne : names ≠ [])
    (h : ∀ name ∈ names, IsName name) : namesOfModule (".".intercalate names) = names := by
  rw [namesOfModule, splitOn_intercalate hne h, List.map_map]
  simp

theorem parts_phrase {names : List String} (h : ∀ name ∈ names, IsName name) : ∃ text,
    PartsPhrase (names.flatMap fun name => [sym .dot, ofName name]) text ∧
      ∀ first : String, first ++ text = ".".intercalate (first :: names) := by
  induction names with
  | nil => exact ⟨"", .nil, fun first => by simp⟩
  | cons name names ih =>
    obtain ⟨hn, hns⟩ := List.forall_mem_cons.1 h
    obtain ⟨text, hp, heq⟩ := ih hns
    refine ⟨"." ++ name ++ text, .cons hn hp, fun first => ?_⟩
    rw [String.intercalate_cons_cons, ← heq, String.append_assoc, String.append_assoc]

theorem import_phrase {module : String} (h : IsModuleName module) :
    DeclPhrase (Declaration.importDecl module).words (.declaration (.importDecl module)) := by
  obtain ⟨names, hne, hn, rfl⟩ := h
  obtain ⟨first, rest, rfl⟩ := List.exists_cons_of_ne_nil hne
  obtain ⟨hfirst, hrest⟩ := List.forall_mem_cons.1 hn
  obtain ⟨text, hp, heq⟩ := parts_phrase hrest
  have hd := DeclPhrase.importDecl hfirst hp
  rw [heq] at hd
  rw [Declaration.words, namesOfModule_intercalate hne hn, dottedWords, List.map_cons,
    intercalate_cons, List.flatMap_map]
  exact hd

mutual

theorem Declaration.phrase_words : (d : Declaration) → d.WellFormed Expr.IsSource →
    DeclPhrase d.words (.declaration d)
  | .function f, hd => by
    have h := DeclPhrase.function hd.1 hd.2.signature_phrase
    rwa [← Function.eq_function hd.2.result] at h
  | .namespaceDecl name declarations, hd =>
    .namespaceDecl hd.1 (declarations_phrase_words declarations hd.2)
  | .classDecl c, hd => .classDecl (ClassDecl.phrase_words hd)
  | .importDecl module, hd => import_phrase hd

theorem declarations_phrase_words : (ds : List Declaration) →
    declarationsWellFormed Expr.IsSource ds → DeclPhrase (declarationsWords ds) (.declarations ds)
  | [], _ => .nil
  | d :: rest, hd => .cons (Declaration.phrase_words d hd.1) (declarations_phrase_words rest hd.2)

end

end Declarations

/-- Parsing undoes printing: the text of a program of the source language is read as this
program, whatever its declarations, statements and expressions are. -/
theorem parse_print (p : Program) (h : p.IsSource) : parse p.print = .ok p :=
  parse_render (declarations_phrase_words p.declarations h)

def stepMethod : Function where
  result := none
  name := "step"
  parameters := [⟨"n", some .int⟩]
  body :=
    let count : Expr := .member (.identifier instanceName) "count"
    [.conditional (.mk (.binary .less count (.identifier "n"))
      [.expr (.assignMember (.identifier instanceName) "count" (.binary .add count (.integer 1)))]
      [.mk (.boolean true) [.ret (some (.float 0x3FC00000))] [] none] none)]

def counterProgram : Program :=
  ⟨[.importDecl "shapes.plane", .classDecl ⟨"Counter", none, [], [stepMethod],
    some ⟨none, initializerName, [], [.comment "empty"]⟩⟩]⟩

theorem stepMethod_wellFormed : stepMethod.WellFormed Expr.IsSource := by
  have hobject : (Expr.identifier instanceName).IsObject := ⟨_, rfl, by decide⟩
  have hcount : Expr.WellFormed (.member (.identifier instanceName) "count") :=
    ⟨hobject, by decide⟩
  have hn : Expr.WellFormed (.identifier "n") := (by decide : IsUsable "n")
  have hone : Expr.WellFormed (.integer 1) := ⟨by decide, by decide⟩
  have hhalf : Expr.WellFormed (.float 0x3FC00000) :=
    (by decide : (0x3FC00000 : UInt32).toNat ≤ Decimal.FloatFormat.single.infinityBits)
  refine ⟨rfl, by decide, ⟨⟨⟨hcount, hn⟩, by decide, trivial, trivial⟩, ?_, ?_, trivial⟩, trivial⟩
  · exact ⟨⟨⟨hobject, by decide, hcount, hone⟩, by decide, trivial, trivial⟩, trivial⟩
  · refine ⟨⟨⟨trivial, trivial⟩, ⟨?_, trivial⟩, rfl, rfl⟩, trivial⟩
    exact fun e he => Option.some.inj he ▸ ⟨hhalf, trivial⟩

theorem counterProgram_isSource : counterProgram.IsSource := by
  refine ⟨⟨["shapes", "plane"], by decide, by decide, rfl⟩,
    ⟨by decide, nofun, nofun, ?_, ?_⟩, trivial⟩
  · intro f hf
    obtain rfl := List.mem_singleton.1 hf
    exact ⟨by decide, stepMethod_wellFormed⟩
  · intro f hf
    obtain rfl := Option.some.inj hf
    have hempty : IsCommentText "empty" :=
      ⟨by decide, by simp⟩
    exact ⟨rfl, rfl, nofun, hempty, trivial⟩

theorem parse_print_counter :
    counterProgram.IsSource ∧ parse counterProgram.print = .ok counterProgram :=
  ⟨counterProgram_isSource, parse_print counterProgram counterProgram_isSource⟩

example : counterProgram.print = "import\nshapes\n.\nplane\n;\n" ++
    "class\nCounter\n(\n)\n\x7b\n" ++
    "instance\n.\ninit\n(\ninstance\n)\n\x7b\n|empty\n\x7d\n" ++
    "instance\n.\nstep\n(\ninstance\n,\nint\nn\n)\n\x7b\n" ++
    "if\n(\ninstance\n.\ncount\n<\nn\n)\n\x7b\n" ++
    "instance\n.\ncount\n=\ninstance\n.\ncount\n+\n1\n;\n\x7d\n" ++
    "else-if\n(\ntrue\n)\n\x7b\nreturn\n1.5f\n;\n\x7d\n\x7d\n\x7d" := by
  decide +kernel

end VnScript
