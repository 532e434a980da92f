import Mathlib.Data.List.DropRight
import VnScript.Proofs.Cpp.Placeholder
import VnScript.Proofs.Decimal.Exact
import VnScript.Proofs.Grammar.Lookahead
import VnScript.Tree.Equality

namespace VnScript

open Grammar Word

namespace Text

theorem mem_of_mem_trimBlanks {cs : List Char} {c : Char} (h : c ∈ trimBlanks cs) : c ∈ cs := by
  have hr := List.dropWhile_subset _ (List.mem_reverse.1 h)
  exact List.dropWhile_subset _ (List.mem_reverse.1 hr)

theorem dropWhile_trimBlanks (cs : List Char) :
    (trimBlanks cs).dropWhile isBlank = trimBlanks cs := by
  have hp : trimBlanks cs <+: cs.dropWhile isBlank := List.rdropWhile_prefix _ _
  cases ht : trimBlanks cs with
  | nil => rfl
  | cons c rest =>
    rw [ht] at hp
    obtain ⟨tail, htail⟩ := hp
    have hc : isBlank c = false := Reading.false_of_dropWhile_eq_cons htail.symm
    rw [List.dropWhile_cons_of_neg (by simp [hc])]

theorem trim_trim (s : String) : trim (trim s) = trim s := by
  have hr := List.rdropWhile_idempotent isBlank (s.toList.dropWhile isBlank)
  change (trimBlanks s.toList).rdropWhile isBlank = trimBlanks s.toList at hr
  unfold trim
  rw [String.toList_ofList]
  refine congrArg String.ofList ?_
  change ((trimBlanks s.toList).dropWhile isBlank).rdropWhile isBlank = _
  rw [dropWhile_trimBlanks, hr]

end Text

section Literals

theorem Text.readInt64?_nonneg {s : String} {n : Int64} (hs : IsWhole s.toList)
    (h : Text.readInt64? s = some n) : 0 ≤ n.toInt := by
  unfold Text.readInt64? at h
  rw [Text.signedValue?_of_isWhole hs] at h
  cases hv : Text.digitsValue? s.toList with
  | none =>
    rw [hv] at h
    cases h
  | some m =>
    rw [hv] at h
    change Text.int64? (m : Int) = some n at h
    unfold Text.int64? at h
    split at h
    · next hr =>
      obtain rfl := Option.some.inj h
      rw [Int64.toInt_ofInt_of_le hr.1 (lt_of_le_of_lt hr.2 (by decide))]
      omega
    · cases h

theorem nearest_le (f : Decimal.FloatFormat) (num den : Nat) :
    f.nearest num den ≤ f.infinityBits := by
  unfold Decimal.FloatFormat.nearest
  split
  · exact Nat.zero_le _
  · exact Nat.min_le_right _ _

theorem read?_le {f : Decimal.FloatFormat} {s : String} {bits : Nat} (h : f.read? s = some bits) :
    bits ≤ f.infinityBits := by
  obtain ⟨part, -, h⟩ := Option.bind_eq_some_iff.1 h
  split at h
  · cases h
  · obtain rfl := Option.some.inj h
    exact nearest_le f _ _

theorem literal_wellFormed {w : Word} {e : Expr} (hs : w.Spelled)
    (h : literal? w.kind w.lexeme = some e) : e.WellFormed := by
  obtain ⟨kind, lexeme⟩ := w
  obtain ⟨text, hs⟩ := hs
  cases kind with
  | integer =>
    obtain ⟨n, hn, rfl⟩ := Option.map_eq_some_iff.1 h
    exact ⟨Text.readInt64?_nonneg hs.integer_digits hn, n.toInt_lt⟩
  | float =>
    obtain ⟨bits, hb, rfl⟩ := Option.map_eq_some_iff.1 h
    exact (Nat.mod_le _ _).trans (read?_le hb)
  | double =>
    obtain ⟨bits, hb, rfl⟩ := Option.map_eq_some_iff.1 h
    exact (Nat.mod_le _ _).trans (read?_le hb)
  | char =>
    obtain ⟨c, hc, rfl⟩ := Option.map_eq_some_iff.1 h
    have hq := hs.char_body
    unfold literalChar? at hc
    split at hc
    · next d hd =>
      obtain rfl := Option.some.inj hc
      change '\x27' ∉ lexeme.toList at hq
      rw [hd, List.mem_singleton] at hq
      exact fun hcq => hq hcq.symm
    · cases hc
  | string =>
    obtain rfl := Option.some.inj h
    exact hs.string_body
  | _ => cases h

end Literals

section Trees

variable {ws : List Word}

def ExprNode.WellFormed : ExprNode → Prop
  | .items es => exprsWellFormed es
  | .arguments es => exprsWellFormed es
  | .suffix name e => IsUsable name → e.WellFormed
  | .primary e => e.WellFormed
  | .binary _ e => e.WellFormed
  | .expression e => e.WellFormed

theorem compound_wellFormed {op : Option Operator} {target value : Expr}
    (ht : target.WellFormed) (hv : value.WellFormed) : (compound op target value).WellFormed := by
  cases op with
  | none => exact hv
  | some op => exact ⟨ht, hv⟩

theorem ExprPhrase.wellFormed {node : ExprNode} (h : ExprPhrase ws node) : node.WellFormed := by
  induction h with
  | lastItem h ih => exact ⟨ih, trivial⟩
  | item h rest ih ih' => exact ⟨ih, ih'⟩
  | noArguments => trivial
  | arguments h ih => exact ih
  | alone => exact id
  | freeCall h ih => exact fun hn => ⟨hn, ih⟩
  | member hm => exact fun hn => ⟨⟨_, rfl, hn⟩, hm⟩
  | memberCall hm h ih => exact fun hn => ⟨⟨Or.inl hn, hm⟩, ih⟩
  | spaceMember hm => exact fun hn => ⟨hn, hm⟩
  | spaceCall hm h ih => exact fun hn => ⟨⟨hn, hm⟩, ih⟩
  | literal hs hl => exact literal_wellFormed hs hl
  | true => trivial
  | false => trivial
  | named hn h ih => exact ih hn
  | create ht h ih => exact ⟨nofun, ht, ih⟩
  | createIn hs ht h ih => exact ⟨fun name hname => Option.some.inj hname ▸ hs, ht, ih⟩
  | classCall hm h ih => exact ⟨⟨Or.inr rfl, hm⟩, ih⟩
  | operand h ih => exact ih
  | tighter h ih => exact ih
  | operation h hw ho h' ih ih' => exact ⟨ih, ih'⟩
  | value h ih => exact ih
  | assign h hw ho h' ih ih' => exact ⟨ih, compound_wellFormed ih ih'⟩
  | assignMember h hw ho h' ih ih' => exact ⟨ih.1, ih.2, compound_wellFormed ih ih'⟩

theorem ValuePhrase.wellFormed {value : Option Expr} (h : ValuePhrase ws value) :
    ∀ e ∈ value, e.WellFormed := by
  cases h with
  | none => nofun
  | some h => exact fun e he => Option.some.inj he ▸ h.wellFormed

theorem isName_of_identifier {name : String} (hn : IsUsable name)
    (hk : (ofName name).kind = .identifier) : IsName name := by
  obtain hn | rfl := hn
  · exact hn
  · cases hk

theorem initial_wellFormed {w : Word} {e : Expr} (hw : w.kind = .identifier)
    (h : e.Phrase (w :: ws)) (ha : e.IsAssignment) : (Stmt.expr e).IsInitial := by
  have hwf : e.WellFormed := h.wellFormed
  obtain ⟨name, _, _, value, hwords, -, ho⟩ := h.initial ha
  obtain ⟨rfl, -⟩ := List.cons.inj hwords
  obtain rfl | ⟨m, rfl⟩ := ho
  · exact isName_of_identifier hwf.1 hw
  · obtain ⟨⟨name', hname, hn⟩, -⟩ := hwf
    obtain rfl := Expr.identifier.inj hname
    exact isName_of_identifier hn hw

def StmtNode.WellFormed : StmtNode → Prop
  | .statement s => s.WellFormed Expr.WellFormed
  | .statements ss => blockWellFormed Expr.WellFormed ss
  | .block ss => blockWellFormed Expr.WellFormed ss
  | .clause e b => e.WellFormed ∧ blockWellFormed Expr.WellFormed b
  | .further cs orElse =>
    clausesWellFormed Expr.WellFormed cs ∧ orElseWellFormed Expr.WellFormed orElse
  | .initial s => s.IsInitial ∧ s.WellFormed Expr.WellFormed
  | .cases cs => casesWellFormed Expr.WellFormed cs

theorem comment_wellFormed {w : Word} (hs : w.Spelled) (hk : w.kind = .comment) :
    IsCommentText (Text.trim w.lexeme) := by
  obtain ⟨kind, lexeme⟩ := w
  obtain rfl : kind = .comment := hk
  obtain ⟨text, hs⟩ := hs
  refine ⟨Text.trim_trim lexeme, fun c hc => hs.comment_body c ?_⟩
  rw [Text.trim, String.toList_ofList] at hc
  exact Text.mem_of_mem_trimBlanks hc

theorem StmtPhrase.wellFormed {node : StmtNode} (h : StmtPhrase ws node) : node.WellFormed := by
  induction h with
  | nil => trivial
  | cons h rest ih ih' => exact ⟨ih, ih'⟩
  | block h ih => exact ih
  | clause he hb ih => exact ⟨he.wellFormed, ih⟩
  | noFurther => exact ⟨trivial, trivial⟩
  | elseIf h rest ih ih' => exact ⟨⟨⟨ih.1, ih.2, rfl, rfl⟩, ih'.1⟩, ih'.2⟩
  | elseThenIf h rest ih ih' => exact ⟨⟨⟨ih.1, ih.2, rfl, rfl⟩, ih'.1⟩, ih'.2⟩
  | orElse h ih => exact ⟨trivial, ih⟩
  | declareInitial ht hn hv => exact ⟨trivial, hn, hv.wellFormed⟩
  | assignInitial hw he ha => exact ⟨initial_wellFormed hw he ha, he.wellFormed⟩
  | noCases => trivial
  | caseComment hs hw rest ih => exact ih
  | case he hb rest ih ih' => exact ⟨⟨he.wellFormed, ih⟩, ih'⟩
  | comment hs hw => exact comment_wellFormed hs hw
  | declare ht hn hv => exact ⟨hn, hv.wellFormed⟩
  | expr he => exact he.wellFormed
  | ret => nofun
  | retValue he => exact fun e hm => Option.some.inj hm ▸ he.wellFormed
  | conditional h rest ih ih' => exact ⟨ih.1, ih.2, ih'.1, ih'.2⟩
  | forLoop hi he hs hb ih ih' => exact ⟨ih.1, ih.2, he.wellFormed, hs.wellFormed, ih'⟩
  | forIn hn he hb ih => exact ⟨hn, he.wellFormed, ih⟩
  | typedForIn ht hn he hb ih => exact ⟨hn, he.wellFormed, ih⟩
  | whileLoop h ih => exact ih
  | doWhile hb he ht ih => exact ⟨ih, he.wellFormed⟩
  | switch he hc ih => exact ⟨he.wellFormed, ih⟩
  | attempt hb ht hn hh ih ih' => exact ⟨ih, ht, hn, ih'⟩

theorem ParameterPhrase.usable {p : Parameter} (h : ParameterPhrase ws p) : IsUsable p.name := by
  cases h <;> assumption

theorem Separated.forall {α : Type} {P : List Word → α → Prop} {Q : α → Prop} {as : List α}
    (hP : ∀ ws a, P ws a → Q a) (h : Separated P ws as) : ∀ a ∈ as, Q a := by
  induction h with
  | last h => exact List.forall_mem_singleton.2 (hP _ _ h)
  | cons h rest ih => exact List.forall_mem_cons.2 ⟨hP _ _ h, ih⟩

theorem mem_of_mem_withoutReceiver {ps : List Parameter} {p : Parameter}
    (h : p ∈ withoutReceiver ps) : p ∈ ps := by
  unfold withoutReceiver at h
  split at h
  · exact h
  · split at h
    · exact List.mem_cons_of_mem _ h
    · exact h

theorem SignaturePhrase.wellFormed {ps : List Parameter} {b : List Stmt} (name : String)
    (h : SignaturePhrase ws ps b) :
    Function.WellFormed Expr.WellFormed ⟨none, name, ps, b⟩ := by
  cases h with
  | mk hp hb =>
    refine ⟨rfl, ?_, hb.wellFormed⟩
    cases hp with
    | empty => nofun
    | items h => exact h.forall fun ws p => ParameterPhrase.usable

theorem SignaturePhrase.method_wellFormed {ps : List Parameter} {b : List Stmt} (name : String)
    (h : SignaturePhrase ws ps b) :
    Function.WellFormed Expr.WellFormed ⟨none, name, withoutReceiver ps, b⟩ where
  result := rfl
  parameters p hp := (h.wellFormed name).parameters p (mem_of_mem_withoutReceiver hp)
  body := (h.wellFormed name).body

def Grammar.Member.WellFormed : Member → Prop
  | .initializer f => f.name = initializerName ∧ f.WellFormed Expr.WellFormed
  | .instanceMethod f => IsName f.name ∧ f.WellFormed Expr.WellFormed
  | .classMethod f => IsName f.name ∧ f.WellFormed Expr.WellFormed

theorem MemberPhrase.wellFormed {m : Member} (h : MemberPhrase ws m) : m.WellFormed := by
  cases h with
  | initializer h => exact ⟨rfl, h.method_wellFormed _⟩
  | instanceMethod hn h => exact ⟨hn, h.method_wellFormed _⟩
  | classMethod hn h => exact ⟨hn, h.method_wellFormed _⟩

theorem members_wellFormed {ms : List Member} (h : Commented MemberPhrase ws ms) :
    ∀ m ∈ ms, m.WellFormed := by
  induction h with
  | nil => nofun
  | comment hs hw rest ih => exact ih
  | cons h rest ih => exact List.forall_mem_cons.2 ⟨h.wellFormed, ih⟩

theorem classOfMembers_wellFormed {name : String} {base : Option String} {ms : List Member}
    (hn : IsName name) (hb : ∀ b ∈ base, IsName b) (hm : ∀ m ∈ ms, m.WellFormed) :
    (classOfMembers name base ms).WellFormed Expr.WellFormed where
  name := hn
  base := hb
  classMethods f hf := by
    obtain ⟨m, hmem, hfm⟩ := List.mem_filterMap.1 hf
    cases m <;> cases hfm
    exact hm _ hmem
  instanceMethods f hf := by
    obtain ⟨m, hmem, hfm⟩ := List.mem_filterMap.1 hf
    cases m <;> cases hfm
    exact hm _ hmem
  initializer f hf := by
    obtain ⟨m, hmem, hfm⟩ := List.mem_filterMap.1 (List.mem_of_getLast? hf)
    cases m <;> cases hfm
    exact hm _ hmem

theorem ClassPhrase.wellFormed {c : ClassDecl} (h : ClassPhrase ws c) :
    c.WellFormed Expr.WellFormed := by
  cases h with
  | mk hn hb hm =>
    refine classOfMembers_wellFormed hn ?_ (members_wellFormed hm)
    cases hb with
    | none => nofun
    | some hb => exact fun b hmem => Option.some.inj hmem ▸ hb

theorem PartsPhrase.parts {rest : String} (h : PartsPhrase ws rest) :
    ∃ parts : List String, (∀ part ∈ parts, IsName part) ∧
      ∀ first : String, first ++ rest = ".".intercalate (first :: parts) := by
  induction h with
  | nil => exact ⟨[], nofun, fun first => by simp⟩
  | @cons part rest ws hn h ih =>
    obtain ⟨parts, hparts, heq⟩ := ih
    refine ⟨part :: parts, List.forall_mem_cons.2 ⟨hn, hparts⟩, fun first => ?_⟩
    rw [String.intercalate_cons_cons, ← heq, String.append_assoc, String.append_assoc]

def DeclNode.WellFormed : DeclNode → Prop
  | .declaration d => d.WellFormed Expr.WellFormed
  | .declarations ds => declarationsWellFormed Expr.WellFormed ds

theorem DeclPhrase.wellFormed {node : DeclNode} (h : DeclPhrase ws node) : node.WellFormed := by
  induction h with
  | nil => trivial
  | comment hs hw rest ih => exact ih
  | cons h rest ih ih' => exact ⟨ih, ih'⟩
  | function hn h => exact ⟨hn, h.wellFormed _⟩
  | namespaceDecl hn h ih => exact ⟨hn, ih⟩
  | classDecl h => exact h.wellFormed
  | importDecl hn h =>
    obtain ⟨parts, hparts, heq⟩ := h.parts
    exact ⟨_ :: parts, List.cons_ne_nil _ _, List.forall_mem_cons.2 ⟨hn, hparts⟩, heq _⟩

end Trees

theorem wellFormed_of_parse {source : String} {p : Program} (h : parse source = .ok p) :
    p.WellFormed Expr.WellFormed := by
  rw [parse_eq] at h
  exact (Scan.phrase_of_parse (Scan.lexed_ofString source) h).2.wellFormed

/-- What is read from a text is a program that the source can write, down to every name and
literal in it. So the generator finds no statement without a C++ form in it: what is generated
is the same whatever would stand for such a statement. -/
theorem parse_wellFormed (source : String) (p : Program) (h : parse source = .ok p) :
    p.WellFormed Expr.WellFormed ∧
      ∀ placeholder, p.cppBodyWith placeholder = p.cppBody := by
  rw [parse_eq] at h
  have hp := (Scan.phrase_of_parse (Scan.lexed_ofString source) h).2.wellFormed
  exact ⟨hp, Program.cppBodyWith_eq hp⟩

def loopSource : String := "func f(n) \x7b for (n = m; n < m; n = f(n)) \x7b | ok \x7d \x7d"

def loopProgram : Program :=
  ⟨[.function ⟨none, "f", [⟨"n", none⟩], [.forLoop (.expr (.assign "n" (.identifier "m")))
    (.binary .less (.identifier "n") (.identifier "m"))
    (.assign "n" (.call .free "f" [.identifier "n"])) [.comment "ok"]]⟩]⟩

theorem loopProgram_wellFormed : parse loopSource = .ok loopProgram ∧
    loopProgram.WellFormed Expr.WellFormed ∧
      ∀ placeholder, loopProgram.cppBodyWith placeholder = loopProgram.cppBody :=
  have h : parse loopSource = .ok loopProgram := by decide +kernel
  ⟨h, parse_wellFormed loopSource loopProgram h⟩

end VnScript
