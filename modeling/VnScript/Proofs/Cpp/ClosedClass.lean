import VnScript.Proofs.Cpp.ClosedStatement

namespace VnScript

open Cpp

section Members

def MembersNamed (assignments : List (String × Expr)) : Prop :=
  ∀ a ∈ assignments, IsMemberName a.1

theorem MembersNamed.append {first rest : List (String × Expr)} (h : MembersNamed first)
    (hr : MembersNamed rest) : MembersNamed (first ++ rest) := List.forall_mem_append.2 ⟨h, hr⟩

mutual

theorem Stmt.selfAssignments_named :
    (s : Stmt) → s.WellFormed (Expr.Everywhere Expr.Named) → MembersNamed s.selfAssignments
  | .expr e, h => by
    cases e with
    | assignMember object member value =>
      cases object with
      | self => exact List.forall_mem_singleton.2 (h.1 member List.mem_cons_self)
      | _ => exact nofun
    | _ => exact nofun
  | .conditional clause, h => clause.selfAssignments_named h
  | .forLoop _ _ _ body, h => blockSelfAssignments_named body h.2.2.2.2
  | .forIn _ _ _ body, h => blockSelfAssignments_named body h.2.2
  | .whileLoop _ body, h => blockSelfAssignments_named body h.2
  | .doWhile body _, h => blockSelfAssignments_named body h.1
  | .switch _ cases, h => casesSelfAssignments_named cases h.2
  | .attempt body _ _ handler, h =>
    (blockSelfAssignments_named body h.1).append (blockSelfAssignments_named handler h.2.2.2)
  | .comment _, _ | .declare _ _ _, _ | .ret _, _ => nofun

theorem blockSelfAssignments_named : (ss : List Stmt) →
    blockWellFormed (Expr.Everywhere Expr.Named) ss → MembersNamed (blockSelfAssignments ss)
  | [], _ => nofun
  | s :: rest, h => (s.selfAssignments_named h.1).append (blockSelfAssignments_named rest h.2)

theorem Conditional.selfAssignments_named :
    (c : Conditional) → c.WellFormed (Expr.Everywhere Expr.Named) → MembersNamed c.selfAssignments
  | .mk _ body elseIfs none, h =>
    ((blockSelfAssignments_named body h.2.1).append
      (clausesSelfAssignments_named elseIfs h.2.2.1)).append nofun
  | .mk _ body elseIfs (some b), h =>
    ((blockSelfAssignments_named body h.2.1).append
      (clausesSelfAssignments_named elseIfs h.2.2.1)).append
        (blockSelfAssignments_named b h.2.2.2)

theorem clausesSelfAssignments_named : (cs : List Conditional) →
    clausesWellFormed (Expr.Everywhere Expr.Named) cs → MembersNamed (clausesSelfAssignments cs)
  | [], _ => nofun
  | .mk _ body _ _ :: rest, h =>
    (blockSelfAssignments_named body h.1.2.1).append (clausesSelfAssignments_named rest h.2)

theorem casesSelfAssignments_named : (cs : List Case) →
    casesWellFormed (Expr.Everywhere Expr.Named) cs → MembersNamed (casesSelfAssignments cs)
  | [], _ => nofun
  | .mk _ body :: rest, h =>
    (blockSelfAssignments_named body h.1.2).append (casesSelfAssignments_named rest h.2)

end

theorem ClassDecl.WellFormed.bind_named {c : ClassDecl} (h : c.WellFormed Expr.WellFormed) :
    c.bind.WellFormed (Expr.Everywhere Expr.Named) :=
  h.bind fun e he => e.bind_named (member_of_name h.name) (he.named e)

end Members

namespace Cpp

section Types

theorem takes_conventional {default : String} (h : Takes [] [] default) (name : String) :
    Takes [] [] ((conventionalType? name).getD default) := by
  have hstring : Takes [] [] "std::string" := takes_of fun _ => ⟨_, rfl⟩
  have hint : Takes [] [] "int" := takes_of fun _ => ⟨_, rfl⟩
  unfold conventionalType?
  split
  · exact hstring
  split
  · exact hint
  · exact h

theorem takes_typeFor (name : String) (declared : Option TypeName) :
    Takes [] [] (typeFor name declared) := by
  cases declared with
  | some t => exact takes_typeText t
  | none => exact takes_conventional takes_dynamicType name

theorem takes_methodResult (f : Function) : Takes [] [] (methodResult f) := by
  have hvoid : Takes [] [] "void" := takes_of fun _ => ⟨_, rfl⟩
  unfold methodResult
  split
  · exact takes_typeText _
  split
  · exact hvoid
  · exact takes_conventional takes_auto _
  · exact takes_auto

theorem takes_fieldType (parameters : List Parameter) (member : String) (value : Expr) :
    Takes [] [] (fieldType parameters member value) := by
  cases value with
  | integer _ => exact takes_typeText .int
  | boolean _ => exact takes_typeText .bool
  | char _ => exact takes_typeText .char
  | string _ => exact takes_typeText .string
  | double _ => exact takes_typeText .double
  | float _ => exact takes_typeText .float
  | _ => exact takes_typeFor member _

theorem takesApart_parameters {ps : List Parameter} (h : ∀ p ∈ ps, IsUsable p.name) :
    TakesApart [] [] (parameterList ps) := by
  refine takesApart_arguments fun text ht => ?_
  obtain ⟨p, hp, rfl⟩ := List.mem_map.1 ht
  have htype := (takes_typeFor p.name p.type).append takes_blank
  exact (htype.append (takes_mangle (member_of_usable (h p hp)))).apart

end Types

section Fields

structure Field.WellFormed (f : Field) : Prop where
  name : IsMemberName f.name
  type : Takes [] [] f.type

def ClassInfo.WellFormed (info : ClassInfo) : Prop := ∀ f ∈ info.fields, f.WellFormed

theorem methodFields_wellFormed {f : Function} (h : f.WellFormed (Expr.Everywhere Expr.Named)) :
    ∀ field ∈ methodFields f, field.WellFormed := by
  intro field hf
  obtain ⟨⟨member, value⟩, ha, rfl⟩ := List.mem_map.1 hf
  exact ⟨blockSelfAssignments_named f.body h.body _ ha, takes_fieldType f.parameters member value⟩

theorem firstByName_subset (known : List String) (fields : List Field) :
    firstByName known fields ⊆ fields := by
  induction fields generalizing known with
  | nil => exact List.Subset.refl _
  | cons f rest ih =>
    unfold firstByName
    split
    · exact List.Subset.trans (ih known) (List.subset_cons_self _ _)
    · exact List.cons_subset_cons f (ih _)

theorem classFields_wellFormed {c : ClassDecl} (h : c.WellFormed (Expr.Everywhere Expr.Named)) :
    ∀ f ∈ classFields c, f.WellFormed := by
  intro f hf
  obtain ⟨g, hg, hf⟩ := List.mem_flatMap.1 (firstByName_subset _ _ hf)
  refine methodFields_wellFormed ?_ f hf
  obtain hg | hg := List.mem_append.1 hg
  · exact (h.initializer g (Option.mem_toList.1 hg)).2
  · exact (h.instanceMethods g hg).2

mutual

theorem classInfos_wellFormed : (d : Declaration) → d.WellFormed Expr.WellFormed →
    ∀ info ∈ classInfos d.bind, info.WellFormed
  | .classDecl _, h => List.forall_mem_singleton.2 (classFields_wellFormed h.bind_named)
  | .namespaceDecl _ ds, h => allClassInfos_wellFormed ds h.2
  | .function _, _ | .importDecl _, _ => nofun

theorem allClassInfos_wellFormed : (ds : List Declaration) →
    declarationsWellFormed Expr.WellFormed ds →
      ∀ info ∈ allClassInfos (bindDeclarations ds), info.WellFormed
  | [], _ => nofun
  | d :: rest, h => List.forall_mem_append.2
    ⟨classInfos_wellFormed d h.1, allClassInfos_wellFormed rest h.2⟩

end

def ClassTable.WellFormed (table : ClassTable) : Prop := ∀ info ∈ table.infos, info.WellFormed

end Fields

section Functions

variable {E : Expr → Prop} {classes : List String} {text base : String}

theorem takes_signature {ps : List Parameter} (ht : Takes [] [] text)
    (h : ∀ p ∈ ps, IsUsable p.name) :
    Takes [] [.curly] (text ++ "(" ++ parameterList ps ++ ") \x7b") := by
  have hopen : Separates [] [.round] "(" := separates_of fun _ => rfl
  have hhead := ht.append (takes_head hopen (takesApart_parameters h))
  rwa [← String.append_assoc, ← String.append_assoc] at hhead

theorem makes_functionLines (hE : ∀ e, E e → e.Everywhere Expr.Named) {f : Function}
    (hn : IsName f.name) (h : f.WellFormed E) :
    Makes (LinesTake [] []) (functionLines classes f) := by
  have hmain : Takes [] [.curly] "int main() \x7b" := takes_of fun _ => ⟨_, rfl⟩
  have hflags : Takes [] [] "std::cout << std::boolalpha;" := takes_of fun _ => ⟨_, rfl⟩
  refine (Makes.inBlock _ (blockLines_closed hE 1 f.body h.body)).bind fun body hbody => .pure ?_
  have hname := ((takes_elementType f.result).append takes_blank).append
    (takes_mangle (member_of_name hn))
  have hhead : LinesTake [] [.curly] (if f.name == "main" then
      [⟨0, "int main() \x7b"⟩, ⟨1, "std::cout << std::boolalpha;"⟩]
    else [⟨0, elementType f.result ++ " " ++ mangle f.name ++ "(" ++
      parameterList f.parameters ++ ") \x7b"⟩]) := by
    split
    · exact (hmain.line 0).cons ((hflags.line 1).around [.curly])
    · exact (takes_signature hname h.parameters).line 0
  exact (hhead.append (hbody.around [.curly])).append (takes_curly.line 0)

theorem makes_methodLines (hE : ∀ e, E e → e.Everywhere Expr.Named) {f : Function}
    (hq : Takes [] [] text) (hn : IsName f.name) (h : f.WellFormed E) :
    Makes (LinesTake [] []) (methodLines classes text f) := by
  refine (Makes.inBlock _ (blockLines_closed hE 2 f.body h.body)).bind fun body hbody => .pure ?_
  have hname := ((hq.append (takes_methodResult f)).append takes_blank).append
    (takes_mangle (member_of_name hn))
  have hhead := ((takes_signature hname h.parameters).line 1).cons (hbody.around [.curly])
  exact ((takes_empty.line 0).cons hhead).append (takes_curly.line 1)

theorem makes_methodsLines (hE : ∀ e, E e → e.Everywhere Expr.Named) (hq : Takes [] [] text)
    {fs : List Function} (h : ∀ f ∈ fs, IsName f.name ∧ f.WellFormed E) :
    Makes (LinesTake [] []) (methodsLines classes text fs) := by
  induction fs with
  | nil => exact .pure linesTake_nil
  | cons f rest ih =>
    obtain ⟨⟨hn, hf⟩, hrest⟩ := List.forall_mem_cons.1 h
    exact (makes_methodLines hE hq hn hf).bind fun _ hfirst =>
      (ih hrest).bind fun _ hr => .pure (hfirst.append hr)

theorem baseCall_of_some {s : Stmt} {arguments : List Expr}
    (h : baseCall? base s = some arguments) :
    ∃ receiver name, s = .expr (.call receiver name arguments) := by
  unfold baseCall? at h
  split at h
  · next n name arguments' =>
    obtain ⟨-, hs⟩ := Option.ite_none_right_eq_some.1 h
    cases hs
    exact ⟨.named n, name, rfl⟩
  · cases h

theorem takeBaseCall_named {ss : List Stmt} (h : blockWellFormed (Expr.Everywhere Expr.Named) ss)
    {arguments : List Expr} (ha : (takeBaseCall base ss).1 = some arguments) :
    EverywhereAll Expr.Named arguments := by
  induction ss with
  | nil => cases ha
  | cons s rest ih =>
    unfold takeBaseCall at ha
    split at ha
    · next arguments' hs =>
      cases ha
      obtain ⟨receiver, name, rfl⟩ := baseCall_of_some hs
      exact h.1.2
    · exact ih h.2 ha

theorem takes_baseInitializer {arguments : List Expr} (hb : IsName base)
    (h : EverywhereAll Expr.Named arguments) :
    Takes [] [] (baseInitializer classes base arguments) := by
  have hcolon : Takes [] [] " : " := takes_of fun _ => ⟨_, rfl⟩
  have hpassed : TakesApart [] []
      (argumentList ((arguments.filter fun e => !isReceiver e).map (Expr.cpp classes))) := by
    refine takesApart_arguments fun text ht => ?_
    obtain ⟨e, he, rfl⟩ := List.mem_map.1 ht
    exact e.cpp_closed classes (everywhere_of_mem h e (List.mem_of_mem_filter he))
  have hname := hcolon.append (takes_mangle (member_of_name hb))
  exact takes_call hname hpassed

theorem makes_constructorLines {c : ClassDecl} (hc : IsName c.name) (hb : ∀ b ∈ c.base, IsName b)
    {f : Function} (h : f.WellFormed (Expr.Everywhere Expr.Named)) :
    Makes (LinesTake [] []) (constructorLines classes c f) := by
  have hopen : Takes [] [.curly] " \x7b" := takes_of fun _ => ⟨_, rfl⟩
  have hname := takes_call (takes_mangle (member_of_name hc)) (takesApart_parameters h.parameters)
  have hlines {start : String} (hs : Takes [] [] start) {body : List Stmt}
      (hbody : blockWellFormed (Expr.Everywhere Expr.Named) body) :
      Makes (LinesTake [] []) (do
        let inner ← bodyLines classes false 2 f.parameters body
        return Line.blank ::
          ⟨1, mangle c.name ++ "(" ++ parameterList f.parameters ++ ")" ++ start ++ " \x7b"⟩ ::
          inner ++ [⟨1, "\x7d"⟩]) := by
    refine (Makes.inBlock _ (blockLines_closed (fun _ he => he) 2 body hbody)).bind
      fun inner hinner => .pure ?_
    have hhead := (((hname.append hs).append hopen).line 1).cons (hinner.around [.curly])
    exact ((takes_empty.line 0).cons hhead).append (takes_curly.line 1)
  unfold constructorLines
  -- A call of the initializer of the base stands in the head and no longer in the body.
  cases hbase : c.base with
  | none => exact hlines takes_empty h.body
  | some base =>
    refine hlines ?_ (blockWellFormed_takeBaseCall base h.body)
    cases ha : (takeBaseCall base f.body).1 with
    | none => exact takes_empty
    | some arguments => exact takes_baseInitializer (hb base hbase) (takeBaseCall_named h.body ha)

theorem takes_classHead {c : ClassDecl} (hc : IsName c.name) (hb : ∀ b ∈ c.base, IsName b) :
    Takes [] [.curly] (classHead c) := by
  have hclass : Takes [] [] "class " := takes_of fun _ => ⟨_, rfl⟩
  have hpublic : Takes [] [] " : public " := takes_of fun _ => ⟨_, rfl⟩
  have hopen : Takes [] [.curly] " \x7b" := takes_of fun _ => ⟨_, rfl⟩
  have hname := hclass.append (takes_mangle (member_of_name hc))
  unfold classHead
  split
  · next base hbase =>
    have hbase := takes_mangle (member_of_name (hb base hbase))
    exact ((hname.append hpublic).append hbase).append hopen
  · exact hname.append hopen

theorem linesTake_fields {fields : List Field} (h : ∀ f ∈ fields, f.WellFormed) :
    LinesTake [] [] (fields.map fieldLine) := by
  induction fields with
  | nil => exact linesTake_nil
  | cons f rest ih =>
    obtain ⟨hf, hrest⟩ := List.forall_mem_cons.1 h
    have hname := (hf.type.append takes_blank).append (takes_mangle hf.name)
    have hline := hname.append takes_semicolon
    exact (hline.line 1).cons (ih hrest)

theorem ClassTable.WellFormed.declared {table : ClassTable} (h : table.WellFormed) (c : ClassDecl) :
    ∀ f ∈ table.declared c, f.WellFormed := by
  intro f hf
  have hf := List.mem_of_mem_filter hf
  cases hi : table.find? c.name with
  | none =>
    rw [hi] at hf
    cases hf
  | some info =>
    rw [hi] at hf
    exact h info (List.mem_of_find?_eq_some hi) f hf

theorem makes_classLines {table : ClassTable} (ht : table.WellFormed) {c : ClassDecl}
    (h : c.WellFormed (Expr.Everywhere Expr.Named)) :
    Makes (LinesTake [] []) (classLines table c) := by
  have hpublic : Takes [] [] "public:" := takes_of fun _ => ⟨_, rfl⟩
  have hstatic : Takes [] [] "static " := takes_of fun _ => ⟨_, rfl⟩
  have hend : Takes [.curly] [] "\x7d;" := takes_of fun _ => ⟨_, rfl⟩
  have hhead : LinesTake [] [.curly] [⟨0, classHead c⟩, ⟨0, "public:"⟩] :=
    ((takes_classHead h.name h.base).line 0).cons ((hpublic.line 0).around [.curly])
  have hfields := hhead.append ((linesTake_fields (ht.declared c)).around [.curly])
  -- A class may be without a constructor.
  have hrest (constructor : List Line) (hc : LinesTake [] [] constructor) :
      Makes (LinesTake [] []) (do
        let classMethods ← methodsLines table.names "static " c.classMethods
        let instanceMethods ← methodsLines table.names "" c.instanceMethods
        return [⟨0, classHead c⟩, ⟨0, "public:"⟩] ++ (table.declared c).map fieldLine ++
          constructor ++ classMethods ++ instanceMethods ++ [⟨0, "\x7d;"⟩]) := by
    refine (makes_methodsLines (fun _ he => he) hstatic h.classMethods).bind fun cs hcs => ?_
    refine (makes_methodsLines (fun _ he => he) takes_empty h.instanceMethods).bind
      fun is his => .pure ?_
    have hbegin := (hfields.append (hc.around [.curly])).append (hcs.around [.curly])
    exact (hbegin.append (his.around [.curly])).append (hend.line 0)
  unfold classLines
  split
  · next f hf =>
    exact (makes_constructorLines h.name h.base (h.initializer f hf).2).bind hrest
  · exact hrest [] linesTake_nil

end Functions

end Cpp

theorem Program.WellFormed.table {p : Program} (h : p.WellFormed Expr.WellFormed) :
    (ClassTable.ofProgram p.bind).WellFormed := fun info hi =>
  allClassInfos_wellFormed p.declarations h info (List.mem_reverse.1 hi)

end VnScript
