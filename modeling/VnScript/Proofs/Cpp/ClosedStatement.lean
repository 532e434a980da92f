import VnScript.Proofs.Cpp.ClosedText

namespace VnScript

open Cpp

namespace Cpp

section Lines

variable {k k' k'' : List Bracket} {a b : String} {indent : Nat} {l : Line}
  {lines lines' : List Line}

/-- A line takes the brackets `k`, where they are open, to `k'`, and leaves a comment that it
begins. -/
structure LineTakes (k k' : List Bracket) (l : Line) : Prop where
  oneLine : '\n' ∉ l.text.toList
  scan : (Scanner.code false k).scan l.render = some (.code false k')

/-- Lines that one after another take the brackets `k` to `k'`. -/
inductive LinesTake : List Bracket → List Bracket → List Line → Prop
  | none {k : List Bracket} : LinesTake k k []
  | line {k k' k'' : List Bracket} {l : Line} {lines : List Line} (first : LineTakes k k' l)
    (rest : LinesTake k' k'' lines) : LinesTake k k'' (l :: lines)

theorem renderLines_cons (l : Line) (lines : List Line) :
    renderLines (l :: lines) = l.render ++ renderLines lines := by
  simp [renderLines]

theorem renderLines_append (lines lines' : List Line) :
    renderLines (lines ++ lines') = renderLines lines ++ renderLines lines' := by
  simp [renderLines]

theorem linesTake_nil : LinesTake k k [] := .none

theorem LineTakes.single (h : LineTakes k k' l) : LinesTake k k' [l] := .line h .none

theorem LinesTake.scan (h : LinesTake k k' lines) :
    (Scanner.code false k).scan (renderLines lines) = some (.code false k') := by
  induction h with
  | none => rfl
  | line first rest ih => rw [renderLines_cons, scan_append, first.scan, Option.bind_some, ih]

theorem LinesTake.append (h : LinesTake k k' lines) (h' : LinesTake k' k'' lines') :
    LinesTake k k'' (lines ++ lines') := by
  induction h with
  | none => exact h'
  | line first rest ih => exact .line first (ih h')

theorem LinesTake.cons (h : LinesTake k k' [l]) (h' : LinesTake k' k'' lines) :
    LinesTake k k'' (l :: lines) := h.append h'

theorem LineTakes.around (h : LineTakes k k' l) (outer : List Bracket) :
    LineTakes (k ++ outer) (k' ++ outer) l := ⟨h.oneLine, scan_around h.scan outer⟩

theorem LinesTake.around (h : LinesTake k k' lines) (outer : List Bracket) :
    LinesTake (k ++ outer) (k' ++ outer) lines := by
  induction h with
  | none => exact .none
  | line first rest ih => exact .line (first.around outer) ih

theorem scan_indent (indent : Nat) (opened : List Bracket) :
    (Scanner.code false opened).scan (String.join (List.replicate indent "    ")) =
      some (.code false opened) := by
  have hblanks : (Scanner.code false opened).scan "    " = some (.code false opened) := rfl
  induction indent with
  | zero => rfl
  | succ n ih =>
    rw [List.replicate_succ, String.join_cons, scan_append, hblanks, Option.bind_some, ih]

theorem scan_rendered (indent : Nat) (a : String) (opened : List Bracket) :
    (Scanner.code false opened).scan (Line.render ⟨indent, a⟩) =
      ((Scanner.code false opened).scan a).bind (·.scan "\n") := by
  rw [Line.render, scan_append, scan_append, scan_indent, Option.bind_some]

theorem TakesApart.line (h : TakesApart k k' a) (indent : Nat) : LinesTake k k' [⟨indent, a⟩] := by
  obtain ⟨word, h⟩ := h
  obtain ⟨hline, hscan⟩ := scan_of_scanLine h
  have hend : (Scanner.code word k').scan "\n" = some (.code false k') := rfl
  exact LineTakes.single ⟨hline, by rw [scan_rendered, hscan, Option.bind_some, hend]⟩

theorem Takes.line (h : Takes k k' a) (indent : Nat) : LinesTake k k' [⟨indent, a⟩] :=
  h.apart.line indent

theorem linesTake_commented {cs : List Char}
    (h : cs.foldlM Scanner.nextInLine (.code false k) = some ⟨.line, k'⟩) (hb : '\n' ∉ b.toList) :
    LinesTake k k' [⟨indent, String.ofList cs ++ b⟩] := by
  have hopened : (Scanner.code false k).scanLine (String.ofList cs) = some ⟨.line, k'⟩ := by
    rw [Scanner.scanLine, String.toList_ofList, h]
  have hinside : Scanner.scanLine ⟨.line, k'⟩ b = some ⟨.line, k'⟩ := scan_line hb
  have htext : (Scanner.code false k).scanLine (String.ofList cs ++ b) = some ⟨.line, k'⟩ := by
    rw [scanLine_append, hopened, Option.bind_some, hinside]
  obtain ⟨hline, hscan⟩ := scan_of_scanLine htext
  have hend : Scanner.scan ⟨.line, k'⟩ "\n" = some (.code false k') := rfl
  exact LineTakes.single ⟨hline, by rw [scan_rendered, hscan, Option.bind_some, hend]⟩

theorem LinesTake.block (ha : TakesApart [] [.curly] a) (h : LinesTake [] [] lines)
    (hb : Takes [.curly] [] b) : LinesTake [] [] (⟨indent, a⟩ :: lines ++ [⟨indent, b⟩]) := by
  have hlines : LinesTake [] [.curly] (⟨indent, a⟩ :: lines) := (ha.line _).cons (h.around [.curly])
  exact hlines.append (hb.line _)

end Lines

section Generation

variable {α β : Type} {P : α → Prop} {Q : β → Prop}

/-- Whatever is generated satisfies `P`. -/
def Makes (P : α → Prop) (g : Gen α) : Prop := ∀ placeholder s, P (g placeholder s).1

theorem Makes.pure {a : α} (h : P a) : Makes P (Pure.pure a) := fun _ _ => h

theorem Makes.bind {g : Gen α} {f : α → Gen β} (hg : Makes P g) (hf : ∀ a, P a → Makes Q (f a)) :
    Makes Q (g >>= f) := fun placeholder s =>
  hf (g placeholder s).1 (hg placeholder s) placeholder (g placeholder s).2

theorem Makes.any (g : Gen α) : Makes (fun _ => True) g := fun _ _ => trivial

theorem Makes.inBlock {g : Gen α} (names : List String) (hg : Makes P g) :
    Makes P (inBlock names g) := fun placeholder s =>
  hg placeholder { s with blocks := names :: s.blocks }

end Generation

section Pieces

variable {name text : String}

theorem takes_blank : Takes [] [] " " := takes_of fun _ => ⟨_, rfl⟩

theorem takes_semicolon : Takes [] [] ";" := takes_of fun _ => ⟨_, rfl⟩

theorem separates_equals : Separates [] [] " = " := separates_of fun _ => rfl

theorem takes_curly : Takes [.curly] [] "\x7d" := takes_of fun _ => ⟨_, rfl⟩

theorem takes_opened : Takes [.round] [.curly] ") \x7b" := takes_of fun _ => ⟨_, rfl⟩

theorem takes_called : Takes [.round] [] ");" := takes_of fun _ => ⟨_, rfl⟩

theorem takes_typeText (t : TypeName) : Takes [] [] (typeText t) := by
  cases t <;> exact takes_of fun _ => ⟨_, rfl⟩

theorem takes_dynamicType : Takes [] [] dynamicType := takes_of fun _ => ⟨_, rfl⟩

theorem takes_auto : Takes [] [] "auto" := takes_of fun _ => ⟨_, rfl⟩

theorem takes_elementType (type : Option TypeName) : Takes [] [] (elementType type) := by
  cases type with
  | some t => exact takes_typeText t
  | none => exact takes_auto

end Pieces

section Statements

variable {E : Expr → Prop} {classes : List String} {inMain : Bool} {indent : Nat}
  {name text caught : String}

theorem takes_initial (type : VariableType) {value : Option Expr} (hn : Takes [] [] name)
    (hv : ∀ e ∈ value, e.Everywhere Expr.Named) :
    Takes [] [] (initialText classes type name value) := by
  have hinferred (e : Expr) (he : e.Everywhere Expr.Named) :
      Takes [] [] ("auto " ++ name ++ " = " ++ e.ownedCpp classes) := by
    have hauto : Takes [] [] "auto " := takes_of fun _ => ⟨_, rfl⟩
    have h := (hauto.append hn).append (separates_equals.append (e.ownedCpp_closed classes he))
    rwa [← String.append_assoc] at h
  cases type with
  | typed t =>
    have htype := ((takes_typeText t).append takes_blank).append hn
    cases value with
    | some e =>
      have h := htype.append (separates_equals.append (e.cpp_closed classes (hv e rfl)))
      rwa [← String.append_assoc] at h
    | none =>
      have hempty : Takes [] [] "\x7b\x7d" := takes_of fun _ => ⟨_, rfl⟩
      exact htype.append hempty
  | auto =>
    cases value with
    | some e => exact hinferred e (hv e rfl)
    | none => exact (takes_dynamicType.append takes_blank).append hn
  | define =>
    cases value with
    | some e => exact hinferred e (hv e rfl)
    | none =>
      have htype : Takes [] [] "std::string " := takes_of fun _ => ⟨_, rfl⟩
      have hempty : Takes [] [] " = \"\"" := takes_of fun _ => ⟨_, rfl⟩
      exact (htype.append hn).append hempty

theorem makes_simpleText {s : Stmt} (hs : s.IsInitial ∨ ∃ e, s = .expr e)
    (h : s.WellFormed E) (hE : ∀ e, E e → e.Everywhere Expr.Named) :
    Makes (TakesApart [] []) (simpleText classes s) := by
  cases s with
  | declare type name value =>
    refine (Makes.any _).bind fun _ _ => .pure ?_
    exact (takes_initial type (takes_mangle (member_of_name h.1)) fun e he => hE e (h.2 e he)).apart
  | expr e =>
    have he : e.Everywhere Expr.Named := hE e h
    cases e with
    | assign name value =>
      refine (Makes.any _).bind fun scope _ => ?_
      split
      · exact .pure (Expr.cpp_closed classes he)
      · refine (Makes.any _).bind fun _ _ => .pure ?_
        have hn := takes_mangle (he.1 name List.mem_cons_self)
        have hv : ∀ e ∈ some value, e.Everywhere Expr.Named := fun e hv =>
          Option.mem_some_iff.1 hv ▸ he.2
        exact (takes_initial .auto hn hv).apart
    | _ => exact .pure (Expr.cpp_closed classes he)
  | _ =>
    obtain hs | ⟨e, hs⟩ := hs
    · exact hs.elim
    · cases hs

theorem makes_simpleLine {s : Stmt} (hs : s.IsInitial ∨ ∃ e, s = .expr e)
    (h : s.WellFormed E) (hE : ∀ e, E e → e.Everywhere Expr.Named) :
    Makes (LinesTake [] []) (simpleLine classes indent s) :=
  (makes_simpleText hs h hE).bind fun _ ht => .pure ((ht.append takes_semicolon).line indent)

theorem linesTake_return {value : Option Expr} (h : ∀ e ∈ value, e.Everywhere Expr.Named) :
    LinesTake [] [] (returnLines classes inMain indent value) := by
  have hzero : Takes [] [] "return 0;" := takes_of fun _ => ⟨_, rfl⟩
  cases inMain with
  | true =>
    cases value with
    | none => exact hzero.line _
    | some e =>
      have hcast : Separates [] [.round] "static_cast<void>(" := separates_of fun _ => rfl
      have hfirst := hcast.enclose (e.cpp_closed classes (h e rfl)) takes_called
      exact (hfirst.line _).cons (hzero.line _)
  | false =>
    cases value with
    | none =>
      have hreturn : Takes [] [] "return;" := takes_of fun _ => ⟨_, rfl⟩
      exact hreturn.line _
    | some e =>
      have hreturn : Separates [] [] "return " := separates_of fun _ => rfl
      exact (hreturn.enclose (e.cpp_closed classes (h e rfl)) takes_semicolon).line _

theorem linesTake_noMatch (hs : Takes [] [] name) (indent : Nat) (first : Bool) :
    LinesTake [] [] (noMatchLines indent name first) := by
  have hopen : TakesApart [] [.curly] (if first then "\x7b" else "else \x7b") := by
    cases first <;> exact (takes_of fun _ => ⟨_, rfl⟩ : Takes _ _ _).apart
  have hthrow : Takes [] [.round, .round]
      "throw vn_error(\"ValueError\", \"No case matches switch value \" + vn_to_string(" :=
    takes_of (by decide +kernel)
  have hend : Takes [.round, .round] [] "));" := takes_of fun _ => ⟨_, rfl⟩
  have hline := (hthrow.append (hs.around [.round, .round])).append hend
  have hinner : LinesTake [.curly] [.curly] [⟨indent + 1, _⟩] := (hline.line _).around [.curly]
  exact (hopen.line _).cons (hinner.cons (takes_curly.line _))

theorem linesTake_catch {binding : String} (hc : Takes [] [] caught) (hb : IsMemberName binding)
    (indent : Nat) (errorType : String) :
    LinesTake [.curly] [.curly] (catchLines indent caught errorType binding) := by
  have hhead : Takes [.curly] [.round] "\x7d catch (const std::exception& " :=
    takes_of fun _ => ⟨_, rfl⟩
  have hfirst := (hhead.append (hc.around [.round])).append takes_opened
  have htype : Takes [] [] "std::string " := takes_of fun _ => ⟨_, rfl⟩
  have hsign : Takes [] [] " = " := separates_equals.takes
  have hwhat : Takes [] [] ".what();" := takes_of fun _ => ⟨_, rfl⟩
  have hlast := (((htype.append (takes_mangle hb)).append hsign).append hc).append hwhat
  have hfilter : LinesTake [.curly] [.curly] (if errorType = "Error" then [] else
      [⟨indent + 1, "if (!vn_error_is(" ++ caught ++ ", " ++ Text.quoted errorType ++ ")) \x7b"⟩,
        ⟨indent + 2, "throw;"⟩,
        ⟨indent + 1, "\x7d"⟩]) := by
    split
    · exact linesTake_nil
    · have hif : Takes [] [.round, .round] "if (!vn_error_is(" := takes_of fun _ => ⟨_, rfl⟩
      have hopen : Takes [.round, .round] [.curly] ")) \x7b" := takes_of fun _ => ⟨_, rfl⟩
      have hthrow : Takes [] [] "throw;" := takes_of fun _ => ⟨_, rfl⟩
      have hquoted := (separates_comma.append (takesApart_quoted errorType)).around [.round, .round]
      have htest := ((hif.append (hc.around [.round, .round])).append hquoted).append hopen
      rw [← String.append_assoc] at htest
      exact (LinesTake.block htest.apart (hthrow.line _) takes_curly).around [.curly]
  exact ((hfirst.line _).cons hfilter).append ((hlast.line _).around [.curly])

/-- The head of a block that repeats or chooses, between what opens it and its body. -/
theorem takes_head {k : List Bracket} {word : String} (hw : Separates k [.round] word)
    (h : TakesApart [] [] text) : Takes k [.curly] (word ++ text ++ ") \x7b") :=
  hw.enclose h takes_opened

theorem linesTake_conditional {condition : Expr} {inner further last : List Line}
    (he : condition.Everywhere Expr.Named) (hinner : LinesTake [] [] inner)
    (hfurther : LinesTake [.curly] [.curly] further) (hlast : LinesTake [.curly] [.curly] last)
    (indent : Nat) :
    LinesTake [] [] (⟨indent, "if (" ++ condition.cpp classes ++ ") \x7b"⟩ :: inner ++ further ++
      last ++ [⟨indent, "\x7d"⟩]) := by
  have hif : Separates [] [.round] "if (" := separates_of fun _ => rfl
  have hhead := takes_head hif (condition.cpp_closed classes he)
  have hbegin := (hhead.line indent).cons (hinner.around [.curly])
  exact ((hbegin.append hfurther).append hlast).append (takes_curly.line _)

end Statements

end Cpp

section Blocks

variable {E : Expr → Prop} {classes : List String} {inMain : Bool}

mutual

/-- The lines of a statement close what they open. -/
theorem Stmt.lines_closed (hE : ∀ e, E e → e.Everywhere Expr.Named) (indent : Nat) :
    (s : Stmt) → s.WellFormed E → Makes (LinesTake [] []) (s.lines classes inMain indent)
  | .comment _, h => .pure (linesTake_commented rfl fun hm => (h.2 _ hm).1 rfl)
  | .declare _ _ _, h => makes_simpleLine (.inl trivial) h hE
  | .expr e, h => makes_simpleLine (.inr ⟨e, rfl⟩) h hE
  | .ret _, h => .pure (linesTake_return fun e he => hE e (h e he))
  | .conditional clause, h => clause.lines_closed hE indent h
  | .forLoop initial condition increment body, h => by
    obtain ⟨hi, hinitial, hcondition, hincrement, hbody⟩ := h
    have hfor : Separates [] [.round] "for (" := separates_of fun _ => rfl
    have hsemicolon : Separates [] [] "; " := separates_of fun _ => rfl
    refine .inBlock _ ((makes_simpleText (.inl hi) hinitial hE).bind fun first hfirst => ?_)
    refine (Makes.inBlock _ (blockLines_closed hE _ body hbody)).bind fun inner hinner => .pure ?_
    have hlast := hsemicolon.append (increment.cpp_closed classes (hE _ hincrement))
    have hhead := (hfirst.append (hsemicolon.append
      (condition.cpp_closed classes (hE _ hcondition)))).append hlast
    rw [← String.append_assoc, ← String.append_assoc] at hhead
    exact .block (takes_head hfor hhead).apart hinner takes_curly
  | .forIn name type collection body, h => by
    obtain ⟨hn, hcollection, hbody⟩ := h
    have hfor : Separates [] [.round] "for (" := separates_of fun _ => rfl
    have hcolon : Separates [] [] " : " := separates_of fun _ => rfl
    refine (Makes.inBlock _ (.inBlock _ (blockLines_closed hE _ body hbody))).bind
      fun inner hinner => .pure ?_
    have hname := ((takes_elementType type).append takes_blank).append
      (takes_mangle (member_of_name hn))
    have hhead := hname.append
      (hcolon.append (collection.ownedCpp_closed classes (hE _ hcollection)))
    rw [← String.append_assoc] at hhead
    exact .block (takes_head hfor hhead.apart).apart hinner takes_curly
  | .whileLoop condition body, h => by
    have hwhile : Separates [] [.round] "while (" := separates_of fun _ => rfl
    refine (Makes.inBlock _ (blockLines_closed hE _ body h.2)).bind fun inner hinner => .pure ?_
    have hhead := takes_head hwhile (condition.cpp_closed classes (hE _ h.1))
    exact .block hhead.apart hinner takes_curly
  | .doWhile body condition, h => by
    have hdo : Takes [] [.curly] "do \x7b" := takes_of fun _ => ⟨_, rfl⟩
    have hwhile : Separates [.curly] [.round] "\x7d while (" := separates_of fun _ => rfl
    refine (Makes.inBlock _ (blockLines_closed hE _ body h.1)).bind fun inner hinner => .pure ?_
    have hend := hwhile.enclose (condition.cpp_closed classes (hE _ h.2)) takes_called
    exact .block hdo.apart hinner hend
  | .switch subject cases, h => by
    have hswitch : Takes [] [] "vn_switch_" := takes_of fun _ => ⟨_, rfl⟩
    have hif : Takes [] [] "if" := takes_of fun _ => ⟨_, rfl⟩
    have hopen : Takes [] [.curly] "\x7b" := takes_of fun _ => ⟨_, rfl⟩
    have hconst : Takes [] [] "const auto " := takes_of fun _ => ⟨_, rfl⟩
    refine (Makes.any _).bind fun number _ => ?_
    have hname : Takes [] [] ("vn_switch_" ++ toString number) := hswitch.append (takes_nat number)
    refine (caseLines_closed hE _ hname hif cases h.2).bind fun inner hinner => .pure ?_
    have hvalue := subject.ownedCpp_closed classes (hE _ h.1)
    have hkept := ((hconst.append hname).append
      (separates_equals.append hvalue)).append takes_semicolon
    rw [← String.append_assoc] at hkept
    have hbegin : LinesTake [] [.curly] [⟨indent, "\x7b"⟩, ⟨indent + 1, _⟩] :=
      (hopen.line _).cons ((hkept.line _).around [.curly])
    have hnone := (linesTake_noMatch hname (indent + 1) cases.isEmpty).around [.curly]
    exact ((hbegin.append (hinner.around [.curly])).append hnone).append (takes_curly.line _)
  | .attempt body errorType binding handler, h => by
    obtain ⟨hbody, -, hb, hhandler⟩ := h
    have hcaught : Takes [] [] "vn_caught_" := takes_of fun _ => ⟨_, rfl⟩
    have htry : Takes [] [.curly] "try \x7b" := takes_of fun _ => ⟨_, rfl⟩
    refine (Makes.any _).bind fun number _ => ?_
    refine (Makes.inBlock _ (blockLines_closed hE _ body hbody)).bind fun inner hinner => ?_
    refine (Makes.inBlock _ (.inBlock _ (blockLines_closed hE _ handler hhandler))).bind
      fun after hafter => .pure ?_
    have hbegin := (htry.line indent).cons (hinner.around [.curly])
    have hcatch :=
      linesTake_catch (hcaught.append (takes_nat number)) (member_of_name hb) indent errorType
    exact ((hbegin.append hcatch).append (hafter.around [.curly])).append (takes_curly.line _)

theorem blockLines_closed (hE : ∀ e, E e → e.Everywhere Expr.Named) (indent : Nat) :
    (ss : List Stmt) → blockWellFormed E ss →
      Makes (LinesTake [] []) (blockLines classes inMain indent ss)
  | [], _ => .pure linesTake_nil
  | s :: rest, h => (s.lines_closed hE indent h.1).bind fun _ hs =>
    (blockLines_closed hE indent rest h.2).bind fun _ hr => .pure (hs.append hr)

theorem Conditional.lines_closed (hE : ∀ e, E e → e.Everywhere Expr.Named) (indent : Nat) :
    (c : Conditional) → c.WellFormed E → Makes (LinesTake [] []) (c.lines classes inMain indent)
  | .mk condition body elseIfs none, h =>
    (Makes.inBlock _ (blockLines_closed hE _ body h.2.1)).bind fun _ hinner =>
      (clauseLines_closed hE indent elseIfs h.2.2.1).bind fun _ hfurther =>
        .pure (linesTake_conditional (hE condition h.1) hinner hfurther linesTake_nil indent)
  | .mk condition body elseIfs (some b), h => by
    have helse : Takes [.curly] [.curly] "\x7d else \x7b" := takes_of fun _ => ⟨_, rfl⟩
    refine (Makes.inBlock _ (blockLines_closed hE _ body h.2.1)).bind fun _ hinner => ?_
    refine (clauseLines_closed hE indent elseIfs h.2.2.1).bind fun _ hfurther => ?_
    refine (Makes.inBlock _ (blockLines_closed hE _ b h.2.2.2)).bind fun _ hlast => .pure ?_
    have hlast := (helse.line indent).cons (hlast.around [.curly])
    exact linesTake_conditional (hE condition h.1) hinner hfurther hlast indent

theorem clauseLines_closed (hE : ∀ e, E e → e.Everywhere Expr.Named) (indent : Nat) :
    (cs : List Conditional) → clausesWellFormed E cs →
      Makes (LinesTake [.curly] [.curly]) (clauseLines classes inMain indent cs)
  | [], _ => .pure linesTake_nil
  | .mk condition body _ _ :: rest, h => by
    have hif : Separates [.curly] [.round] "\x7d else if (" := separates_of fun _ => rfl
    refine (Makes.inBlock _ (blockLines_closed hE _ body h.1.2.1)).bind fun inner hinner => ?_
    refine (clauseLines_closed hE indent rest h.2).bind fun further hfurther => .pure ?_
    have hhead := takes_head hif (condition.cpp_closed classes (hE _ h.1.1))
    exact ((hhead.line _).cons (hinner.around [.curly])).append hfurther

theorem caseLines_closed (hE : ∀ e, E e → e.Everywhere Expr.Named) (indent : Nat)
    {subject word : String} (hs : Takes [] [] subject) (hw : Takes [] [] word) :
    (cs : List Case) → casesWellFormed E cs →
      Makes (LinesTake [] []) (caseLines classes inMain indent subject word cs)
  | [], _ => .pure linesTake_nil
  | .mk value body :: rest, h => by
    have hopen : Takes [] [.round] " (" := takes_of fun _ => ⟨_, rfl⟩
    have hequal : Separates [] [] " == " := separates_of fun _ => rfl
    have helse : Takes [] [] "else if" := takes_of fun _ => ⟨_, rfl⟩
    refine (Makes.inBlock _ (blockLines_closed hE _ body h.1.2)).bind fun inner hinner => ?_
    refine (caseLines_closed hE indent hs helse rest h.2).bind fun further hfurther => .pure ?_
    have hvalue := takesApart_operand (value.cpp_closed classes (hE _ h.1.1)) value .equality true
    have htest := (hs.append (hequal.append hvalue)).around [.round]
    rw [← String.append_assoc] at htest
    have hhead := ((hw.append hopen).append htest).append takes_opened
    rw [← String.append_assoc, ← String.append_assoc] at hhead
    exact ((hhead.line _).cons (hinner.around [.curly])).append ((takes_curly.line _).cons hfurther)

end

end Blocks

end VnScript
