import VnScript.Proofs.Cpp.Unambiguous
import VnScript.Proofs.Cpp.Written

namespace VnScript

open Cpp

variable {classes : List String}

section Names

variable {name : String}

theorem dashless_star (h : '*' ∈ name.toList) : '*' ∈ (dashless name).toList := by
  rw [dashless, String.toList_ofList]
  exact List.mem_map.2 ⟨'*', h, rfl⟩

theorem mangle_star (h : '*' ∈ name.toList) : '*' ∈ (mangle name).toList := by
  unfold mangle
  split
  · rw [String.toList_append]
    exact List.mem_append_left _ (dashless_star h)
  · exact dashless_star h

theorem Cpp.IsNameText.wordPart {text : String} (h : IsNameText text) :
    ∀ c ∈ text.toList, isWordPart c = true := by
  unfold IsNameText isNameText at h
  split at h
  · cases h
  · next c cs htext =>
    simp only [Bool.and_eq_true, List.all_eq_true] at h
    rw [htext]
    exact List.forall_mem_cons.2 ⟨isWordPart_of_start h.1.1, h.1.2⟩

theorem Cpp.IsNameText.not_star (h : IsNameText (mangle name)) : '*' ∉ name.toList := by
  intro hs
  have hw := h.wordPart '*' (mangle_star hs)
  revert hw
  decide

end Names

/-- The form of an expression is a phrase that groups as the expression does, also as a term of a
sum of texts and where it is printed. -/
structure Expr.Fits (classes : List String) (e : Expr) : Prop where
  written : Written (e.cpp classes) (nodeAt e.strength (e.tree classes))
  terms : WrittenChain "+" .multiplicative (joinedTerm e (e.cpp classes)) (e.grouped classes).terms
  stream : List.Forall₂ (fun text t => Written text (nodeAt .additive t))
    (e.rendered classes).stream (e.grouped classes).stream

theorem joinedTerm_eq {e : Expr} (h : e.joinsText = false) (text : String) :
    joinedTerm e text = "vn_to_string(" ++ text ++ ")" := by
  unfold joinedTerm
  split
  · cases h
  · rw [h]
    rfl

theorem Expr.Fits.single {e : Expr} {text : String} {t : Tree}
    (hr : e.rendered classes = .single e text) (hg : e.grouped classes = .single t)
    (hj : e.joinsText = false) (h : Written text (nodeAt e.strength t)) : e.Fits classes := by
  have hc : e.cpp classes = text := congrArg Rendered.text hr
  have ht : e.tree classes = t := congrArg Grouped.tree hg
  constructor
  · rwa [hc, ht]
  · rw [joinedTerm_eq hj, hg, hc]
    exact Written.one ((written_text h.expression).atom .multiplicative)
  · rw [hr, hg]
    exact .cons (written_operand h .shift true) .nil

theorem Expr.Fits.atom {e : Expr} {text : String} {t : Tree}
    (hr : e.rendered classes = .single e text) (hg : e.grouped classes = .single t)
    (hj : e.joinsText = false) (h : Written text (.suffixed t)) : e.Fits classes :=
  .single hr hg hj (h.atom _)

theorem Expr.fits_string (s : String) : (Expr.string s).Fits classes := by
  have h : Written (Text.quoted s) (.suffixed (.leaf (Text.quoted s))) :=
    written_literal (quoted_spells s).spells
  exact ⟨h.atom _, Written.one ((written_owned s).atom .multiplicative),
    .cons (written_operand (e := .string s) (h.atom _) .shift true) .nil⟩

section Sums

variable {left right : Expr}

theorem Expr.fits_sum (hl : left.Fits classes) (hr : right.Fits classes)
    (hj : (left.joinsText || right.joinsText) = true) :
    (Expr.binary .add left right).Fits classes := by
  have hs : " + " = spaced Operator.add.cppSymbol := by decide
  have hc : (Expr.binary .add left right).cpp classes = joinedTerm left (left.cpp classes) ++
      spaced Operator.add.cppSymbol ++ joinedTerm right (right.cpp classes) := by
    rw [← hs]
    exact if_pos ⟨rfl, hj⟩
  have hg : (Expr.binary .add left right).grouped classes =
      (left.grouped classes).sum (right.grouped classes) := by
    simp [grouped, hj]
  have ht : joinedTerm (.binary .add left right) = id := by
    funext text
    exact if_pos hj
  have hw := hl.terms.append .add hr.terms
  constructor
  · rw [hc, tree, hg]
    exact hw.written
  · rw [hc, ht, hg]
    exact hw
  · rw [hg]
    exact List.rel_append hl.stream hr.stream

theorem Expr.fits_binary (op : Operator) (hl : left.Fits classes) (hr : right.Fits classes) :
    (Expr.binary op left right).Fits classes := by
  by_cases hj : op = .add ∧ (left.joinsText || right.joinsText) = true
  · obtain ⟨rfl, hj⟩ := hj
    exact fits_sum hl hr hj
  have hw := (written_operand hl.written op.strength false).operation op
    (written_operand hr.written op.strength true)
  have hc : binaryText op left right (left.cpp classes) (right.cpp classes) =
      operand left (left.cpp classes) op.strength false ++ spaced op.cppSymbol ++
        operand right (right.cpp classes) op.strength true := by
    rw [binaryText, if_neg hj]
    simp only [spaced, String.append_assoc]
  rw [← hc] at hw
  by_cases hop : op = .add
  · subst hop
    have hn : (left.joinsText || right.joinsText) = false := by simpa using hj
    have hg : (Expr.binary .add left right).grouped classes =
        (left.grouped classes).addition (right.grouped classes) := by
      simp [grouped, hn]
    constructor
    · rw [tree, hg]
      exact hw
    · rw [joinedTerm_eq (e := .binary .add left right) hn, hg]
      exact Written.one ((written_text hw.expression).atom .multiplicative)
    · rw [hg]
      exact List.rel_append hl.stream hr.stream
  · have hn : (Expr.binary op left right).joinsText = false := by
      cases op with
      | add => exact absurd rfl hop
      | _ => rfl
    exact .single (if_neg hop) (if_neg hop) hn hw

end Sums

section Members

variable {object : Expr} {m : String}

theorem Expr.Everywhere.here {P : Expr → Prop} {e : Expr} (h : e.Everywhere P) : P e := by
  cases e with
  | binary | assign | assignMember | call | create | member => exact h.1
  | _ => exact h

theorem written_member (ho : object.Everywhere (Expr.IsPlain classes)) (hf : object.Fits classes)
    (hm : IsNameText (mangle m))
    (hq : ∀ n, object = .identifier n → classes.contains n = true →
      ¬IsTemplate (mangle n) (mangle m)) :
    Written (memberText classes object (object.cpp classes) m)
      (.suffixed (memberTree classes object (object.tree classes) m)) := by
  have hp : Written (operand object (object.cpp classes) .access false ++ "->" ++ mangle m)
      (.suffixed (.member (object.tree classes) (mangle m))) :=
    Written.member (written_operand hf.written .access false) hm
  cases object with
  | identifier n =>
    by_cases hc : classes.contains n = true
    · have hn : IsNameText (mangle n) := ho.here.named n (List.mem_singleton.2 rfl)
      simp only [memberText, memberTree, hc, if_true]
      exact written_qualified hn hm (hq n rfl hc)
    · simp only [memberText, memberTree, hc, if_false, Bool.false_eq_true]
      exact hp
  | _ => exact hp

end Members

section Calls

variable {arguments : List Expr}

theorem allWritten (h : ∀ e ∈ arguments, e.Fits classes) :
    AllWritten ((renderedAll classes arguments).map Rendered.text)
      ((groupedAll classes arguments).map Grouped.tree) := by
  induction arguments with
  | nil => exact .nil
  | cons e rest ih =>
    obtain ⟨he, hr⟩ := List.forall_mem_cons.1 h
    exact .cons he.written.expression (ih hr)

theorem written_printed {e : Expr} (h : e.Fits classes) :
    Written ("std::cout << " ++ operand e (e.cpp classes) .shift true)
      (nodeAt .shift (.binary "<<" (.qualified "std" "cout") (e.tree classes))) := by
  have hs : "std::cout << " = "std" ++ "::" ++ "cout" ++ spaced Operator.shiftLeft.cppSymbol := by
    decide
  have hcout : Written ("std" ++ "::" ++ "cout") (.suffixed (.qualified "std" "cout")) :=
    written_qualified (by decide) (by decide) (by decide)
  rw [hs]
  exact (hcout.atom _).operation .shiftLeft (written_operand h.written .shift true)

theorem written_prompts (h : ∀ e ∈ arguments, e.Fits classes) :
    Written (inputText (promptText arguments (renderedAll classes arguments)))
      (.suffixed (inputTree (groupedAll classes arguments))) := by
  cases arguments with
  | nil => exact written_input
  | cons e rest => exact written_prompt (written_printed (h e (List.mem_cons_self ..))).expression

theorem written_ownedValue {e : Expr} (h : e.Fits classes) :
    Written (owned e (e.cpp classes)) (.expression (ownedValue e (e.tree classes))) := by
  cases e with
  | string s => exact ((written_owned s).atom 0).expression
  | _ => exact h.written.expression

theorem conversionHelper_name {name helper : String} (h : conversionHelper? name = some helper) :
    IsNameText helper := by
  unfold conversionHelper? at h
  split at h
  · cases h
    decide
  split at h
  · cases h
    decide
  split at h
  · cases h
    decide
  · cases h

theorem star_not_mem_toDigits (n : Nat) : '*' ∉ Nat.toDigits 10 n := by
  intro h
  have hd := (Decimal.isWhole_toDigits n).2 '*' h
  cases hd

theorem written_conversion {name : String} (h : ∀ e ∈ arguments, e.Fits classes)
    (hn : '*' ∉ name.toList) :
    Written (conversionCall name arguments (renderedAll classes arguments))
      (.suffixed (conversionTree name arguments (groupedAll classes arguments))) := by
  unfold conversionCall conversionTree
  cases hh : conversionHelper? name with
  | none => exact written_placeholder (by simp [hn])
  | some helper =>
    have hmany (count : Nat) : Written
        (placeholder ("type:" ++ name ++ " with " ++ toString count ++ " arguments"))
        (.suffixed (.value dynamicType)) :=
      written_placeholder (by simp [hn, star_not_mem_toDigits])
    match arguments with
    | [] => exact hmany _
    | [e] =>
      have he := written_ownedValue (h e (List.mem_singleton.2 rfl))
      exact (written_name (conversionHelper_name hh)).wrapped he
    | _ :: _ :: _ => exact hmany _

theorem written_system {name : String} (h : ∀ e ∈ arguments, e.Fits classes)
    (hprint : name ≠ "print") (hn : '*' ∉ name.toList) :
    Written (systemCall name arguments (renderedAll classes arguments))
      (.suffixed (systemTree name (groupedAll classes arguments))) := by
  unfold systemCall systemTree
  rw [if_neg hprint, if_neg hprint]
  by_cases hi : name = "input"
  · rw [if_pos hi, if_pos hi]
    exact written_prompts h
  · rw [if_neg hi, if_neg hi]
    exact written_placeholder (by simp [hn])

theorem written_replace {n : String} (h : ∀ e ∈ arguments, e.Fits classes)
    (hn : IsNameText (mangle n)) (hne : arguments ≠ []) :
    Written ("vn_replace(" ++ mangle n ++ ", " ++
        argumentList ((renderedAll classes arguments).map Rendered.text) ++ ")")
      (.suffixed (.call (.leaf "vn_replace")
        (.leaf (mangle n) :: (groupedAll classes arguments).map Grouped.tree))) := by
  have hf : IsNameText "vn_replace" := by decide
  have hw := (written_name hf).call
    (List.Forall₂.cons ((written_name hn).atom 0).expression (allWritten h))
  have hs : "vn_replace(" = "vn_replace" ++ "(" := by decide
  obtain ⟨e, rest, rfl⟩ := List.exists_cons_of_ne_nil hne
  rw [argumentList, renderedAll, List.map_cons, String.intercalate_cons_cons] at hw
  rw [hs, argumentList, renderedAll, List.map_cons]
  simpa only [String.append_assoc] using hw

theorem written_arguments {f name : String} {t : Tree} (h : ∀ e ∈ arguments, e.Fits classes)
    (hf : Written (f ++ mangle name) (.suffixed t)) :
    Written (f ++ (mangle name ++ "(" ++
      argumentList ((renderedAll classes arguments).map Rendered.text) ++ ")"))
      (.suffixed (.call t ((groupedAll classes arguments).map Grouped.tree))) := by
  simpa only [String.append_assoc] using hf.call (allWritten h)

/-- A name before a call is that of the console, a class, a text or an object, in this order. -/
theorem written_callOn {n name : String} (h : ∀ e ∈ arguments, e.Fits classes)
    (hp : (Expr.call (.named n) name arguments).IsPlain classes) :
    Written (callText classes (.named n) name arguments (renderedAll classes arguments))
      (.suffixed (callTree classes (.named n) name arguments (groupedAll classes arguments))) := by
  have hn : IsNameText (mangle name) := hp.named name (by simp [Expr.names])
  have hr : IsNameText (mangle n) := hp.named n (by simp [Expr.names, Receiver.names])
  simp only [callText, callTree]
  split
  · next hs =>
    subst hs
    refine written_system h ?_ hn.not_star
    rintro rfl
    exact hp.silent trivial
  split
  · next hc => exact written_arguments h (written_qualified hr hn (hp.complete (n, name) (if_pos hc)))
  split
  · next hrep =>
    refine written_replace h hr ?_
    rintro rfl
    exact absurd hrep.2 (by decide)
  · exact written_arguments h ((written_name hr).member hn)

theorem written_call {receiver : Receiver} {name : String} (h : ∀ e ∈ arguments, e.Fits classes)
    (hp : (Expr.call receiver name arguments).IsPlain classes) :
    Written (callText classes receiver name arguments (renderedAll classes arguments))
      (.suffixed (callTree classes receiver name arguments (groupedAll classes arguments))) := by
  have hn : IsNameText (mangle name) := hp.named name (by simp [Expr.names])
  cases receiver with
  | free => exact (written_name hn).call (allWritten h)
  | self =>
    have hs : "this->" = "this" ++ "->" := by decide
    have ht : Written ("this" ++ "->" ++ mangle name) (.suffixed (.member (.leaf "this") _)) :=
      (written_name (by decide)).member hn
    rw [← hs] at ht
    exact written_arguments h ht
  | named n => exact written_callOn h hp
  | namespaced n =>
    have hr : IsNameText (mangle n) := hp.named n (by simp [Expr.names, Receiver.names])
    simp only [callText, callTree]
    split
    · exact written_conversion h hn.not_star
    · exact written_arguments h (written_qualified hr hn (hp.complete (n, name) rfl))

theorem written_create {space : Option String} {type : String} (h : ∀ e ∈ arguments, e.Fits classes)
    (hp : (Expr.create space type arguments).IsPlain classes) :
    Written (creationText space type (renderedAll classes arguments))
      (.suffixed (.call (.unique (space.map mangle) (mangle type))
        ((groupedAll classes arguments).map Grouped.tree))) := by
  have ha := allWritten h
  have hn : IsNameText (mangle type) := hp.named type (by simp [Expr.names])
  cases space with
  | none => exact written_creation (name_spells hn) hn.start (.unique (mangle type)) ha
  | some n =>
    have hr : IsNameText (mangle n) := hp.named n (by simp [Expr.names])
    have hs := (name_spells hr).joined isMark_scope (name_spells hn)
    refine written_creation hs ?_ (.uniqueIn (mangle n) (mangle type)) ha
    obtain ⟨c, cs, hc, hw⟩ := hr.start
    exact ⟨c, cs ++ "::".toList ++ (mangle type).toList, by simp [hc], hw⟩

end Calls

theorem Expr.IsPlain.complete_at {e object : Expr} {m : String} (h : e.IsPlain classes)
    (he : ∀ n, object = .identifier n →
      e.qualified? classes = if classes.contains n then some (n, m) else none)
    (n : String) (ho : object = .identifier n) (hc : classes.contains n = true) :
    ¬IsTemplate (mangle n) (mangle m) :=
  h.complete (n, m) ((he n ho).trans (if_pos hc))

mutual

theorem Expr.fits : (e : Expr) → e.Everywhere (Expr.IsPlain classes) → e.Fits classes
  | .identifier name, h => .atom rfl rfl rfl (written_name (h.named name (by simp [Expr.names])))
  | .integer n, h => .atom rfl rfl rfl (written_decimal h.unsigned)
  | .float bits, h => .atom rfl rfl rfl (written_of_spells (floatLiteral_spells h.unsigned))
  | .double bits, h => .atom rfl rfl rfl (written_of_spells (doubleLiteral_spells h.unsigned))
  | .char c, _ => .atom rfl rfl rfl (written_literal (quotedChar_spells c).spells)
  | .boolean b, _ => by
    cases b <;> exact .atom rfl rfl rfl (written_name (by decide))
  | .string s, _ => Expr.fits_string s
  | .self, _ => .atom rfl rfl rfl (written_name (by decide))
  | .binary op left right, h => Expr.fits_binary op (left.fits h.2.1) (right.fits h.2.2)
  | .assign name value, h => by
    have hn := written_name (h.1.named name (by simp [Expr.names]))
    exact .single rfl rfl rfl (hn.assign (value.fits h.2).written.expression)
  | .assignMember object m value, h => by
    have hm := h.1.named m (by simp [Expr.names])
    have ho := written_member h.2.1 (object.fits h.2.1) hm
      (h.1.complete_at fun n hn => by rw [hn]; rfl)
    exact .single rfl rfl rfl (ho.assign (value.fits h.2.2).written.expression)
  | .call receiver name arguments, h =>
    .atom rfl rfl rfl (written_call (fits_all arguments h.2) h.1)
  | .namespaceMember space m, h => by
    have hs := h.named space (by simp [Expr.names])
    have hm := h.named m (by simp [Expr.names])
    exact .atom rfl rfl rfl (written_qualified hs hm (h.complete (space, m) rfl))
  | .create space type arguments, h =>
    .atom rfl rfl rfl (written_create (fits_all arguments h.2) h.1)
  | .member object name, h => by
    have hn := h.1.named name (by simp [Expr.names])
    have ho := written_member h.2 (object.fits h.2) hn
      (h.1.complete_at fun n hn => by rw [hn]; rfl)
    exact .atom rfl rfl rfl ho

theorem fits_all : (es : List Expr) → EverywhereAll (Expr.IsPlain classes) es →
    ∀ e ∈ es, e.Fits classes
  | [], _ => nofun
  | e :: rest, h => List.forall_mem_cons.2 ⟨e.fits h.1, fits_all rest h.2⟩

end

section Reading

theorem Cpp.Written.readsOnly {text : String} {t : Tree} (h : Written text (.expression t)) :
    ReadsOnly text t := h.reads.only

theorem isNameText_switch (number : Nat) : IsNameText ("vn_switch_" ++ toString number) := by
  -- No sign that is a word starts like this name.
  have hsigns : ∀ p ∈ wordSigns, p.1.toList.head? ≠ some 'v' := by decide
  have ht : ("vn_switch_" ++ toString number).toList =
      'v' :: ("n_switch_".toList ++ Nat.toDigits 10 number) := by
    simp [toString, Nat.repr]
  have hword : ("n_switch_".toList ++ Nat.toDigits 10 number).all isWordPart = true := by
    have hdigit : ∀ d ∈ Nat.toDigits 10 number, isWordPart d = true := fun d hd => by
      simp [isWordPart, (Decimal.isWhole_toDigits number).2 d hd]
    have hn : "n_switch_".toList.all isWordPart = true := by decide
    rw [List.all_append, hn, List.all_eq_true.2 hdigit]
    rfl
  have hnone : wordSigns.lookup
      (String.ofList ('v' :: ("n_switch_".toList ++ Nat.toDigits 10 number))) = none := by
    rw [List.lookup_eq_none_iff]
    intro p hp
    rw [bne_iff_ne]
    intro he
    exact hsigns p hp (by rw [← he, String.toList_ofList]; rfl)
  rw [IsNameText, ht, isNameText, hword, hnone]
  rfl

/-- The form of an expression groups as the expression, also behind a `<<`, as the value of a case
and as an object. -/
theorem Expr.cpp_groups (e : Expr) (h : e.Everywhere (Expr.IsPlain classes)) (number : Nat)
    {m : String} (hm : IsNameText (mangle m)) :
    let text := e.cpp classes
    let t := e.tree classes
    let subject := "vn_switch_" ++ toString number
    ReadsOnly text t ∧
      ReadsOnly ("std::cout << " ++ operand e text .shift true)
        (.binary "<<" (.qualified "std" "cout") t) ∧
      ReadsOnly (subject ++ " == " ++ operand e text .equality true)
        (.binary "==" (.leaf subject) t) ∧
      ReadsOnly (operand e text .access false ++ "->" ++ mangle m) (.member t (mangle m)) := by
  intro text t subject
  have hw : Written text (nodeAt e.strength t) := (e.fits h).written
  refine ⟨hw.expression.readsOnly, (written_printed (e.fits h)).expression.readsOnly, ?_, ?_⟩
  · have hs : " == " = spaced Operator.equal.cppSymbol := by decide
    have hc := ((written_name (isNameText_switch number)).atom _).operation .equal
      (written_operand hw .equality true)
    rw [← hs] at hc
    exact hc.expression.readsOnly
  · have ho : Written (operand e text .access false) (.suffixed t) :=
      written_operand hw .access false
    exact ((ho.member hm).atom 0).expression.readsOnly

theorem written_stream {text : String} {ts : List Cpp.Tree} {texts : List String}
    {ts' : List Cpp.Tree} (h : WrittenChain "<<" .additive text ts)
    (h' : List.Forall₂ (fun text t => Written text (nodeAt .additive t)) texts ts') :
    WrittenChain "<<" .additive (text ++ String.join (texts.map (" << " ++ ·))) (ts ++ ts') := by
  have hs : " << " = spaced Operator.shiftLeft.cppSymbol := by decide
  induction h' generalizing text ts with
  | nil => simpa using h
  | cons hp _ ih =>
    have hc := h.append .shiftLeft (Written.one hp)
    rw [← hs] at hc
    simpa [String.append_assoc] using ih hc

theorem written_streams {arguments : List Expr} (h : ∀ e ∈ arguments, e.Fits classes) :
    List.Forall₂ (fun text t => Written text (nodeAt .additive t))
      ((renderedAll classes arguments).flatMap Rendered.stream)
      ((groupedAll classes arguments).flatMap Grouped.stream) := by
  induction arguments with
  | nil => exact .nil
  | cons e rest ih =>
    obtain ⟨he, hr⟩ := List.forall_mem_cons.1 h
    exact List.rel_append he.stream (ih hr)

/-- A call that prints is one chain of shifts, in which the segments of its arguments group as
they do alone. -/
theorem print_groups (arguments : List Expr)
    (h : EverywhereAll (Expr.IsPlain classes) arguments) :
    let printed := Expr.call (.named "System") "print" arguments
    ReadsOnly (printed.cpp classes) (printed.tree classes) := by
  intro printed
  have hstd (name : String) (hn : IsNameText name) (ht : ¬IsTemplate "std" name) :
      Written ("std" ++ "::" ++ name) (nodeAt .additive (.qualified "std" name)) :=
    (written_qualified (by decide) hn ht).atom _
  have hs := written_stream (Written.one (hstd "cout" (by decide) (by decide)))
    (written_streams (fits_all arguments h))
  have hc := written_stream hs (.cons (hstd "endl" (by decide) (by decide)) .nil)
  have hp : printed.cpp classes = "std" ++ "::" ++ "cout" ++
      String.join (((renderedAll classes arguments).flatMap Rendered.stream).map (" << " ++ ·)) ++
        String.join (["std" ++ "::" ++ "endl"].map (" << " ++ ·)) := by
    have h₁ : "std::cout" = "std" ++ "::" ++ "cout" := by decide
    have h₂ : " << std::endl" =
        String.join (["std" ++ "::" ++ "endl"].map (" << " ++ ·)) := by
      decide
    rw [← h₁, ← h₂]
    rfl
  rw [hp]
  exact (WrittenChain.written .shiftLeft hc).expression.readsOnly

theorem Expr.isPlain_iff {e : Expr} : e.IsPlain classes ↔ e.IsUnsigned ∧ ¬e.IsPrint ∧
    (∀ name ∈ e.names, IsNameText (mangle name)) ∧
      ∀ p ∈ e.qualified? classes, ¬IsTemplate (mangle p.1) (mangle p.2) :=
  ⟨fun ⟨hu, hs, hn, hc⟩ => ⟨hu, hs, hn, hc⟩, fun ⟨hu, hs, hn, hc⟩ => ⟨hu, hs, hn, hc⟩⟩

/-- `(a + 1) * ("x" < "y" + (b-c + 'z') OR true)` -/
def mixedExpr : Expr :=
  .binary .mul (.binary .add (.identifier "a") (.integer 1))
    (.binary .or (.binary .less (.string "x")
      (.binary .add (.string "y") (.binary .add (.identifier "b-c") (.char 'z')))) (.boolean true))

theorem mixedExpr_groups : mixedExpr.Everywhere (Expr.IsPlain []) ∧ IsNameText (mangle "m") ∧
    ReadsOnly (mixedExpr.cpp []) (mixedExpr.tree []) := by
  have h : mixedExpr.Everywhere (Expr.IsPlain []) := by
    simp only [mixedExpr, Expr.Everywhere, Expr.isPlain_iff, Expr.IsUnsigned, Expr.IsPrint,
      Expr.names, Expr.qualified?, Option.not_mem_none, List.not_mem_nil, List.mem_singleton,
      forall_eq, false_implies, implies_true, not_false_eq_true, and_true, true_and]
    decide
  have hm : IsNameText (mangle "m") := by decide
  exact ⟨h, hm, (mixedExpr.cpp_groups h 0 hm).1⟩

/-- Names with operators in them, a template without its argument and a literal with a minus sign
group with what is around them. -/
theorem Expr.cpp_regroups :
    let product := Expr.binary .mul (.identifier "a + b") (.identifier "c")
    let pointer := Expr.binary .greater
      (.binary .less (.namespaceMember "std" "make_unique") (.identifier "A"))
      (.binary .and (.identifier "x") (.identifier "y"))
    let signed := Expr.member (.double 0x8000000000000000) "m"
    (product.Everywhere (fun e => e.IsUnsigned ∧ ¬e.IsPrint) ∧
      ReadsOnly (product.cpp []) (.binary "+" (.leaf "a") (.binary "*" (.leaf "b") (.leaf "c"))) ∧
      ¬Reads (product.cpp []) (product.tree [])) ∧
    (pointer.Everywhere (fun e => e.IsUnsigned ∧ ¬e.IsPrint) ∧
      ReadsOnly (pointer.cpp [])
        (.call (.unique none "A") [.binary "&&" (.leaf "x") (.leaf "y")]) ∧
      ¬Reads (pointer.cpp []) (pointer.tree [])) ∧
    ReadsOnly (signed.cpp []) (.negative (.member (.leaf "0.0") "m")) ∧
      ¬Reads (signed.cpp []) (signed.tree []) := by
  intro product pointer signed
  have hname (name : String) (h : IsNameText name) (s : Strength) :
      Written name (nodeAt s (.leaf name)) := (written_name h).atom s
  have hsum : ReadsOnly (product.cpp [])
      (.binary "+" (.leaf "a") (.binary "*" (.leaf "b") (.leaf "c"))) := by
    have hw := (hname "a" (by decide) _).operation .add
      ((hname "b" (by decide) _).operation .mul (hname "c" (by decide) _))
    have ht : product.cpp [] =
        "a" ++ spaced Operator.add.cppSymbol ++ ("b" ++ spaced Operator.mul.cppSymbol ++ "c") := by
      decide
    rw [ht]
    exact hw.expression.readsOnly
  have hcall : ReadsOnly (pointer.cpp [])
      (.call (.unique none "A") [.binary "&&" (.leaf "x") (.leaf "y")]) := by
    have hw := (hname "x" (by decide) _).operation .and
      (hname "y" (by decide) _)
    obtain ⟨ls, hs, hp⟩ := AllWritten.arguments (.cons hw.expression .nil)
    have htemplate : Spells ("std" ++ "::" ++ "make_unique").toList _ :=
      (name_spells (by decide)).joined isMark_scope (name_spells (by decide))
    have hclass : IsNameText "A" := by decide
    have hspelled := (htemplate.joined (isMark_operator .less) (name_spells hclass)).joined
      (isMark_operator .greater) hs
    have hphrase := (Phrase.call (.operand (.unique "A")) hp).atom 0
    have ht : pointer.cpp [] = "std" ++ "::" ++ "make_unique" ++ spaced Operator.less.cppSymbol ++
        "A" ++ spaced Operator.greater.cppSymbol ++
          ("(" ++ argumentList ["x" ++ spaced Operator.and.cppSymbol ++ "y"] ++ ")") := by
      decide
    rw [ht]
    exact Written.readsOnly ⟨_, hspelled, hphrase.expression_at⟩
  have hnegative : ReadsOnly (signed.cpp []) (.negative (.member (.leaf "0.0") "m")) := by
    have hzero : Spells "0.0".toList [.literal "0.0"] :=
      number_spells (c := '0') rfl (.cons rfl (.cons rfl .nil))
    have hw : Written ("0.0" ++ "->" ++ "m") _ := (written_literal hzero).member (by decide)
    have ht : signed.cpp [] = "-" ++ ("0.0" ++ "->" ++ "m") := by decide
    rw [ht]
    exact (hw.negative (c := '0') (s := 0) (by decide) rfl (by decide)).readsOnly
  refine ⟨⟨?_, hsum, fun h => ?_⟩, ⟨?_, hcall, fun h => ?_⟩, hnegative, fun h => ?_⟩
  · simp [product, Everywhere, IsUnsigned, IsPrint]
  · have ht := hsum.2 _ h
    simp [product, tree, grouped, Grouped.single, Operator.cppSymbol, Operator.symbol] at ht
  · simp [pointer, Everywhere, IsUnsigned, IsPrint]
  · cases hcall.2 _ h
  · cases hnegative.2 _ h

end Reading

end VnScript
