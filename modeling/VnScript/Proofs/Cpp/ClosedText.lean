import VnScript.Proofs.Cpp.Grouping
import VnScript.Proofs.Cpp.Placeholder
import VnScript.Proofs.Cpp.Scanner

namespace VnScript

namespace Cpp

section Names

variable {name : String}

theorem inWord_of_mangle (h : IsMemberName name) :
    ∀ c ∈ (mangle name).toList, Reading.inWord c = true := by
  have hdashless : ∀ c ∈ (dashless name).toList, Reading.inWord c = true := by
    intro c hc
    rw [dashless, String.toList_ofList] at hc
    obtain ⟨d, hd, rfl⟩ := List.mem_map.1 hc
    split
    · rfl
    · exact Reading.inWord_of_isWord h d hd
  unfold mangle
  split
  · rw [String.toList_append]
    exact List.forall_mem_append.2 ⟨hdashless, List.forall_mem_singleton.2 rfl⟩
  · exact hdashless

theorem takes_mangle (h : IsMemberName name) : Takes [] [] (mangle name) :=
  takes_plain fun c hc => isPlain_of rfl (inWord_of_mangle h c hc)

theorem member_of_name (h : IsName name) : IsMemberName name := h.1

theorem member_of_usable (h : IsUsable name) : IsMemberName name := by
  obtain h | rfl := h
  · exact member_of_name h
  · decide

end Names

section Numbers

theorem isPlain_digit {c : Char} (h : c.isDigit = true) : isPlain c = true :=
  isPlain_of (p := Char.isDigit) rfl h

theorem takes_nat (n : Nat) : Takes [] [] (toString n) := by
  refine takes_plain fun c hc => isPlain_digit ((Decimal.isWhole_toDigits n).2 c ?_)
  simpa [toString, Nat.repr] using hc

theorem takes_decimal (n : Int) : Takes [] [] (Text.decimal n) := by
  have hdigits (m : Nat) : ∀ c ∈ Nat.toDigits 10 m, isPlain c = true := fun c hc =>
    isPlain_digit ((Decimal.isWhole_toDigits m).2 c hc)
  refine takes_plain fun c hc => ?_
  rw [Text.decimal, String.toList_ofList] at hc
  cases n with
  | ofNat m => exact hdigits m c hc
  | negSucc m =>
    obtain rfl | hc := List.mem_cons.1 hc
    · rfl
    · exact hdigits (m + 1) c hc

theorem isPlain_inNumber {exponent : Bool} {c : Char} (h : inNumber exponent c = true) :
    isPlain c = true := by
  revert h
  exact isPlain_of (by cases exponent <;> rfl)

theorem NumberTail.plain {exponent : Bool} {cs : List Char} (h : NumberTail exponent cs) :
    ∀ c ∈ cs, isPlain c = true := by
  induction h with
  | nil => nofun
  | cons hc tail ih => exact List.forall_mem_cons.2 ⟨isPlain_inNumber hc, ih⟩

theorem takes_bits (f : Decimal.FloatFormat) (bits : Nat) : Takes [] [] (f.text bits) := by
  unfold Decimal.FloatFormat.text
  split
  · exact takes_of fun _ => ⟨_, rfl⟩
  · split <;> exact takes_of fun _ => ⟨_, rfl⟩
  · next negative significand exponent h =>
    refine takes_plain fun c hc => ?_
    obtain ⟨d, tail, ht, hd, htail⟩ := isNumberText_finite f significand exponent .nil
    rw [List.append_nil] at ht
    rw [String.toList_ofList, ht] at hc
    obtain hc | hc := List.mem_append.1 hc
    · cases negative with
      | true =>
        obtain rfl := List.mem_singleton.1 hc
        rfl
      | false => cases hc
    · have hall : ∀ c ∈ d :: tail, isPlain c = true :=
        List.forall_mem_cons.2 ⟨isPlain_digit hd, htail.plain⟩
      exact hall c hc

end Numbers

section Texts

theorem takes_empty : Takes [] [] "" := fun word => ⟨word, rfl⟩

theorem takes_close : Takes [.round] [] ")" := takes_of fun _ => ⟨_, rfl⟩

theorem takes_scope : Takes [] [] "::" := takes_of fun _ => ⟨_, rfl⟩

theorem takes_arrow : Takes [] [] "->" := takes_of fun _ => ⟨_, rfl⟩

theorem separates_comma : Separates [] [] ", " := separates_of fun _ => rfl

theorem separates_shift : Separates [] [] " << " := separates_of fun _ => rfl

/-- An operator and the blanks around it: the one for division does not begin a comment. -/
theorem separates_operator (op : Operator) : Separates [] [] (" " ++ op.cppSymbol ++ " ") := by
  have htext : " " ++ op.cppSymbol ++ " " =
      String.ofList (' ' :: (op.cppSymbol.toList ++ [' '])) := by
    simp [← String.toList_inj]
  rw [htext]
  refine separates_of fun _ => ?_
  cases op <;> rfl

variable {k k' k'' : List Bracket} {a b c : String} {texts : List String}

theorem Separates.enclose (ha : Separates k k' a) (hb : TakesApart [] [] b) (hc : Takes k' k'' c) :
    Takes k k'' (a ++ b ++ c) :=
  (ha.append (hb.around k')).append hc

theorem takes_parenthesized (h : TakesApart [] [] b) : Takes [] [] ("(" ++ b ++ ")") :=
  have hopen : Separates [] [.round] "(" := separates_of fun _ => rfl
  hopen.enclose h takes_close

theorem takesApart_operand (h : TakesApart [] [] b) (e : Expr) (parent : Strength) (right : Bool) :
    TakesApart [] [] (operand e b parent right) := by
  unfold operand
  split
  · exact (takes_parenthesized h).apart
  · exact h

theorem takes_ownedLiteral (s : String) : Takes [] [] (ownedLiteral s) :=
  have hopen : Separates [] [.round] "std::string(" := separates_of fun _ => rfl
  hopen.enclose (takesApart_quoted s) takes_close

theorem takesApart_owned (h : TakesApart [] [] b) (e : Expr) : TakesApart [] [] (owned e b) := by
  cases e with
  | string s => exact (takes_ownedLiteral s).apart
  | _ => exact h

theorem takes_join (h : ∀ text ∈ texts, Takes [] [] text) : Takes [] [] (String.join texts) := by
  induction texts with
  | nil => exact takes_empty
  | cons text rest ih =>
    obtain ⟨ht, hr⟩ := List.forall_mem_cons.1 h
    rw [String.join_cons]
    exact ht.append (ih hr)

theorem takesApart_arguments (h : ∀ text ∈ texts, TakesApart [] [] text) :
    TakesApart [] [] (argumentList texts) := by
  unfold argumentList
  induction texts with
  | nil => exact takes_empty.apart
  | cons text rest ih =>
    obtain ⟨ht, hr⟩ := List.forall_mem_cons.1 h
    cases rest with
    | nil => rwa [String.intercalate_singleton]
    | cons text' rest =>
      rw [String.intercalate_cons_cons, String.append_assoc]
      exact ht.append (separates_comma.append (ih hr))

theorem takes_placeholder {what : String} (h : '*' ∉ what.toList) (hn : '\n' ∉ what.toList) :
    Takes [] [] (placeholder what) := by
  have hvalue : Takes [] [] dynamicType := takes_of fun _ => ⟨_, rfl⟩
  have hcomment : Takes [] [] ("\x7b\x7d /* unsupported: " ++ what ++ " */") := by
    intro word
    refine ⟨false, ?_⟩
    have hopened : (Scanner.code word []).scanLine "\x7b\x7d /* unsupported: " =
        some ⟨.block false, []⟩ := by
      rw [Scanner.scanLine, String.toList_ofList]
      rfl
    -- Without a star in it the text does not end the comment.
    have hend : '*' ∉ what.toList ++ [' '] := by simpa using h
    have hline : '\n' ∉ what.toList ++ [' '] ++ ['*', '/'] := by simpa using hn
    have hclosed : (what.toList ++ [' '] ++ ['*', '/']).foldlM Scanner.nextInLine
        ⟨.block false, []⟩ = some (.code false []) :=
      scan_behindComment hline (behindComment_eq hend [])
    rw [String.append_assoc, scanLine_append, hopened, Option.bind_some, Scanner.scanLine,
      String.toList_append, ← hclosed, List.append_assoc]
    rfl
  have h := hvalue.append hcomment
  rwa [← String.append_assoc, ← String.append_assoc] at h

end Texts

/-- The text of an expression, and the texts that print its segments. -/
structure Rendered.Closed (r : Rendered) : Prop where
  text : TakesApart [] [] r.text
  stream : ∀ t ∈ r.stream, TakesApart [] [] t

section Expressions

variable {classes : List String} {name text : String} {arguments : List Expr}
  {texts : List Rendered}

theorem Rendered.Closed.single (h : TakesApart [] [] text) (e : Expr) :
    (Rendered.single e text).Closed where
  text := h
  stream t ht := by
    obtain rfl := List.mem_singleton.1 ht
    exact takesApart_operand h e .shift true

theorem takesApart_list (h : ∀ r ∈ texts, r.Closed) :
    TakesApart [] [] (argumentList (texts.map Rendered.text)) := by
  refine takesApart_arguments fun t ht => ?_
  obtain ⟨r, hr, rfl⟩ := List.mem_map.1 ht
  exact (h r hr).text

theorem takes_call (hn : Takes [] [] name) (h : TakesApart [] [] text) :
    Takes [] [] (name ++ "(" ++ text ++ ")") := by
  have hcall := hn.append (takes_parenthesized h)
  rwa [← String.append_assoc, ← String.append_assoc] at hcall

theorem takes_qualified {space : String} (hs : IsMemberName space) (hn : IsMemberName name) :
    Takes [] [] (mangle space ++ "::" ++ mangle name) :=
  ((takes_mangle hs).append takes_scope).append (takes_mangle hn)

theorem takesApart_member {object : Expr} (hn : IsMemberName name)
    (ho : ∀ n, object = .identifier n → IsMemberName n) (h : TakesApart [] [] text) :
    TakesApart [] [] (memberText classes object text name) := by
  have hpointed : TakesApart [] [] (operand object text .access false ++ "->" ++ mangle name) :=
    ((takesApart_operand h object .access false).append takes_arrow).append (takes_mangle hn)
  cases object with
  | identifier n =>
    by_cases hc : classes.contains n = true
    · simp only [memberText, hc, if_true]
      exact (takes_qualified (ho n rfl) hn).apart
    · simp only [memberText, hc, if_false, Bool.false_eq_true]
      exact hpointed
  | _ => exact hpointed

theorem takes_print (h : ∀ r ∈ texts, r.Closed) : Takes [] [] (printText texts) := by
  have hout : Takes [] [] "std::cout" := takes_of fun _ => ⟨_, rfl⟩
  have hend : Takes [] [] " << std::endl" := takes_of fun _ => ⟨_, rfl⟩
  have hparts : Takes [] []
      (String.join ((texts.flatMap Rendered.stream).map (" << " ++ ·))) := by
    refine takes_join fun t ht => ?_
    obtain ⟨part, hpart, rfl⟩ := List.mem_map.1 ht
    obtain ⟨r, hr, hp⟩ := List.mem_flatMap.1 hpart
    exact separates_shift.append ((h r hr).stream part hp)
  exact (hout.append hparts).append hend

theorem takes_prompt (h : ∀ r ∈ texts, r.Closed) : Takes [] [] (promptText arguments texts) := by
  unfold promptText
  split
  · next e _ r _ =>
    have hout : Separates [] [] "std::cout << " := separates_of fun _ => rfl
    have hend : Takes [] [] "; " := takes_of fun _ => ⟨_, rfl⟩
    have hr := (h r List.mem_cons_self).text
    exact (hout.append (takesApart_operand hr e .shift true)).append hend
  · exact takes_empty

theorem takes_input {prompt : String} (h : Takes [] [] prompt) :
    Takes [] [] (inputText prompt) := by
  have hhead : Takes [] [.curly, .round] "([&]() \x7b " := takes_of fun _ => ⟨_, rfl⟩
  have hread : Takes [.curly, .round] []
      "std::string vn_line; std::getline(std::cin, vn_line); return vn_line; \x7d())" :=
    takes_of fun _ => ⟨_, rfl⟩
  exact (hhead.append (h.around _)).append hread

theorem takes_system (hn : IsMemberName name) (h : ∀ r ∈ texts, r.Closed) :
    Takes [] [] (systemCall name arguments texts) := by
  unfold systemCall
  split
  · exact takes_print h
  split
  · exact takes_input (takes_prompt h)
  · have hstar : '*' ∉ name.toList := Reading.not_mem_of_inWord (Reading.inWord_of_isWord hn) rfl
    have hline : '\n' ∉ name.toList := Reading.not_mem_of_inWord (Reading.inWord_of_isWord hn) rfl
    exact takes_placeholder (by simpa using hstar) (by simpa using hline)

theorem takes_conversion (hn : IsMemberName name) (h : ∀ r ∈ texts, r.Closed) :
    Takes [] [] (conversionCall name arguments texts) := by
  have hstar : '*' ∉ name.toList := Reading.not_mem_of_inWord (Reading.inWord_of_isWord hn) rfl
  have hline : '\n' ∉ name.toList := Reading.not_mem_of_inWord (Reading.inWord_of_isWord hn) rfl
  unfold conversionCall
  split
  · exact takes_placeholder (by simp [hstar]) (by simp [hline])
  · next helper e r hh =>
    have hhelper : Takes [] [] helper :=
      takes_plain fun c hc => isPlain_of rfl ((conversionHelper_name hh).wordPart c hc)
    have hr := (h r List.mem_cons_self).text
    exact takes_call hhelper (takesApart_owned hr e)
  · have hdigits (n : Nat) : '\n' ∉ Nat.toDigits 10 n := fun h => by
      cases (Decimal.isWhole_toDigits n).2 _ h
    exact takes_placeholder (by simp [hstar, star_not_mem_toDigits]) (by simp [hline, hdigits])

theorem takesApart_call {receiver : Receiver} (hr : ∀ n ∈ receiver.names, IsMemberName n)
    (hn : IsMemberName name) (h : ∀ r ∈ texts, r.Closed) :
    TakesApart [] [] (callText classes receiver name arguments texts) := by
  have hplain := takes_call (takes_mangle hn) (takesApart_list h)
  unfold callText
  cases receiver with
  | free => exact hplain.apart
  | named n =>
    have hname := takes_mangle (hr n List.mem_cons_self)
    simp only
    split
    · exact (takes_system hn h).apart
    split
    · exact ((hname.append takes_scope).append hplain).apart
    split
    · have hreplace : Takes [] [.round] "vn_replace(" := takes_of fun _ => ⟨_, rfl⟩
      have hlist := (separates_comma.append (takesApart_list h)).around [.round]
      have hcall := ((hreplace.append (hname.around _)).append hlist).append takes_close
      rw [← String.append_assoc] at hcall
      exact hcall.apart
    · exact ((hname.append takes_arrow).append hplain).apart
  | namespaced n =>
    simp only
    split
    · exact (takes_conversion hn h).apart
    · exact (((takes_mangle (hr n List.mem_cons_self)).append takes_scope).append hplain).apart
  | self =>
    have hthis : Takes [] [] "this->" := takes_of fun _ => ⟨_, rfl⟩
    exact (hthis.append hplain).apart

theorem takes_creation {space : Option String} (hs : ∀ n ∈ space, IsMemberName n)
    (hn : IsMemberName name) (h : ∀ r ∈ texts, r.Closed) :
    Takes [] [] (creationText space name texts) := by
  have hmake : Takes [] [] "std::make_unique<" := takes_of fun _ => ⟨_, rfl⟩
  have hopen : Separates [] [.round] ">(" := separates_of fun _ => rfl
  have harguments := hopen.enclose (takesApart_list h) takes_close
  have hcall {type : String} (ht : Takes [] [] type) :
      Takes [] [] ("std::make_unique<" ++ type ++ ">(" ++
        argumentList (texts.map Rendered.text) ++ ")") := by
    have hc := (hmake.append ht).append harguments
    rwa [← String.append_assoc, ← String.append_assoc] at hc
  cases space with
  | some n => exact hcall (takes_qualified (hs n rfl) hn)
  | none => exact hcall (takes_mangle hn)

theorem takesApart_joinedTerm (h : TakesApart [] [] text) (e : Expr) :
    TakesApart [] [] (joinedTerm e text) := by
  have hconvert : TakesApart [] []
      (if e.joinsText then text else "vn_to_string(" ++ text ++ ")") := by
    split
    · exact h
    · have hopen : Separates [] [.round] "vn_to_string(" := separates_of fun _ => rfl
      exact (hopen.enclose h takes_close).apart
  cases e with
  | string s => exact (takes_ownedLiteral s).apart
  | _ => exact hconvert

theorem takesApart_binary (op : Operator) (left right : Expr) {l r : String}
    (hl : TakesApart [] [] l) (hr : TakesApart [] [] r) :
    TakesApart [] [] (binaryText op left right l r) := by
  have hplus : Separates [] [] " + " := separates_of fun _ => rfl
  unfold binaryText
  split
  · rw [String.append_assoc]
    exact (takesApart_joinedTerm hl left).append (hplus.append (takesApart_joinedTerm hr right))
  · have hop := (takesApart_operand hl left op.strength false).append
      ((separates_operator op).append (takesApart_operand hr right op.strength true))
    rwa [← String.append_assoc, ← String.append_assoc, ← String.append_assoc] at hop

end Expressions

end Cpp

open Cpp

def Expr.Named (e : Expr) : Prop := ∀ name ∈ e.names, IsMemberName name

section Named

theorem everywhere_of_mem {P : Expr → Prop} {es : List Expr} (h : EverywhereAll P es) :
    ∀ e ∈ es, e.Everywhere P := by
  induction es with
  | nil => exact List.forall_mem_nil _
  | cons e rest ih => exact List.forall_mem_cons.2 ⟨h.1, ih h.2⟩

theorem member_of_object {object : Expr} (h : object.Everywhere Expr.Named) :
    ∀ n, object = .identifier n → IsMemberName n := by
  rintro n rfl
  exact h n List.mem_cons_self

theorem Receiver.WellFormed.member {receiver : Receiver} {name : String}
    (h : receiver.WellFormed name) : ∀ n ∈ receiver.names ++ [name], IsMemberName n := by
  cases receiver with
  | free => exact List.forall_mem_singleton.2 (member_of_usable h)
  | named n =>
    refine List.forall_mem_cons.2 ⟨?_, List.forall_mem_singleton.2 h.2⟩
    obtain h | rfl := h.1
    · exact member_of_usable h
    · decide
  | namespaced n =>
    exact List.forall_mem_cons.2 ⟨member_of_usable h.1, List.forall_mem_singleton.2 h.2⟩
  | self => exact h.elim

mutual

theorem Expr.WellFormed.named : (e : Expr) → e.WellFormed → e.Everywhere Expr.Named
  | .identifier _, h => List.forall_mem_singleton.2 (member_of_usable h)
  | .integer _, _ | .float _, _ | .double _, _ | .char _, _ | .boolean _, _ | .string _, _ => nofun
  | .self, h => h.elim
  | .binary _ left right, h =>
    ⟨nofun, Expr.WellFormed.named left h.1, Expr.WellFormed.named right h.2⟩
  | .assign _ value, h =>
    ⟨List.forall_mem_singleton.2 (member_of_usable h.1), Expr.WellFormed.named value h.2⟩
  | .assignMember _ _ value, ⟨⟨_, heq, hn⟩, hm, hv⟩ => by
    subst heq
    exact ⟨List.forall_mem_singleton.2 hm, List.forall_mem_singleton.2 (member_of_usable hn),
      Expr.WellFormed.named value hv⟩
  | .call _ _ arguments, h => ⟨h.1.member, exprsWellFormed_named arguments h.2⟩
  | .namespaceMember _ _, h =>
    List.forall_mem_cons.2 ⟨member_of_usable h.1, List.forall_mem_singleton.2 h.2⟩
  | .create _ _ arguments, h =>
    ⟨List.forall_mem_append.2 ⟨fun n hn => member_of_name (h.1 n (Option.mem_toList.1 hn)),
      List.forall_mem_singleton.2 (member_of_name h.2.1)⟩, exprsWellFormed_named arguments h.2.2⟩
  | .member _ _, ⟨⟨_, heq, hn⟩, hm⟩ => by
    subst heq
    exact ⟨List.forall_mem_singleton.2 hm, List.forall_mem_singleton.2 (member_of_usable hn)⟩

theorem exprsWellFormed_named : (es : List Expr) → exprsWellFormed es →
    EverywhereAll Expr.Named es
  | [], _ => trivial
  | e :: rest, h => ⟨Expr.WellFormed.named e h.1, exprsWellFormed_named rest h.2⟩

end

variable {type : String}

theorem boundObject_named {object bound : Expr} (h : bound.Everywhere Expr.Named) :
    (boundObject object bound).Everywhere Expr.Named := by
  unfold boundObject
  split
  · split
    · exact nofun
    · exact h
  · exact h

theorem Receiver.bind_names {receiver : Receiver} (ht : IsMemberName type) {names : List String}
    (h : ∀ n ∈ receiver.names ++ names, IsMemberName n) :
    ∀ n ∈ (receiver.bind type).names ++ names, IsMemberName n := by
  cases receiver with
  | named n =>
    have hnames : ∀ n ∈ names, IsMemberName n := (List.forall_mem_append.1 h).2
    by_cases hi : n = instanceName
    · simp only [Receiver.bind, if_pos hi]
      exact hnames
    by_cases hc : n = className
    · simp only [Receiver.bind, if_neg hi, if_pos hc]
      exact List.forall_mem_cons.2 ⟨ht, hnames⟩
    · simp only [Receiver.bind, if_neg hi, if_neg hc]
      exact h
  | free | namespaced _ | self => exact h

mutual

theorem Expr.bind_named (ht : IsMemberName type) : (e : Expr) → e.Everywhere Expr.Named →
    (e.bind type).Everywhere Expr.Named
  | .identifier _, h | .integer _, h | .float _, h | .double _, h | .char _, h => h
  | .boolean _, h | .string _, h | .self, h | .namespaceMember _ _, h => h
  | .binary _ left right, h => ⟨nofun, left.bind_named ht h.2.1, right.bind_named ht h.2.2⟩
  | .assign _ value, h => ⟨h.1, value.bind_named ht h.2⟩
  | .assignMember object _ value, h =>
    ⟨h.1, boundObject_named (object.bind_named ht h.2.1), value.bind_named ht h.2.2⟩
  | .call _ _ arguments, h => ⟨Receiver.bind_names ht h.1, bindExprs_named ht arguments h.2⟩
  | .create _ _ arguments, h => ⟨h.1, bindExprs_named ht arguments h.2⟩
  | .member object _, h => ⟨h.1, boundObject_named (object.bind_named ht h.2)⟩

theorem bindExprs_named (ht : IsMemberName type) : (es : List Expr) →
    EverywhereAll Expr.Named es → EverywhereAll Expr.Named (bindExprs type es)
  | [], _ => trivial
  | e :: rest, h => ⟨e.bind_named ht h.1, bindExprs_named ht rest h.2⟩

end

end Named

section Rendering

variable (classes : List String)

mutual

theorem Expr.rendered_closed : (e : Expr) → e.Everywhere Expr.Named → (e.rendered classes).Closed
  | .identifier name, h => .single (takes_mangle (h name List.mem_cons_self)).apart _
  | .integer n, _ => .single (takes_decimal n.toInt).apart _
  | .float bits, _ => by
    have hsuffix : Takes [] [] "f" := takes_of fun _ => ⟨_, rfl⟩
    exact .single ((takes_bits .single bits.toNat).append hsuffix).apart _
  | .double bits, _ => .single (takes_bits .double bits.toNat).apart _
  | .char c, _ => .single (takesApart_quotedChar c) _
  | .boolean b, _ => by
    have htext : Takes [] [] (if b then "true" else "false") := by
      cases b <;> exact takes_of fun _ => ⟨_, rfl⟩
    exact .single htext.apart _
  | .string s, _ => .single (takesApart_quoted s) _
  | .self, _ => .single (takes_of fun _ => ⟨_, rfl⟩ : Takes [] [] "this").apart _
  | .binary op left right, h => by
    have hl := left.rendered_closed h.2.1
    have hr := right.rendered_closed h.2.2
    have htext := takesApart_binary op left right hl.text hr.text
    simp only [Expr.rendered]
    split
    · exact ⟨htext, List.forall_mem_append.2 ⟨hl.stream, hr.stream⟩⟩
    · exact .single htext _
  | .assign name value, h => by
    have hsign : Separates [] [] " = " := separates_of fun _ => rfl
    have hname := takes_mangle (h.1 name List.mem_cons_self)
    have htext := hname.append (hsign.append (value.rendered_closed h.2).text)
    rw [← String.append_assoc] at htext
    exact .single htext.apart _
  | .assignMember object member value, h => by
    have hsign : Separates [] [] " = " := separates_of fun _ => rfl
    have hobject := (object.rendered_closed h.2.1).text
    have hmember : TakesApart [] []
        (memberText classes object (object.rendered classes).text member) :=
      takesApart_member (h.1 member List.mem_cons_self) (member_of_object h.2.1) hobject
    have htext := hmember.append (hsign.append (value.rendered_closed h.2.2).text)
    rw [← String.append_assoc] at htext
    exact .single htext _
  | .call receiver name arguments, h => by
    obtain ⟨hr, hn⟩ := List.forall_mem_append.1 h.1
    exact .single (takesApart_call hr (List.forall_mem_singleton.1 hn)
      (renderedAll_closed arguments h.2)) _
  | .namespaceMember space member, h =>
    .single (takes_qualified (h space List.mem_cons_self)
      (h member (List.mem_cons_of_mem _ List.mem_cons_self))).apart _
  | .create space type arguments, h => by
    obtain ⟨hs, hn⟩ := List.forall_mem_append.1 h.1
    exact .single (takes_creation (fun n hn => hs n (Option.mem_toList.2 hn))
      (List.forall_mem_singleton.1 hn) (renderedAll_closed arguments h.2)).apart _
  | .member object name, h =>
    .single (takesApart_member (h.1 name List.mem_cons_self) (member_of_object h.2)
      (object.rendered_closed h.2).text) _

theorem renderedAll_closed : (es : List Expr) → EverywhereAll Expr.Named es →
    ∀ r ∈ renderedAll classes es, r.Closed
  | [], _ => nofun
  | e :: rest, h => List.forall_mem_cons.2 ⟨e.rendered_closed h.1, renderedAll_closed rest h.2⟩

end

variable {e : Expr} (h : e.Everywhere Expr.Named)

include h

theorem Expr.cpp_closed : TakesApart [] [] (e.cpp classes) := (e.rendered_closed classes h).text

theorem Expr.ownedCpp_closed : TakesApart [] [] (e.ownedCpp classes) :=
  takesApart_owned (e.cpp_closed classes h) e

end Rendering

end VnScript
