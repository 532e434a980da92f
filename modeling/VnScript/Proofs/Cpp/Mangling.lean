import VnScript.Proofs.Cpp.EntryPoint
import VnScript.Proofs.Token.Layout

namespace VnScript

theorem isName_of_token {source : String} {tokens : List Token} {t : Token}
    (h : tokenize source = .ok tokens) (ht : t ∈ tokens) (hk : t.kind = .identifier) :
    IsName t.lexeme := by
  obtain ⟨ts, ts', rfl⟩ := List.append_of_mem ht
  obtain ⟨before, gap, text, after, hlies, -⟩ := (layout_of_tokenize h).lies rfl
  obtain hs | ⟨hend, -⟩ := hlies.spelling
  · rw [hk] at hs
    exact hs.identifier_word
  · rw [hk] at hend
    cases hend

namespace Cpp

def keywords : List String :=
  ["alignas", "alignof", "asm", "auto", "bool", "break", "case", "catch", "char", "char16_t",
    "char32_t", "class", "const", "constexpr", "const_cast", "continue", "decltype", "default",
    "delete", "do", "double", "dynamic_cast", "else", "enum", "explicit", "export", "extern",
    "false", "float", "for", "friend", "goto", "if", "inline", "int", "long", "mutable",
    "namespace", "new", "noexcept", "nullptr", "operator", "private", "protected", "public",
    "register", "reinterpret_cast", "return", "short", "signed", "sizeof", "static",
    "static_assert", "static_cast", "struct", "switch", "template", "this", "thread_local",
    "throw", "true", "try", "typedef", "typeid", "typename", "union", "unsigned", "using",
    "virtual", "void", "volatile", "wchar_t", "while"]

/-- The words that no name may have: keywords, and words that stand for signs. -/
def taken : List String := keywords ++ wordSigns.map Prod.fst

/-- Taken words that are neither in the table of reserved words nor keywords of the source. -/
def unlisted : List String :=
  ["char16_t", "char32_t", "const_cast", "decltype", "dynamic_cast", "reinterpret_cast",
    "static_assert", "static_cast", "thread_local", "wchar_t", "and", "or", "not_eq", "not", "xor",
    "bitand", "bitor", "compl", "and_eq", "or_eq", "xor_eq"]

/-- A letter, then letters, digits and underscores. -/
def IsPlainWord (text : String) : Prop :=
  ∃ c cs, text.toList = c :: cs ∧ c.isAlpha ∧ ∀ d ∈ cs, d.isAlphanum ∨ d = '_'

section Words

variable {name other text : String}

/-- A taken word is reserved, or overlooked, or a keyword of the source that no dash changes. -/
theorem taken_cases : ∀ w ∈ taken, w ∈ reserved ∨ w ∈ unlisted ∨
    '_' ∉ w.toList ∧ Keyword.lookup? w ≠ none := by
  decide +kernel

theorem not_underscored : ∀ w ∈ taken ++ reserved, w.toList.getLast? ≠ some '_' := by
  decide +kernel

theorem underscored_not_mem (text : String) : text ++ "_" ∉ taken ++ reserved := fun h =>
  not_underscored _ h (by simp)

theorem mangle_of_reserved (h : dashless name ∈ reserved) : mangle name = dashless name ++ "_" :=
  if_pos (List.contains_iff_mem.2 h)

theorem mangle_of_not_reserved (h : dashless name ∉ reserved) : mangle name = dashless name :=
  if_neg (mt List.contains_iff_mem.1 h)

theorem IsPlainWord.underscored (h : IsPlainWord text) : IsPlainWord (text ++ "_") := by
  obtain ⟨c, cs, htext, hc, hcs⟩ := h
  refine ⟨c, cs ++ ['_'], ?_, hc, ?_⟩
  · simp [htext]
  · exact List.forall_mem_append.2 ⟨hcs, List.forall_mem_singleton.2 (.inr rfl)⟩

theorem dashless_plain (h : IsMemberName name) : IsPlainWord (dashless name) := by
  obtain ⟨c, cs, hname, hc, hcs⟩ := h
  have hdash : c ≠ '-' := by
    rintro rfl
    cases hc
  refine ⟨c, cs.map fun d => if d = '-' then '_' else d, ?_, hc, ?_⟩
  · rw [dashless, String.toList_ofList, hname, List.map_cons, if_neg hdash]
  · intro d hd
    obtain ⟨d', hd', rfl⟩ := List.mem_map.1 hd
    split
    · exact .inr rfl
    · next hne =>
      have hword := hcs d' hd'
      simpa [Reading.inWord, hne] using hword

theorem mangle_plain (h : IsMemberName name) : IsPlainWord (mangle name) := by
  by_cases hr : dashless name ∈ reserved
  · rw [mangle_of_reserved hr]
    exact (dashless_plain h).underscored
  · rw [mangle_of_not_reserved hr]
    exact dashless_plain h

theorem mangle_not_taken (h : IsName name) (hu : dashless name ∉ unlisted) :
    mangle name ∉ taken := by
  by_cases hr : dashless name ∈ reserved
  · rw [mangle_of_reserved hr]
    exact fun ht => underscored_not_mem _ (List.mem_append_left _ ht)
  · rw [mangle_of_not_reserved hr]
    intro ht
    obtain hr' | hu' | ⟨hplain, hkeyword⟩ := taken_cases _ ht
    · exact hr hr'
    · exact hu hu'
    · rw [dashless_eq_self hplain] at hkeyword
      have hnone := h.2
      rw [String.ofList_toList] at hnone
      exact hkeyword hnone

/-- Two names become one if they differ in dashes only, or if one is reserved and the other is that
word with an underscore or a dash behind it. -/
theorem mangle_eq_iff : mangle name = mangle other ↔
    dashless name = dashless other ∨
      (dashless name ∈ reserved ∧ dashless other = dashless name ++ "_") ∨
      (dashless other ∈ reserved ∧ dashless name = dashless other ++ "_") := by
  -- What has an underscore behind it is not reserved, so it is left as it is.
  have hfree (text : String) : text ++ "_" ∉ reserved := fun h =>
    underscored_not_mem text (List.mem_append_right _ h)
  constructor
  · intro h
    by_cases hn : dashless name ∈ reserved
    · rw [mangle_of_reserved hn] at h
      by_cases ho : dashless other ∈ reserved
      · rw [mangle_of_reserved ho] at h
        exact .inl (String.append_left_inj _ |>.1 h)
      · rw [mangle_of_not_reserved ho] at h
        exact .inr (.inl ⟨hn, h.symm⟩)
    · rw [mangle_of_not_reserved hn] at h
      by_cases ho : dashless other ∈ reserved
      · rw [mangle_of_reserved ho] at h
        exact .inr (.inr ⟨ho, h⟩)
      · rw [mangle_of_not_reserved ho] at h
        exact .inl h
  · rintro (h | ⟨hn, ho⟩ | ⟨ho, hn⟩)
    · rw [mangle, mangle, h]
    · rw [mangle_of_reserved hn, mangle_of_not_reserved (ho ▸ hfree _), ho]
    · rw [mangle_of_reserved ho, mangle_of_not_reserved (hn ▸ hfree _), hn]

end Words

/-- The C++ name of an identifier is a letter with letters, digits and underscores behind it, and
none of the words that C++ takes, if its dashless form is not one of those that the table leaves
out. Another name becomes the same one only if it differs in dashes, or in an underscore or a dash
behind a reserved word. -/
theorem mangle_identifiers {source : String} {tokens : List Token} {t : Token}
    (h : tokenize source = .ok tokens) (ht : t ∈ tokens) (hk : t.kind = .identifier)
    (other : String) :
    IsPlainWord (mangle t.lexeme) ∧
      (dashless t.lexeme ∉ unlisted → mangle t.lexeme ∉ taken) ∧
      (mangle t.lexeme = mangle other ↔
        dashless t.lexeme = dashless other ∨
          (dashless t.lexeme ∈ reserved ∧ dashless other = dashless t.lexeme ++ "_") ∨
          (dashless other ∈ reserved ∧ dashless t.lexeme = dashless other ++ "_")) := by
  have hname := isName_of_token h ht hk
  exact ⟨mangle_plain (member_of_name hname), mangle_not_taken hname, mangle_eq_iff⟩

theorem mangle_identifiers_volatile :
    let t : Token := ⟨.identifier, "volatile", ⟨⟨1, 1⟩, 0⟩, 8⟩
    tokenize "volatile" = .ok [t, ⟨.endOfFile, "", ⟨⟨1, 9⟩, 8⟩, 8⟩] ∧ t.kind = .identifier ∧
      dashless t.lexeme ∉ unlisted ∧ mangle t.lexeme ∉ taken ∧
      mangle t.lexeme = mangle "volatile-" := by
  intro t
  have h : tokenize "volatile" = .ok [t, ⟨.endOfFile, "", ⟨⟨1, 9⟩, 8⟩, 8⟩] := by decide +kernel
  have hunlisted : dashless t.lexeme ∉ unlisted := by decide +kernel
  obtain ⟨-, hfree, hsame⟩ := mangle_identifiers h List.mem_cons_self rfl "volatile-"
  exact ⟨h, rfl, hunlisted, hfree hunlisted, hsame.2 (by decide +kernel)⟩

/-- Two variables that become one, and a name that is a sign in C++. -/
theorem mangle_collision :
    ∃ tokens t u v, tokenize "a-b a_b and" = .ok tokens ∧ t ∈ tokens ∧ u ∈ tokens ∧ v ∈ tokens ∧
      t.kind = .identifier ∧ u.kind = .identifier ∧ v.kind = .identifier ∧
      t.lexeme ≠ u.lexeme ∧ mangle t.lexeme = mangle u.lexeme ∧
      mangle v.lexeme ∈ wordSigns.map Prod.fst := by
  refine ⟨[⟨.identifier, "a-b", ⟨⟨1, 1⟩, 0⟩, 3⟩, ⟨.identifier, "a_b", ⟨⟨1, 5⟩, 4⟩, 7⟩,
    ⟨.identifier, "and", ⟨⟨1, 9⟩, 8⟩, 11⟩, ⟨.endOfFile, "", ⟨⟨1, 12⟩, 11⟩, 11⟩],
    ⟨.identifier, "a-b", ⟨⟨1, 1⟩, 0⟩, 3⟩, ⟨.identifier, "a_b", ⟨⟨1, 5⟩, 4⟩, 7⟩,
    ⟨.identifier, "and", ⟨⟨1, 9⟩, 8⟩, 11⟩, ?_⟩
  decide +kernel

end Cpp

end VnScript
