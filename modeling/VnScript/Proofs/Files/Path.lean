import Mathlib.Data.List.Induction
import Mathlib.Data.List.TakeWhile
import VnScript.Files.Path
import VnScript.Files.Tree

namespace VnScript

namespace Text

theorem split_eq_splitOn (separator : Char) (cs : List Char) :
    split separator cs = cs.splitOn separator := by
  induction cs with
  | nil => rfl
  | cons c cs ih =>
    rw [List.splitOn, List.splitOnP_cons_eq_if_modifyHead, ← List.splitOn, ← ih, split]
    cases hs : split separator cs with
    | nil =>
      rw [ih] at hs
      exact absurd hs (List.splitOnP_ne_nil _ _)
    | cons part parts => by_cases hc : c = separator <;> simp [hc]

theorem split_append (separator : Char) (cs ds : List Char) :
    split separator (cs ++ separator :: ds) = split separator cs ++ split separator ds := by
  simp only [split_eq_splitOn, List.splitOn]
  exact List.splitOnP_append_cons cs ds BEq.rfl

theorem split_of_not_mem {separator : Char} {cs : List Char} (h : separator ∉ cs) :
    split separator cs = [cs] := by
  rw [split_eq_splitOn, List.splitOn_eq_singleton h]

end Text

namespace Path

/-- The name of a file: it is not empty, no sign for a directory, and holds no separator. -/
structure IsFileName (name : List Char) : Prop where
  not_sign : name ∉ [[], ['.'], ['.', '.']]
  separator_not_mem : '/' ∉ name

theorem IsFileName.ne_nil {name : List Char} (h : IsFileName name) : name ≠ [] :=
  fun hnil => h.not_sign (by simp [hnil])

theorem IsFileName.ne_point {name : List Char} (h : IsFileName name) : name ≠ ['.'] :=
  fun hpoint => h.not_sign (by simp [hpoint])

/-- What may stand before a name in a path. -/
def IsFront (front : List Char) : Prop := front = [] ∨ front.getLast? = some '/'

/-- What may follow the last name of a path and names nothing. -/
inductive IsTail : List Char → Prop
  | nil : IsTail []
  | separator {tail : List Char} (h : IsTail tail) : IsTail (tail ++ ['/'])
  | point {tail : List Char} (h : IsTail tail) : IsTail (tail ++ ['/', '.'])

/-- A path that leads to a name, with what stands before it and behind it. -/
structure Named (path front name tail : List Char) : Prop where
  path_eq : path = front ++ name ++ tail
  front : IsFront front
  name : IsFileName name
  tail : IsTail tail

section Names

variable {front name path tail : List Char}

theorem bne_of_mem_reverse {c : Char} {cs : List Char} (h : c ∉ cs) :
    ∀ d ∈ cs.reverse, (d != c) = true := by
  intro d hd
  have hne : d ≠ c := fun heq => h (heq ▸ List.mem_reverse.1 hd)
  simpa using hne

theorem isFront_append_separator (front : List Char) : IsFront (front ++ ['/']) :=
  Or.inr List.getLast?_concat

theorem trimReversed_name (h : IsFileName name) (before : List Char) :
    trimReversed (name.reverse ++ before) = name.reverse ++ before := by
  have hsep : '/' ∉ name.reverse := fun hm => h.separator_not_mem (List.mem_reverse.1 hm)
  have hnil : name.reverse ≠ [] := fun hr => h.ne_nil (List.reverse_eq_nil_iff.1 hr)
  have hdot : name.reverse ≠ ['.'] := fun hr => h.ne_point (List.reverse_eq_iff.1 hr)
  generalize name.reverse = cs at hsep hnil hdot
  match cs with
  | [] => exact absurd rfl hnil
  | [c] =>
    simp only [List.mem_singleton] at hsep
    have hc : c ≠ '.' := fun hc => hdot (by rw [hc])
    exact trimReversed.eq_3 _ (by simp [Ne.symm hsep]) (by simp [hc])
  | c :: d :: rest =>
    simp only [List.mem_cons, not_or] at hsep
    exact trimReversed.eq_3 _ (by simp [Ne.symm hsep.1]) (by simp [Ne.symm hsep.2.1])

theorem trimReversed_tail (h : IsTail tail) (before : List Char) :
    trimReversed (tail.reverse ++ before) = trimReversed before := by
  induction h with
  | nil => rfl
  | separator _ ih | point _ ih => simpa [trimReversed] using ih

theorem exists_tail (cs : List Char) :
    ∃ tail, IsTail tail ∧ cs = tail.reverse ++ trimReversed cs := by
  fun_induction trimReversed cs with
  | case1 rest ih =>
    obtain ⟨tail, htail, heq⟩ := ih
    exact ⟨tail ++ ['/'], .separator htail, by simpa using heq⟩
  | case2 rest ih =>
    obtain ⟨tail, htail, heq⟩ := ih
    exact ⟨tail ++ ['/', '.'], .point htail, by simpa using heq⟩
  | case3 cs => exact ⟨[], .nil, rfl⟩

theorem IsTail.take (h : IsTail tail) (n : Nat) : IsTail (tail.take n) := by
  induction h with
  | nil => simpa using IsTail.nil
  | @separator tail h ih =>
    by_cases hn : n ≤ tail.length
    · rwa [List.take_append_of_le_length hn]
    · rw [List.take_of_length_le (by simp; omega)]
      exact .separator h
  | @point tail h ih =>
    by_cases hn : n ≤ tail.length
    · rwa [List.take_append_of_le_length hn]
    · by_cases hone : n = tail.length + 1
      · subst hone
        rw [List.take_length_add_append]
        exact .separator h
      · rw [List.take_of_length_le (by simp; omega)]
        exact .point h

theorem IsTail.eq_nil_or_separator (h : IsTail tail) : tail = [] ∨ ∃ rest, tail = '/' :: rest := by
  induction h with
  | nil => exact Or.inl rfl
  | separator _ ih | point _ ih =>
    obtain rfl | ⟨rest, rfl⟩ := ih
    · exact Or.inr ⟨_, rfl⟩
    · exact Or.inr ⟨_, rfl⟩

theorem notSeparator_eq_false {c : Char} : notSeparator c = false ↔ c = '/' := by
  simp [notSeparator]

theorem IsFront.reverse (h : IsFront front) : front.reverse.takeWhile notSeparator = [] ∧
    front.reverse.dropWhile notSeparator = front.reverse := by
  obtain rfl | hlast := h
  · exact ⟨rfl, rfl⟩
  · rw [← List.head?_reverse] at hlast
    obtain ⟨rest, hrest⟩ := List.head?_eq_some_iff.1 hlast
    rw [hrest]
    exact ⟨rfl, rfl⟩

theorem splitName?_append (hfront : IsFront front) (hname : IsFileName name) :
    splitName? (front ++ name) = some (front, name) := by
  have hin : ∀ c ∈ name.reverse, notSeparator c := bne_of_mem_reverse hname.separator_not_mem
  have hsign := hname.not_sign
  simp only [List.mem_cons, List.not_mem_nil, or_false] at hsign
  rw [splitName?, List.reverse_append, trimReversed_name hname,
    List.takeWhile_append_of_pos hin, List.dropWhile_append_of_pos hin, hfront.reverse.1,
    hfront.reverse.2]
  simp only [List.append_nil, List.reverse_reverse, if_neg hsign]

theorem Named.splitName?_eq (h : Named path front name tail) :
    splitName? path = some (front, name) := by
  obtain ⟨rfl, hfront, hname, htail⟩ := h
  rw [← splitName?_append hfront hname, splitName?, splitName?, List.reverse_append,
    trimReversed_tail htail]

theorem named_append (hfront : IsFront front) (hname : IsFileName name) :
    Named (front ++ name) front name [] :=
  ⟨(List.append_nil _).symm, hfront, hname, .nil⟩

theorem exists_front (path : List Char) :
    ∃ front name, path = front ++ name ∧ IsFront front ∧ '/' ∉ name := by
  induction path using List.reverseRecOn with
  | nil => exact ⟨[], [], rfl, Or.inl rfl, List.not_mem_nil⟩
  | append_singleton path c ih =>
    by_cases hc : c = '/'
    · subst hc
      exact ⟨path ++ ['/'], [], by simp, isFront_append_separator path, List.not_mem_nil⟩
    · obtain ⟨front, name, rfl, hfront, hname⟩ := ih
      exact ⟨front, name ++ [c], by simp, hfront, by simp [hname, Ne.symm hc]⟩

theorem exists_named (h : splitName? path = some (front, name)) :
    ∃ tail, Named path front name tail := by
  simp only [splitName?] at h
  split at h
  · cases h
  · next hsign =>
    obtain ⟨rfl, rfl⟩ := Prod.mk.inj (Option.some.inj h)
    obtain ⟨tail, htail, hpath⟩ := exists_tail path.reverse
    refine ⟨tail, ?_, ?_, ⟨by simpa using hsign, fun hsep => ?_⟩, htail⟩
    · rw [← List.reverse_append, List.takeWhile_append_dropWhile, ← List.reverse_inj, hpath,
        List.reverse_append, List.reverse_reverse]
      simp [← hpath]
    · rw [IsFront, List.reverse_eq_nil_iff, List.getLast?_reverse]
      cases hd : (trimReversed path.reverse).dropWhile notSeparator with
      | nil => exact Or.inl rfl
      | cons c rest =>
        have hc := List.head?_dropWhile_not notSeparator (trimReversed path.reverse)
        rw [hd] at hc
        exact Or.inr (congrArg some (notSeparator_eq_false.1 hc))
    · exact absurd (List.mem_takeWhile_imp (List.mem_reverse.1 hsep)) (by decide)

theorem splitName?_above (hfront : IsFront front) : splitName? (front ++ ['.', '.']) = none := by
  rw [splitName?, List.reverse_append]
  change (if _ then _ else _) = _
  rw [if_pos]
  refine Or.inr (Or.inr ?_)
  change (['.', '.'] ++ front.reverse.takeWhile notSeparator).reverse = _
  rw [hfront.reverse.1]
  rfl

end Names

section Extensions

variable {front name path tail s old ext : List Char}

theorem extension?_append (hs : s ≠ []) (hext : '.' ∉ ext) :
    extension? (s ++ '.' :: ext) = some ext ∧ stem (s ++ '.' :: ext) = s := by
  have hin := bne_of_mem_reverse hext
  have hr : (s ++ '.' :: ext).reverse = ext.reverse ++ '.' :: s.reverse := by simp
  have hdrop : ('.' :: s.reverse).dropWhile (· != '.') = '.' :: s.reverse := rfl
  have htake : ('.' :: s.reverse).takeWhile (· != '.') = [] := rfl
  obtain ⟨c, rest, hrest⟩ := List.exists_cons_of_ne_nil (mt List.reverse_eq_nil_iff.1 hs)
  rw [extension?, stem, hr, List.takeWhile_append_of_pos hin, List.dropWhile_append_of_pos hin,
    htake, hdrop, hrest]
  simp [← hrest]

/-- A name without a point, but perhaps at its start, has none, and keeps all of itself. -/
theorem extension?_eq_none (h : '.' ∉ name.tail) : extension? name = none ∧ stem name = name := by
  cases name with
  | nil => exact ⟨rfl, rfl⟩
  | cons c rest =>
    have hin := bne_of_mem_reverse h
    rw [List.tail_cons] at hin
    rw [extension?, stem, List.reverse_cons, List.dropWhile_append_of_pos hin]
    by_cases hc : c = '.' <;> simp [hc]

theorem extension_cases (name : List Char) :
    '.' ∉ name.tail ∨ ∃ s ext, name = s ++ '.' :: ext ∧ s ≠ [] ∧ '.' ∉ ext := by
  refine or_iff_not_imp_left.2 fun h => ?_
  -- The last point is the first one from behind.
  obtain ⟨last, before, hlast, hnot⟩ := List.eq_append_cons_of_mem (List.mem_reverse.2 (not_not.1 h))
  have htail : name.tail = before.reverse ++ '.' :: last.reverse := by
    rw [← List.reverse_inj, hlast]
    simp
  cases name with
  | nil => simp at h
  | cons c rest =>
    refine ⟨c :: before.reverse, last.reverse, ?_, List.cons_ne_nil _ _, by simpa using hnot⟩
    rw [List.cons_append, ← htail, List.tail_cons]

/-- An extension with its point. None is written if it is empty. -/
def dotted (ext : List Char) : List Char := if ext.isEmpty then [] else '.' :: ext

theorem dotted_eq (h : ext ≠ []) : dotted ext = '.' :: ext := by
  rw [dotted, if_neg (by simpa using h)]

theorem withExtensionChars_named (h : Named path front name tail) (ext : List Char) :
    withExtensionChars ext path = front ++ stem name ++ dotted ext := by
  rw [withExtensionChars, h.splitName?_eq]
  rfl

def replaceChars (ext path : List Char) : List Char := withExtensionChars ext (cutExtension path)

theorem replace_of_none (h : Named path front name tail) (hnone : '.' ∉ name.tail)
    (ext : List Char) : replaceChars ext path = front ++ name ++ dotted ext := by
  obtain ⟨hext, hstem⟩ := extension?_eq_none hnone
  have hcut : cutExtension path = path := by simp [cutExtension, h.splitName?_eq, hext]
  rw [replaceChars, hcut, withExtensionChars_named h, hstem]

/-- As many characters are cut off as the extension has, also where it does not stand last. -/
theorem cutExtension_named (h : Named path front (s ++ '.' :: old) tail) (hs : s ≠ [])
    (hold : '.' ∉ old) : cutExtension path = front ++ (s ++ '.' :: old.take tail.length) ++
      tail.take (tail.length - old.length) := by
  have hpath : path = (front ++ s ++ ['.']) ++ (old ++ tail) := by
    rw [h.path_eq]
    simp
  have hlen : path.length - old.length = (front ++ s ++ ['.']).length + tail.length := by
    simp only [hpath, List.length_append]
    omega
  rw [cutExtension, h.splitName?_eq]
  simp only [Option.bind_some, (extension?_append hs hold).1]
  rw [hlen, hpath, List.take_length_add_append, List.take_append]
  simp

theorem replace_of_some (h : Named path front (s ++ '.' :: old) tail) (hs : s ≠ [])
    (hpoint : s = ['.'] → tail ≠ []) (hold : '.' ∉ old) (new : List Char) :
    replaceChars new path = front ++ s ++ dotted new := by
  have hsign : s ++ '.' :: old.take tail.length ∉ [[], ['.'], ['.', '.']] := by
    intro hmem
    -- Only a point and nothing behind the second one could be left of a sign.
    obtain ⟨rfl, hnil⟩ : s = ['.'] ∧ old.take tail.length = [] := by
      cases s with
      | nil => exact absurd rfl hs
      | cons c rest => cases rest <;> simp_all
    obtain hnil | hnil := List.take_eq_nil_iff.1 hnil
    · exact hpoint rfl (List.length_eq_zero_iff.1 hnil)
    · subst hnil
      exact h.name.not_sign (by simp)
  have hname : IsFileName (s ++ '.' :: old.take tail.length) := by
    refine ⟨hsign, fun hsep => h.name.separator_not_mem ?_⟩
    rw [List.mem_append, List.mem_cons] at hsep ⊢
    exact hsep.imp_right fun hsep => hsep.imp_right List.mem_of_mem_take
  have hcut : Named (cutExtension path) front (s ++ '.' :: old.take tail.length)
      (tail.take (tail.length - old.length)) :=
    ⟨cutExtension_named h hs hold, h.front, hname, h.tail.take _⟩
  have hin : '.' ∉ old.take tail.length := fun hm => hold (List.mem_of_mem_take hm)
  rw [replaceChars, withExtensionChars_named hcut, (extension?_append hs hin).2]

theorem replace_nil_of_some (hfront : IsFront front) (hname : IsFileName (s ++ '.' :: old))
    (hs : s ≠ []) (hdot : s ≠ ['.']) (hold : '.' ∉ old) :
    replaceChars [] (front ++ (s ++ '.' :: old)) = front ++ s :=
  (replace_of_some (named_append hfront hname) hs (absurd · hdot) hold []).trans (List.append_nil _)

/-- Nothing but a sign for the directory above is left of a name with two points before its
extension. -/
theorem replace_above (hfront : IsFront front) (hname : IsFileName ('.' :: '.' :: old))
    (hold : '.' ∉ old) (new : List Char) :
    replaceChars new (front ++ '.' :: '.' :: old) = front ++ ['.', '.'] := by
  have hcut := cutExtension_named (s := ['.']) (named_append hfront hname) (List.cons_ne_nil _ _) hold
  rw [List.length_nil, List.take_zero, List.take_nil, List.append_nil] at hcut
  change cutExtension (front ++ '.' :: '.' :: old) = front ++ ['.', '.'] at hcut
  rw [replaceChars, hcut, withExtensionChars, splitName?_above hfront]

theorem replace_of_unnamed (h : splitName? path = none) :
    replaceChars ext path = path := by
  have hcut : cutExtension path = path := by
    rw [cutExtension, h]
    rfl
  rw [replaceChars, hcut, withExtensionChars, h]

/-- What becomes of a name, with a tail behind it, that is given an extension. -/
inductive Renamed (ext : List Char) : List Char → List Char → List Char → Prop
  | added {name tail : List Char} (h : '.' ∉ name.tail) : Renamed ext name tail (name ++ '.' :: ext)
  | replaced {s old tail : List Char} (hs : s ≠ []) (hpoint : s = ['.'] → tail ≠ [])
      (hold : '.' ∉ old) : Renamed ext (s ++ '.' :: old) tail (s ++ '.' :: ext)
  | above {old : List Char} (hold : '.' ∉ old) : Renamed ext ('.' :: '.' :: old) [] ['.', '.']

theorem Renamed.replaceChars_eq {new : List Char} (h : Renamed ext name tail new)
    (hnamed : Named path front name tail) (hne : ext ≠ []) : replaceChars ext path = front ++ new := by
  cases h with
  | added h => rw [replace_of_none hnamed h, dotted_eq hne, List.append_assoc]
  | replaced hs hpoint hold =>
    rw [replace_of_some hnamed hs hpoint hold, dotted_eq hne, List.append_assoc]
  | above hold =>
    obtain ⟨rfl, hfront, hname, -⟩ := hnamed
    rw [List.append_nil, replace_above hfront hname hold]

theorem exists_renamed (ext name tail : List Char) : ∃ new, Renamed ext name tail new := by
  obtain h | ⟨s, old, rfl, hs, hold⟩ := extension_cases name
  · exact ⟨_, .added h⟩
  · by_cases hpoint : s = ['.'] → tail ≠ []
    · exact ⟨_, .replaced hs hpoint hold⟩
    · obtain ⟨rfl, htail⟩ := Classical.not_imp.1 hpoint
      obtain rfl := not_not.1 htail
      exact ⟨_, .above hold⟩

/-- The extension stands behind something that is more than a point. -/
def EndsIn (ext name : List Char) : Prop := ∃ s, name = s ++ '.' :: ext ∧ s ≠ [] ∧ s ≠ ['.']

theorem isFileName_extended (hs : s ≠ []) (hne : ext ≠ []) (hsep : '/' ∉ s) (hsep' : '/' ∉ ext) :
    IsFileName (s ++ '.' :: ext) := by
  refine ⟨fun hsign => ?_, by simp [hsep, hsep']⟩
  have hlen : (s ++ '.' :: ext).length ≤ 2 := by
    simp only [List.mem_cons, List.not_mem_nil, or_false] at hsign
    obtain h | h | h := hsign <;> simp [h]
  have hpos := List.length_pos_iff.2 hs
  have hpos' := List.length_pos_iff.2 hne
  simp only [List.length_append, List.length_cons] at hlen
  omega

/-- The name at the end of a path has this extension. -/
def HasExtension (ext path : List Char) : Prop :=
  ∃ front name, path = front ++ name ∧ IsFront front ∧ IsFileName name ∧ EndsIn ext name

theorem hasExtension_append (hfront : IsFront front) (hname : IsFileName name) :
    HasExtension ext (front ++ name) ↔ EndsIn ext name := by
  constructor
  · rintro ⟨front', name', heq, hfront', hname', hends⟩
    have hsplit := splitName?_append hfront hname
    rw [heq, splitName?_append hfront' hname'] at hsplit
    obtain ⟨-, rfl⟩ := Prod.mk.inj (Option.some.inj hsplit)
    exact hends
  · exact fun hends => ⟨front, name, rfl, hfront, hname, hends⟩

/-- To give a path an extension changes nothing if it names no file, or one that has the
extension already. -/
theorem replace_eq_self_iff (hne : ext ≠ []) (hext : '.' ∉ ext) (hsep : '/' ∉ ext) :
    replaceChars ext path = path ↔
      splitName? path = none ∨ HasExtension ext path := by
  constructor
  · intro h
    refine or_iff_not_imp_left.2 fun hsome => ?_
    obtain ⟨⟨front, name⟩, hsplit⟩ := Option.ne_none_iff_exists'.1 hsome
    obtain ⟨tail, hnamed⟩ := exists_named hsplit
    obtain ⟨new, hnew⟩ := exists_renamed ext name tail
    rw [hnew.replaceChars_eq hnamed hne, hnamed.path_eq, List.append_assoc,
      List.append_cancel_left_eq] at h
    have htail := hnamed.tail.eq_nil_or_separator
    cases hnew with
    | added hnone =>
      obtain rfl := List.append_cancel_left h
      simp at htail
    | @replaced s old tail hs hpoint hold =>
      obtain rfl : ext = old ++ tail := by simpa using h
      obtain rfl | ⟨rest, rfl⟩ := htail
      · exact ⟨front, _, hnamed.path_eq.trans (List.append_nil _), hnamed.front, hnamed.name, s,
          by simp, hs, fun hdot => hpoint hdot rfl⟩
      · simp at hsep
    | above hold =>
      obtain rfl : _ = [] := by simpa using h.symm
      exact absurd (by simp) hnamed.name.not_sign
  · rintro (hnone | ⟨front, name, rfl, hfront, hname, s, rfl, hs, hdot⟩)
    · exact replace_of_unnamed hnone
    · rw [replace_of_some (named_append hfront hname) hs (absurd · hdot) hext, dotted_eq hne,
        List.append_assoc]

/-- A name that a path to a file may end in: that of a file, or the sign for the directory
above. -/
def IsLast (name : List Char) : Prop := IsFileName name ∨ name = ['.', '.']

theorem IsLast.separator_not_mem (h : IsLast name) : '/' ∉ name := by
  obtain h | rfl := h
  · exact h.separator_not_mem
  · decide

theorem isLast_dotted (hs : s ≠ []) (hdot : s ≠ ['.']) (hsep : '/' ∉ s) (hsep' : '/' ∉ ext) :
    IsLast (s ++ dotted ext) := by
  by_cases hne : ext = []
  · subst hne
    change IsLast (s ++ [])
    rw [List.append_nil]
    by_cases habove : s = ['.', '.']
    · exact Or.inr habove
    · exact Or.inl ⟨by simp [hs, hdot, habove], hsep⟩
  · rw [dotted_eq hne]
    exact Or.inl (isFileName_extended hs hne hsep hsep')

theorem replace_front (hfront : IsFront front) (hlast : IsLast name) (hsep : '/' ∉ ext) :
    ∃ last, replaceChars ext (front ++ name) = front ++ last ∧
      IsLast last := by
  obtain hname | rfl := hlast
  · obtain hnone | ⟨s, old, rfl, hs, hold⟩ := extension_cases name
    · refine ⟨name ++ dotted ext, ?_,
        isLast_dotted hname.ne_nil hname.ne_point hname.separator_not_mem hsep⟩
      rw [replace_of_none (named_append hfront hname) hnone, List.append_assoc]
    · by_cases hdot : s = ['.']
      · subst hdot
        exact ⟨_, replace_above hfront hname hold ext, Or.inr rfl⟩
      · have hs' : '/' ∉ s := fun h => hname.separator_not_mem (List.mem_append_left _ h)
        refine ⟨s ++ dotted ext, ?_, isLast_dotted hs hdot hs' hsep⟩
        rw [replace_of_some (named_append hfront hname) hs (absurd · hdot) hold, List.append_assoc]
  · exact ⟨_, replace_of_unnamed (splitName?_above hfront), Or.inr rfl⟩

/-- A name that changes when its extension is taken off, and again when what is left gets another
one, but not back: what is left is the name of a file and has not got the other extension already,
and if that is the one taken off, then what is left has one too. -/
def Changes (ext name : List Char) : Prop :=
  ∃ s old, name = s ++ '.' :: old ∧ '.' ∉ old ∧ IsFileName s ∧ ¬ EndsIn ext s ∧
    (old = ext → '.' ∈ s.tail)

theorem IsFileName.extended (h : IsFileName s) (hsep : '/' ∉ ext) : IsFileName (s ++ '.' :: ext) := by
  refine ⟨fun hsign => h.not_sign ?_, by simp [h.separator_not_mem, hsep]⟩
  match s with
  | [] => exact List.mem_cons_self
  | [c] =>
    obtain ⟨rfl, -⟩ : c = '.' ∧ ext = [] := by simpa using hsign
    decide
  | c :: d :: rest => simp at hsign

/-- What is left of a name with an extension gets back another one, unless it had this one and no
other before it. -/
theorem replace_ne_extended (hfront : IsFront front) (hs : IsFileName s) (hne : ext ≠ [])
    (hext : '.' ∉ ext) (hback : old = ext → '.' ∈ s.tail) :
    front ++ (s ++ '.' :: old) ≠ replaceChars ext (front ++ s) := by
  obtain ⟨new, hnew⟩ := exists_renamed ext s []
  rw [hnew.replaceChars_eq (named_append hfront hs) hne, Ne, List.append_cancel_left_eq]
  intro h
  cases hnew with
  | added hnone => exact hnone (hback (by simpa using h))
  | @replaced t e =>
    obtain rfl : e ++ '.' :: old = ext := by simpa using h
    simp at hext
  | above => simp at h

theorem nodup_of_changes (hfront : IsFront front) (hsep : '/' ∉ name) (h : Changes ext name)
    (hne : ext ≠ []) (hext : '.' ∉ ext) (hsep' : '/' ∉ ext) :
    [front ++ name, replaceChars ext (replaceChars [] (front ++ name)),
      replaceChars [] (front ++ name)].Nodup := by
  obtain ⟨s, old, rfl, hold, hs, hends, hback⟩ := h
  have hname := hs.extended fun h => hsep (List.mem_append_right _ (List.mem_cons_of_mem _ h))
  have hsource : replaceChars ext (front ++ s) ≠ front ++ s := by
    rw [Ne, replace_eq_self_iff hne hext hsep', hasExtension_append hfront hs,
      splitName?_append hfront hs]
    simpa using hends
  rw [replace_nil_of_some hfront hname hs.ne_nil hs.ne_point hold]
  simp [replace_ne_extended hfront hs hne hext hback, hsource]

theorem changes_of_nodup (hfront : IsFront front) (hlast : IsLast name)
    (hne : ext ≠ []) (hext : '.' ∉ ext) (hsep : '/' ∉ ext)
    (h : [front ++ name, replaceChars ext (replaceChars [] (front ++ name)),
      replaceChars [] (front ++ name)].Nodup) : Changes ext name := by
  simp only [List.nodup_cons, List.mem_cons, List.not_mem_nil, or_false, not_or] at h
  obtain ⟨⟨hprogram, hbinary⟩, hsource, -⟩ := h
  obtain hname | rfl := hlast
  · obtain hnone | ⟨s, old, rfl, hs, hold⟩ := extension_cases name
    · rw [replace_of_none (named_append hfront hname) hnone] at hbinary
      exact absurd (List.append_nil _).symm hbinary
    · -- A name that would be cut to `.` becomes `..`, for which both paths are the same.
      by_cases hdot : s = ['.']
      · subst hdot
        have habove : replaceChars [] (front ++ (['.'] ++ '.' :: old)) = front ++ ['.', '.'] :=
          replace_above hfront hname hold []
        rw [habove] at hsource
        exact absurd (replace_of_unnamed (splitName?_above hfront)) hsource
      · rw [replace_nil_of_some hfront hname hs hdot hold] at hsource hprogram
        have hs' : IsFileName s := by
          refine ⟨?_, fun h => hname.separator_not_mem (List.mem_append_left _ h)⟩
          have habove : s ≠ ['.', '.'] := by
            rintro rfl
            exact hsource (replace_of_unnamed (splitName?_above hfront))
          simp [hs, hdot, habove]
        rw [replace_eq_self_iff hne hext hsep, hasExtension_append hfront hs'] at hsource
        refine ⟨s, old, rfl, hold, hs', fun h => hsource (Or.inr h), ?_⟩
        rintro rfl
        by_contra hnone
        refine hprogram ?_
        rw [replace_of_none (named_append hfront hs') hnone, dotted_eq hne, List.append_assoc]
  · exact absurd (replace_of_unnamed (splitName?_above hfront)).symm hbinary

end Extensions

end Path

end VnScript
