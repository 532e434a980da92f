import VnScript.Proofs.Files.Path

namespace VnScript.Files

variable {f g : Files} {path content : String} {place q : FilePlace} {entry : FileEntry}

section Entries

theorem lookup_cons_of_ne {p : FilePlace} (h : q ≠ p) (e : FileEntry)
    (rest : List (FilePlace × FileEntry)) : ((p, e) :: rest).lookup q = rest.lookup q := by
  rw [List.lookup_cons, beq_false_of_ne h]

theorem lookup_putIn (l : List (FilePlace × FileEntry)) :
    (putIn place entry l).lookup q = if q = place then some entry else l.lookup q := by
  induction l with
  | nil =>
    split
    · next hq => rw [hq, putIn, List.lookup_cons_self]
    · next hq => exact lookup_cons_of_ne hq entry []
  | cons pair rest ih =>
    obtain ⟨p, e⟩ := pair
    rw [putIn]
    by_cases hp : p = place
    · subst hp
      rw [if_pos rfl]
      split
      · next hq => rw [hq, List.lookup_cons_self]
      · next hq => rw [lookup_cons_of_ne hq, lookup_cons_of_ne hq]
    · rw [if_neg hp]
      by_cases hq : q = p
      · subst hq
        rw [List.lookup_cons_self, List.lookup_cons_self, if_neg hp]
      · rw [lookup_cons_of_ne hq, lookup_cons_of_ne hq, ih]

theorem entry?_put_self (h : place ≠ []) : entry? (f.put place entry) place = some entry := by
  rw [ entry?, if_neg h, put, lookup_putIn, if_pos rfl]

theorem entry?_put_of_ne (h : q ≠ place) : entry? (f.put place entry) q = f.entry? q := by
  rw [ entry?, entry?, put, lookup_putIn, if_neg h]

end Entries

section Walks

variable {here : FilePlace} {name : String} {names rest : List String}

theorem walk_append (here : FilePlace) (names rest : List String) :
    f.walk here (names ++ rest) = f.walk here names >>= fun place => f.walk place rest := by
  induction names generalizing here with
  | nil => rfl
  | cons name names ih =>
    rw [List.cons_append, walk, walk]
    cases f.entry? here with
    | none => rfl
    | some entry =>
      cases entry with
      | directory =>
        simp only [ih]
        split <;> rfl
      | text _ | binary => rfl

theorem walk_empty_cons (here : FilePlace) (name : String) (rest : List String) :
    f.walk here ("" :: name :: rest) = f.walk here (name :: rest) := by
  have hlimit : ¬ nameLimit < "".utf8ByteSize := by decide
  have hstep : step here "" = here := rfl
  rw [walk]
  simp only [if_neg hlimit, hstep]
  rw [walk]
  cases f.entry? here with
  | none => rfl
  | some entry => cases entry <;> rfl

theorem walk_cons_ok (h : f.walk here (name :: rest) = .ok q) :
    f.entry? here = some .directory ∧ f.walk (step here name) rest = .ok q := by
  rw [walk] at h
  split at h
  · cases h
  · split at h
    · cases h
    · exact ⟨by assumption, h⟩
  · cases h

theorem walk_append_ok (h : f.walk here (names ++ rest) = .ok q) :
    ∃ place, f.walk here names = .ok place ∧ f.walk place rest = .ok q := by
  rw [walk_append] at h
  cases hw : f.walk here names with
  | error e =>
    rw [hw] at h
    cases h
  | ok place =>
    rw [hw] at h
    exact ⟨place, rfl, h⟩

def IsPlain (name : String) : Prop := name ∉ ["", ".", ".."]
  deriving Decidable

theorem step_plain (h : IsPlain name) (here : FilePlace) : step here name = here ++ [name] := by
  simp only [IsPlain, List.mem_cons, List.not_mem_nil, or_false, not_or] at h
  simp [step, h]

theorem walk_plain (hn : ∀ name ∈ names, IsPlain name) (h : f.walk here names = .ok q) :
    q = here ++ names := by
  induction names generalizing here with
  | nil => simpa using (Except.ok.inj h).symm
  | cons name names ih =>
    obtain ⟨hname, hnames⟩ := List.forall_mem_cons.1 hn
    have hrest := ih hnames (walk_cons_ok h).2
    rw [hrest, step_plain hname, List.append_assoc]
    rfl

/-- A walk sees nothing of a tree but its directories. -/
theorem walk_congr (h : ∀ q, f.entry? q = some .directory → g.entry? q = some .directory)
    (hw : f.walk here names = .ok q) : g.walk here names = .ok q := by
  induction names generalizing here with
  | nil => exact hw
  | cons name names ih =>
    rw [walk] at hw ⊢
    split at hw
    · cases hw
    · next hd =>
      simp only [h _ hd]
      split at hw
      · cases hw
      · next hlimit =>
        rw [if_neg hlimit]
        exact ih hw
    · cases hw

end Walks

section Paths

def follow (f : Files) (path : String) : Except FileError FilePlace :=
  f.walk (f.origin path) (segments path)

theorem segments_ofList (cs : List Char) :
    segments (String.ofList cs) = (Text.split '/' cs).map String.ofList := by
  rw [segments, String.toList_ofList]

theorem segments_append (cs ds : List Char) : segments (String.ofList (cs ++ '/' :: ds)) =
    segments (String.ofList cs) ++ segments (String.ofList ds) := by
  rw [segments_ofList, segments_ofList, segments_ofList, Text.split_append, List.map_append]

theorem empty_mem_segments (h : path.toList.head? = some '/') : "" ∈ segments path := by
  obtain ⟨rest, hrest⟩ := List.head?_eq_some_iff.1 h
  have hpath : path = String.ofList ([] ++ '/' :: rest) := by
    rw [List.nil_append, ← hrest, String.ofList_toList]
  rw [hpath, segments_append]
  exact List.mem_append_left _ List.mem_cons_self

theorem exists_segments_eq_cons (path : String) : ∃ name rest, segments path = name :: rest := by
  refine List.exists_cons_of_ne_nil fun h => ?_
  rw [segments, List.map_eq_nil_iff, Text.split_eq_splitOn] at h
  exact List.splitOnP_ne_nil _ _ h

/-- A relative path goes on from where the path that it is joined to leads. -/
theorem follow_join {root relative : String} (h : relative.toList.head? ≠ some '/') :
    f.follow (Path.join root relative) =
      f.follow root >>= fun base => f.walk base (segments relative) := by
  obtain ⟨name, rest, hrel⟩ := exists_segments_eq_cons relative
  have hrelative : segments (String.ofList relative.toList) = name :: rest := by
    rw [String.ofList_toList, hrel]
  rw [follow, follow, hrel]
  obtain hroot | ⟨front, c, hroot⟩ := List.eq_nil_or_concat root.toList
  · -- From nowhere a path starts where it starts alone.
    obtain rfl := String.toList_eq_nil_iff.1 hroot
    have hjoin : Path.join "" relative = relative := by
      rw [Path.join, Path.pushChars, if_neg h]
      exact String.ofList_toList
    have horigin : f.origin relative = f.working := if_neg h
    rw [hjoin, horigin, hrel, show segments "" = [""] by decide, ← walk_append]
    exact (walk_empty_cons _ _ _).symm
  · rw [List.concat_eq_append] at hroot
    obtain rfl : root = String.ofList (front ++ [c]) := by rw [← hroot, String.ofList_toList]
    have horigin (tail : List Char) : f.origin (String.ofList (front ++ [c] ++ tail)) =
        f.origin (String.ofList (front ++ [c])) := by
      rw [origin, origin, String.toList_ofList, String.toList_ofList]
      cases front <;> rfl
    rw [Path.join, Path.pushChars, if_neg h, String.toList_ofList]
    by_cases hc : c = '/'
    · -- The separator at the end of the path is the one between both.
      subst hc
      have hslash : segments (String.ofList (front ++ ['/'])) = segments (String.ofList front) ++ [""] :=
        segments_append front []
      rw [if_pos (by simp), horigin, List.append_assoc, List.singleton_append, segments_append,
        hrelative, hslash, ← walk_append, List.append_assoc, walk_append, walk_append]
      simp only [List.singleton_append, walk_empty_cons]
    · rw [if_neg (by simp [hc]), horigin, segments_append, hrelative, walk_append]

/-- A path that leads down from any place, along these names. -/
structure LeadsDown (path : String) (names : List String) : Prop where
  relative : path.toList.head? ≠ some '/'
  segments_eq : segments path = names
  plain : ∀ name ∈ names, IsPlain name ∧ '/' ∉ name.toList

theorem LeadsDown.follow_join {names : List String} {root : String} (h : LeadsDown path names)
    (hf : f.follow (Path.join root path) = .ok place) : ∃ base, f.follow root = .ok base ∧
      f.entry? base = some .directory ∧ place = base ++ names := by
  obtain ⟨name, rest, hcons⟩ := exists_segments_eq_cons path
  rw [Files.follow_join h.relative] at hf
  cases hr : f.follow root with
  | error e =>
    rw [hr] at hf
    cases hf
  | ok base =>
    rw [hr] at hf
    change f.walk base (segments path) = .ok place at hf
    have hplace := walk_plain (h.segments_eq ▸ fun n hn => (h.plain n hn).1) hf
    rw [hcons] at hf
    exact ⟨base, rfl, (walk_cons_ok hf).1, h.segments_eq ▸ hplace⟩

theorem read_eq_ok_iff : f.read path = .ok content ↔ checkPath path = .ok () ∧
    ∃ place, f.follow path = .ok place ∧ f.entry? place = some (.text content) := by
  have hread : f.read path = .ok content ↔ f.find path = .ok (.text content) := by
    rw [read]
    split <;> simp_all
  rw [hread, find, ← follow]
  cases hc : checkPath path with
  | error e => simp [bind, Except.bind]
  | ok u =>
    cases hw : f.follow path with
    | error e => simp [bind, Except.bind]
    | ok place =>
      simp only [bind, Except.bind]
      cases he : f.entry? place <;>
        simp [he, throw, throwThe, MonadExceptOf.throw, pure, Except.pure]

theorem segments_front {front : List Char} (hfront : Path.IsFront front) : ∃ names start,
    ∀ name, '/' ∉ name → segments (String.ofList (front ++ name)) = names ++ [String.ofList name] ∧
      f.origin (String.ofList (front ++ name)) = start := by
  obtain rfl | hlast := hfront
  · refine ⟨[], f.working, fun name hname => ?_⟩
    rw [List.nil_append, segments_ofList, Text.split_of_not_mem hname]
    refine ⟨rfl, if_neg fun habs => hname (List.mem_of_head? ?_)⟩
    rwa [String.toList_ofList] at habs
  · obtain ⟨before, rfl⟩ := List.getLast?_eq_some_iff.1 hlast
    refine ⟨segments (String.ofList before), f.origin (String.ofList (before ++ ['/'])),
      fun name hname => ⟨?_, ?_⟩⟩
    · rw [List.append_assoc, List.singleton_append, segments_append, segments_ofList name,
        Text.split_of_not_mem hname]
      rfl
    · rw [origin, origin, String.toList_ofList, String.toList_ofList]
      cases before <;> rfl

theorem isPlain_ofList {name : List Char} (h : Path.IsFileName name) : IsPlain (String.ofList name) := by
  intro hsign
  refine h.not_sign ?_
  simp only [List.mem_cons, List.not_mem_nil, or_false, ← String.toList_inj,
    String.toList_ofList] at hsign ⊢
  exact hsign

theorem follow_front {front : List Char} (hfront : Path.IsFront front) (f : Files) :
    ∃ dir : Except FileError FilePlace, ∀ name place, '/' ∉ name →
      f.follow (String.ofList (front ++ name)) = .ok place →
        ∃ base, dir = .ok base ∧ f.entry? base = some .directory ∧
          place = step base (String.ofList name) := by
  obtain ⟨names, start, hparts⟩ := segments_front (f := f) hfront
  refine ⟨f.walk start names, fun name place hname h => ?_⟩
  obtain ⟨hsegments, horigin⟩ := hparts name hname
  rw [follow, hsegments, horigin] at h
  obtain ⟨base, hbase, hstep⟩ := walk_append_ok h
  obtain ⟨hdir, hplace⟩ := walk_cons_ok hstep
  exact ⟨base, hbase, hdir, (Except.ok.inj hplace).symm⟩

theorem isLast_of_follow {front name : List Char} (hfront : Path.IsFront front) (hname : '/' ∉ name)
    (h : f.follow (String.ofList (front ++ name)) = .ok place)
    (he : f.entry? place ≠ some .directory) : Path.IsLast name := by
  obtain ⟨dir, hdir⟩ := follow_front hfront f
  obtain ⟨base, -, hbase, rfl⟩ := hdir name place hname h
  refine or_iff_not_imp_right.2 fun habove => ⟨?_, hname⟩
  simp only [List.mem_cons, List.not_mem_nil, or_false, not_or]
  refine ⟨?_, ?_, habove⟩ <;> rintro rfl <;> exact he hbase

theorem follow_front_inj {front name other : List Char} (hfront : Path.IsFront front)
    (hname : Path.IsLast name) (hother : Path.IsLast other)
    (h : f.follow (String.ofList (front ++ name)) = .ok place)
    (h' : f.follow (String.ofList (front ++ other)) = .ok place) : other = name := by
  obtain ⟨dir, hdir⟩ := follow_front hfront f
  obtain ⟨base, hbase, -, hplace⟩ := hdir name place hname.separator_not_mem h
  obtain ⟨base', hbase', -, hplace'⟩ := hdir other place hother.separator_not_mem h'
  obtain rfl := Except.ok.inj (hbase.symm.trans hbase')
  have hstep : step base (String.ofList other) = step base (String.ofList name) :=
    hplace'.symm.trans hplace
  -- A file name leads down from where two points lead up.
  have hup {name : List Char} (hname : Path.IsFileName name) :
      step base (String.ofList name) ≠ step base (String.ofList ['.', '.']) := by
    have habove : step base (String.ofList ['.', '.']) = base.dropLast := rfl
    rw [step_plain (isPlain_ofList hname), habove]
    intro h
    have hlen : base.length + 1 = base.length - 1 := by simpa using congrArg List.length h
    omega
  obtain hname | rfl := hname <;> obtain hother | rfl := hother
  · rw [step_plain (isPlain_ofList hname), step_plain (isPlain_ofList hother)] at hstep
    simpa only [List.append_cancel_left_eq, List.cons.injEq, and_true, String.ofList_inj] using hstep
  · exact absurd hstep.symm (hup hname)
  · exact absurd hstep (hup hother)
  · rfl

theorem namedParts_eq (h : ¬ (namedParts path).length < (segments path).length) :
    namedParts path = segments path := by
  have hlen : (segments path).reverse.length ≤
      ((segments path).reverse.dropWhile (· == "")).length := by
    rw [namedParts, List.length_reverse] at h
    rw [List.length_reverse]
    exact Nat.not_lt.1 h
  rw [namedParts, (List.dropWhile_suffix _).eq_of_length_le hlen, List.reverse_reverse]

theorem ne_empty_of_namedParts {name : String} (h : (namedParts path).getLast? = some name) :
    name ≠ "" := by
  have hhead := List.head?_dropWhile_not (· == "") (segments path).reverse
  rw [namedParts, List.getLast?_reverse] at h
  simpa [h] using hhead

/-- What a file needs to be written: its directory, and a last name that no directory has. -/
theorem write_inv (h : f.write path content = .ok g) : ∃ dir name,
    f.walk (f.origin path) (namedParts path).dropLast = .ok dir ∧
      (namedParts path).getLast? = some name ∧ f.entry? dir = some .directory ∧
      ¬ (namedParts path).length < (segments path).length ∧ IsPlain name ∧
      name.utf8ByteSize ≤ nameLimit ∧ f.entry? (dir ++ [name]) ≠ some .directory ∧
      g = f.put (dir ++ [name]) (.text content) := by
  rw [write] at h
  cases hc : checkPath path with
  | error e =>
    rw [hc] at h
    cases h
  | ok u =>
    simp only [hc, bind, Except.bind] at h
    cases hw : f.walk (f.origin path) (namedParts path).dropLast with
    | error e =>
      rw [hw] at h
      cases h
    | ok dir =>
      simp only [hw] at h
      split at h
      · cases h
      · cases h
      · next name hd hlast =>
        split_ifs at h with hrefused hlimit
        simp only [not_or] at hrefused
        obtain ⟨hlen, hpoint, habove, hfree⟩ := hrefused
        exact ⟨dir, name, rfl, hlast, hd, hlen,
          by simp [IsPlain, ne_empty_of_namedParts hlast, hpoint, habove],
          Nat.not_lt.1 hlimit, hfree, (Except.ok.inj h).symm⟩
      · cases h

/-- A file is written where its path leads, and nothing else changes. -/
theorem write_eq_ok (h : f.write path content = .ok g) : ∃ place, f.follow path = .ok place ∧
    place ≠ [] ∧ f.entry? place ≠ some .directory ∧ g = f.put place (.text content) := by
  obtain ⟨dir, name, hw, hlast, hd, hlen, hname, hlimit, hfree, rfl⟩ := write_inv h
  obtain ⟨front, hfront⟩ := List.getLast?_eq_some_iff.1 hlast
  rw [hfront, List.dropLast_concat] at hw
  refine ⟨dir ++ [name], ?_, by simp, hfree, rfl⟩
  -- The last name is one more step from the directory.
  rw [follow, ← namedParts_eq hlen, hfront, walk_append, hw]
  change f.walk dir [name] = _
  rw [walk]
  simp only [hd, if_neg (Nat.not_lt.2 hlimit)]
  rw [walk, step_plain hname]

theorem entry?_of_write (h : f.write path content = .ok g) (hq : f.follow path = .ok q) :
    g.entry? q = some (.text content) := by
  obtain ⟨place, hplace, hne, -, rfl⟩ := write_eq_ok h
  obtain rfl := Except.ok.inj (hplace.symm.trans hq)
  exact entry?_put_self hne

theorem entry?_of_write_ne (h : f.write path content = .ok g) (hq : f.follow path ≠ .ok q) :
    g.entry? q = f.entry? q := by
  obtain ⟨place, hplace, -, -, rfl⟩ := write_eq_ok h
  refine entry?_put_of_ne ?_
  rintro rfl
  exact hq hplace

theorem follow_of_write {other : String} (h : f.write path content = .ok g) :
    g.follow other = .ok q ↔ f.follow other = .ok q := by
  obtain ⟨place, -, hplace, hfree, rfl⟩ := write_eq_ok h
  have hentry (q : FilePlace) : entry? (f.put place (.text content)) q = some .directory ↔
      f.entry? q = some .directory := by
    by_cases hq : q = place
    · subst hq
      simp [entry?_put_self hplace, hfree]
    · rw [entry?_put_of_ne hq]
  constructor <;> intro hw
  · exact walk_congr (fun q => (hentry q).1) hw
  · exact walk_congr (fun q => (hentry q).2) hw

end Paths

end VnScript.Files
