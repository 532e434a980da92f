import VnScript.Proofs.Files.Tree
import VnScript.Proofs.Grammar.RoundTrip
import VnScript.Proofs.Grammar.WellFormed
import VnScript.Proofs.Module.Reading
import VnScript.Proofs.Tree.Nested

namespace VnScript

namespace Path

/-- Names of directories, one in the other, as they stand before a name in a path. -/
def directories (names : List (List Char)) : List Char := names.flatMap (· ++ ['/'])

variable {names : List (List Char)} {last : List Char}

theorem directories_append (names : List (List Char)) (name : List Char) :
    directories (names ++ [name]) = directories names ++ name ++ ['/'] := by
  simp [directories]

theorem isFront_directories (names : List (List Char)) : IsFront (directories names) := by
  obtain rfl | ⟨names, name, rfl⟩ := List.eq_nil_or_concat names
  · exact Or.inl rfl
  · rw [List.concat_eq_append, directories_append]
    exact isFront_append_separator _

theorem IsFileName.getLast?_ne {name : List Char} (h : IsFileName name) :
    name.getLast? ≠ some '/' :=
  fun hlast => h.separator_not_mem (List.mem_of_getLast? hlast)

theorem IsFileName.head?_ne {name : List Char} (h : IsFileName name) : name.head? ≠ some '/' :=
  fun hhead => h.separator_not_mem (List.mem_of_head? hhead)

theorem foldl_pushChars (hnames : ∀ name ∈ names, IsFileName name) (hlast : IsFileName last) :
    (names ++ [last]).foldl pushChars [] = directories names ++ last := by
  induction names using List.reverseRecOn generalizing last with
  | nil => simp [directories, pushChars, hlast.head?_ne]
  | append_singleton names name ih =>
    have hname : IsFileName name := hnames name (by simp)
    have hpath := ih (fun n hn => hnames n (List.mem_append_left _ hn)) hname
    have hne : (directories names ++ name).isEmpty = false := by simp [hname.ne_nil]
    have hend : (directories names ++ name).getLast? ≠ some '/' := by
      rw [List.getLast?_append_of_ne_nil _ hname.ne_nil]
      exact hname.getLast?_ne
    rw [List.foldl_append, hpath, directories_append, List.foldl_cons, List.foldl_nil, pushChars,
      if_neg hlast.head?_ne, if_neg (by simpa only [hne, Bool.false_or, beq_iff_eq] using hend),
      List.append_assoc _ ['/'], List.singleton_append]

end Path

theorem Files.segments_directories {names : List (List Char)} {last : List Char}
    (hnames : ∀ name ∈ names, '/' ∉ name) (hlast : '/' ∉ last) :
    segments (String.ofList (Path.directories names ++ last)) =
      names.map String.ofList ++ [String.ofList last] := by
  induction names with
  | nil => rw [segments_ofList]; simp [Path.directories, Text.split_of_not_mem hlast]
  | cons name names ih =>
    obtain ⟨hname, hnames⟩ := List.forall_mem_cons.1 hnames
    have hcons : Path.directories (name :: names) ++ last =
        name ++ '/' :: (Path.directories names ++ last) := by simp [Path.directories]
    rw [hcons, segments_append, ih hnames, segments_ofList, Text.split_of_not_mem hname]
    rfl

section Names

variable {name last : String} {names : List String}

theorem IsName.isFileName_append (h : IsName name) {tail : List Char} (ht : '/' ∉ tail) :
    Path.IsFileName (name.toList ++ tail) := by
  have hsep : '/' ∉ name.toList := h.not_mem rfl
  refine ⟨?_, by simp [hsep, ht]⟩
  obtain ⟨c, cs, hword, hc, -⟩ := h.1
  have hdot : c ≠ '.' := by
    rintro rfl
    cases hc
  simp [hword, hdot]

theorem IsName.isFileName (h : IsName name) : Path.IsFileName name.toList :=
  List.append_nil name.toList ▸ h.isFileName_append List.not_mem_nil

theorem intercalate_append (names : List String) (last : String) :
    "/".intercalate (names ++ [last]) =
      String.ofList (Path.directories (names.map String.toList) ++ last.toList) := by
  induction names with
  | nil => simp [Path.directories]
  | cons name names ih =>
    obtain ⟨next, rest, hrest⟩ := List.exists_cons_of_ne_nil (l := names ++ [last]) (by simp)
    rw [hrest] at ih
    rw [List.cons_append, hrest, String.intercalate_cons_cons, ih, ← String.toList_inj]
    simp [Path.directories]

/-- The path of a module has its names with separators for points, and its extension. -/
theorem modulePath_intercalate (h : ∀ name ∈ names ++ [last], IsName name) :
    modulePath (".".intercalate (names ++ [last])) = "/".intercalate (names ++ [last ++ ".vn"]) := by
  have hsplit : Text.split '.' (".".intercalate (names ++ [last])).toList =
      names.map String.toList ++ [last.toList] := by
    rw [Text.split_eq_splitOn, splitOn_intercalate (by simp) h, List.map_append]
    rfl
  have hlast : IsName last := h last (by simp)
  have hnames : ∀ name ∈ names.map String.toList, Path.IsFileName name := by
    intro cs hcs
    obtain ⟨name, hname, rfl⟩ := List.mem_map.1 hcs
    exact (h name (List.mem_append_left _ hname)).isFileName
  have hstem : Path.stem last.toList = last.toList :=
    (Path.extension?_eq_none fun h => hlast.not_mem rfl (List.mem_of_mem_tail h)).2
  rw [modulePath, hsplit]
  simp only [Path.foldl_pushChars hnames hlast.isFileName]
  rw [Path.withExtension, String.toList_ofList,
    Path.withExtensionChars_named (Path.named_append (Path.isFront_directories _) hlast.isFileName),
    hstem, intercalate_append, String.toList_append, List.append_assoc]
  rfl

/-- The names that lead from a root to the file of a module: those of its directories, then that
of the file. -/
theorem segments_modulePath (h : ∀ name ∈ names ++ [last], IsName name) :
    Files.segments (modulePath (".".intercalate (names ++ [last]))) = names ++ [last ++ ".vn"] := by
  have hnames : ∀ cs ∈ names.map String.toList, '/' ∉ cs := by
    intro cs hcs
    obtain ⟨name, hname, rfl⟩ := List.mem_map.1 hcs
    exact (h name (List.mem_append_left _ hname)).not_mem rfl
  have hlast : '/' ∉ (last ++ ".vn").toList := by
    have hsep : '/' ∉ last.toList := (h last (by simp)).not_mem rfl
    simp [hsep]
  rw [modulePath_intercalate h, intercalate_append, Files.segments_directories hnames hlast,
    List.map_map, String.ofList_toList]
  simp

theorem modulePath_leadsDown (h : ∀ name ∈ names ++ [last], IsName name) :
    Files.LeadsDown (modulePath (".".intercalate (names ++ [last]))) (names ++ [last ++ ".vn"]) := by
  have hfile : ∀ part ∈ names ++ [last ++ ".vn"], Path.IsFileName part.toList := by
    intro part hpart
    obtain hpart | hpart := List.mem_append.1 hpart
    · exact (h part (List.mem_append_left _ hpart)).isFileName
    · obtain rfl := List.mem_singleton.1 hpart
      rw [String.toList_append]
      exact (h last (by simp)).isFileName_append (by decide)
  have hplain : ∀ part ∈ names ++ [last ++ ".vn"], Files.IsPlain part := by
    intro part hpart hsign
    refine (hfile part hpart).not_sign ?_
    simp only [List.mem_cons, List.not_mem_nil, or_false] at hsign ⊢
    obtain rfl | rfl | rfl := hsign <;> simp
  refine ⟨fun habs => ?_, segments_modulePath h, fun part hpart =>
    ⟨hplain part hpart, (hfile part hpart).separator_not_mem⟩⟩
  have hempty := Files.empty_mem_segments habs
  rw [segments_modulePath h] at hempty
  exact hplain "" hempty (by decide)

end Names

section Imports

variable {E : Expr → Prop} {name : String}

mutual

theorem Declaration.WellFormed.module : (d : Declaration) → d.WellFormed E →
    ∀ name ∈ d.members.filterMap Declaration.module?, IsModuleName name
  | .function _, _ | .classDecl _, _ => nofun
  | .importDecl module, h => fun name hn => by
    obtain rfl := List.mem_singleton.1 hn
    exact h
  | .namespaceDecl _ ds, h => modules_wellFormed ds h.2

theorem modules_wellFormed : (ds : List Declaration) → declarationsWellFormed E ds →
    ∀ name ∈ (membersOf ds).filterMap Declaration.module?, IsModuleName name
  | [], _ => nofun
  | d :: rest, h => by
    rw [membersOf, List.filterMap_append]
    exact List.forall_mem_append.2 ⟨Declaration.WellFormed.module d h.1, modules_wellFormed rest h.2⟩

end

/-- What a text that parses imports are names with points between them. -/
theorem isModuleName_of_parse {source : String} {p : Program} (h : parse source = .ok p)
    (hn : name ∈ p.allImports) : IsModuleName name :=
  modules_wellFormed p.declarations (wellFormed_of_parse h) name hn

theorem IsModuleName.exists_parts (h : IsModuleName name) : ∃ names last,
    name = ".".intercalate (names ++ [last]) ∧ ∀ part ∈ names ++ [last], IsName part := by
  obtain ⟨parts, hne, hparts, rfl⟩ := h
  obtain hnil | ⟨names, last, hlast⟩ := List.eq_nil_or_concat parts
  · exact absurd hnil hne
  · rw [List.concat_eq_append] at hlast
    subst hlast
    exact ⟨names, last, rfl, hparts⟩

theorem segments_modulePath_inj {other : String} (h : IsModuleName name) (h' : IsModuleName other)
    (heq : Files.segments (modulePath other) = Files.segments (modulePath name)) : other = name := by
  obtain ⟨names, last, rfl, hn⟩ := h.exists_parts
  obtain ⟨names', last', rfl, hn'⟩ := h'.exists_parts
  rw [segments_modulePath hn, segments_modulePath hn'] at heq
  obtain ⟨rfl, hlast⟩ := List.append_inj' heq rfl
  have hlast := List.singleton_inj.1 hlast
  rw [← String.toList_inj, String.toList_append, String.toList_append, List.append_cancel_right_eq,
    String.toList_inj] at hlast
  rw [hlast]

/-- The path of a module that a text imports has the names of the module for its own, the last
one with the extension of modules. It is relative and leads nowhere but down, so the file lies in
the directory of the root where it is found; and no other module that can be imported has the
same path, or the same file below the same root. -/
theorem import_paths {source : String} {p : Program} (h : parse source = .ok p)
    (hn : name ∈ p.allImports) :
    (∃ names last, name = ".".intercalate (names ++ [last]) ∧
      (∀ part ∈ names ++ [last], IsName part) ∧
      modulePath name = "/".intercalate (names ++ [last ++ ".vn"]) ∧
      Files.LeadsDown (modulePath name) (names ++ [last ++ ".vn"])) ∧
    (∀ source' p' other, parse source' = .ok p' → other ∈ p'.allImports →
      modulePath other = modulePath name → other = name) ∧
    (∀ (files : Files) root place, files.follow (Path.join root (modulePath name)) = .ok place →
      ∃ base, files.follow root = .ok base ∧ files.entry? base = some .directory ∧
        place = base ++ Files.segments (modulePath name) ∧
        ∀ source' p' other, parse source' = .ok p' → other ∈ p'.allImports →
          files.follow (Path.join root (modulePath other)) = .ok place → other = name) ∧
    ∀ files roots q, Resolver.readModule files roots name = .ok q →
      ∃ root ∈ roots, ∃ base content, files.follow root = .ok base ∧
        files.entry? (base ++ Files.segments (modulePath name)) = some (.text content) ∧
        parse content = .ok q := by
  have hname := isModuleName_of_parse h hn
  obtain ⟨names, last, heq, hparts⟩ := hname.exists_parts
  have hdown : Files.LeadsDown (modulePath name) (names ++ [last ++ ".vn"]) :=
    heq ▸ modulePath_leadsDown hparts
  have hbelow (files : Files) (root : String) (place : FilePlace)
      (hf : files.follow (Path.join root (modulePath name)) = .ok place) :
      ∃ base, files.follow root = .ok base ∧ files.entry? base = some .directory ∧
        place = base ++ Files.segments (modulePath name) :=
    hdown.segments_eq ▸ hdown.follow_join hf
  refine ⟨⟨names, last, heq, hparts, heq ▸ modulePath_intercalate hparts, hdown⟩, ?_, ?_, ?_⟩
  · intro source' p' other h' hn' hpath
    exact segments_modulePath_inj hname (isModuleName_of_parse h' hn') (by rw [hpath])
  · intro files root place hf
    obtain ⟨base, hbase, hdir, hplace⟩ := hbelow files root place hf
    refine ⟨base, hbase, hdir, hplace, fun source' p' other h' hn' hf' => ?_⟩
    have hother := isModuleName_of_parse h' hn'
    obtain ⟨names', last', heq', hparts'⟩ := hother.exists_parts
    have hdown' := modulePath_leadsDown hparts'
    rw [← heq'] at hdown'
    obtain ⟨base', hbase', -, hplace'⟩ := hdown'.follow_join hf'
    obtain rfl := Except.ok.inj (hbase.symm.trans hbase')
    rw [hplace, ← hdown'.segments_eq] at hplace'
    exact segments_modulePath_inj hname hother (List.append_cancel_left hplace').symm
  · intro files roots q hq
    obtain ⟨path, content, ⟨before, root, after, rfl, rfl, -⟩, hr, hp⟩ :=
      Resolver.readModule_eq_ok_iff.1 hq
    obtain ⟨-, place, hf, hentry⟩ := Files.read_eq_ok_iff.1 hr
    obtain ⟨base, hbase, -, rfl⟩ := hbelow files root place hf
    exact ⟨root, by simp, base, content, hbase, hentry, hp⟩

/-- The module lies two directories below the root. -/
theorem import_paths_nested :
    parse "import std.text.io;" = .ok ⟨[.importDecl "std.text.io"]⟩ ∧
      "std.text.io" ∈ (⟨[.importDecl "std.text.io"]⟩ : Program).allImports ∧
      ∃ names last, "std.text.io" = ".".intercalate (names ++ [last]) ∧
        modulePath "std.text.io" = "/".intercalate (names ++ [last ++ ".vn"]) :=
  have h : parse "import std.text.io;" = .ok ⟨[.importDecl "std.text.io"]⟩ := by decide +kernel
  have hn : "std.text.io" ∈ (⟨[.importDecl "std.text.io"]⟩ : Program).allImports :=
    List.mem_singleton.2 rfl
  have ⟨⟨names, last, heq, _, hpath, _⟩, _⟩ := import_paths h hn
  ⟨h, hn, names, last, heq, hpath⟩

end Imports

end VnScript
