import Mathlib.Data.List.Nodup
import VnScript.Command.Invocation
import VnScript.Proofs.Files.Tree
import VnScript.Tree.Equality

namespace VnScript.Command.Invocation

open VnScript.Path

variable {decode : Settings.Decoder} {i : Invocation} {w : World} {limit : Nat}
  {place : FilePlace} {text : String}

section Effects

theorem effect_build {e : Effect} (hverb : i.verb = .build) (h : i.effect decode limit w = some e) :
    (e.written = [] ∧ e.files = w.files) ∨
      ∃ s p, i.settings decode w.files = .ok s ∧ i.loadProgram w.files s = some (.ok p) ∧
        w.files.write i.sourcePath p.cpp = .ok e.files ∧ e.written = [(i.sourcePath, p.cpp)] := by
  rw [effect] at h
  split at h
  · obtain rfl := Option.some.inj h
    exact Or.inl ⟨rfl, rfl⟩
  · next s hs =>
    split at h
    · cases h
    · obtain rfl := Option.some.inj h
      exact Or.inl ⟨rfl, rfl⟩
    · next p hp =>
      rw [act, hverb] at h
      obtain rfl := Option.some.inj h
      rw [build, writing]
      cases hw : w.files.write i.sourcePath p.cpp with
      | error _ => exact Or.inl ⟨rfl, rfl⟩
      | ok g => exact Or.inr ⟨s, p, hs, hp, hw, rfl⟩

/-- Only what the path of the generated code leads to is changed. -/
theorem entry?_of_build {e : Effect} {q : FilePlace} (hverb : i.verb = .build)
    (h : i.effect decode limit w = some e) (hq : w.files.follow i.sourcePath ≠ .ok q) :
    e.files.entry? q = w.files.entry? q := by
  obtain ⟨-, hsame⟩ | ⟨s, p, -, -, hwrite, -⟩ := effect_build hverb h
  · rw [hsame]
  · exact Files.entry?_of_write_ne hwrite hq

theorem follow_of_build {e : Effect} {q : FilePlace} {path : String} (hverb : i.verb = .build)
    (h : i.effect decode limit w = some e) : e.files.follow path = .ok q ↔ w.files.follow path = .ok q := by
  obtain ⟨-, hsame⟩ | ⟨s, p, -, -, hwrite, -⟩ := effect_build hverb h
  · rw [hsame]
  · exact Files.follow_of_write hwrite

theorem run_eq_some {r : Report} (h : i.run decode limit w = some r) :
    ∃ e, i.effect decode limit w = some e ∧ r.files = e.files ∧ r.written = e.written := by
  obtain ⟨e, he, hr⟩ := Option.map_eq_some_iff.1 h
  refine ⟨e, he, ?_⟩
  split at hr <;> subst hr <;> exact ⟨rfl, rfl⟩

end Effects

section Paths

/-- When the paths of a build are different. Without a path for the executable, the name of the
program has to tell. With one, it has to lead to a name that has not got the extension already,
and the program must not be where it leads with the extension. -/
def Apart (i : Invocation) : Prop :=
  match i.output with
  | none => ∃ front name, i.file.toList = front ++ name ∧ IsFront front ∧ '/' ∉ name ∧
      Changes ['c', 'p', 'p'] name
  | some output => ¬ HasExtension ['c', 'p', 'p'] output.toList ∧
      ∃ front name tail new, Named output.toList front name tail ∧
        Renamed ['c', 'p', 'p'] name tail new ∧ i.file.toList ≠ front ++ new

theorem sourcePath_eq (i : Invocation) :
    i.sourcePath = String.ofList (replaceChars ['c', 'p', 'p'] i.binaryPath.toList) := rfl

theorem binaryPath_eq (h : i.output = none) :
    i.binaryPath = String.ofList (replaceChars [] i.file.toList) := by
  rw [binaryPath, h]
  rfl

theorem paths_eq (h : i.output = none) {front name : List Char}
    (hfile : i.file = String.ofList (front ++ name)) :
    [i.file, i.sourcePath, i.binaryPath] =
      [front ++ name, replaceChars ['c', 'p', 'p'] (replaceChars [] (front ++ name)),
        replaceChars [] (front ++ name)].map String.ofList := by
  rw [sourcePath_eq, binaryPath_eq h, String.toList_ofList, hfile, String.toList_ofList]
  rfl

theorem extension_spells : (['c', 'p', 'p'] : List Char) ≠ [] ∧ '.' ∉ ['c', 'p', 'p'] ∧
    '/' ∉ ['c', 'p', 'p'] := by decide

theorem nodup_paths_unnamed (ho : i.output = none) (hplace : w.files.follow i.file = .ok place)
    (hentry : w.files.entry? place ≠ some .directory) :
    [i.file, i.sourcePath, i.binaryPath].Nodup ↔ i.Apart := by
  obtain ⟨hne, hext, hsep⟩ := extension_spells
  have hnodup {front name : List Char} (hfile : i.file = String.ofList (front ++ name)) :
      [i.file, i.sourcePath, i.binaryPath].Nodup ↔
        [front ++ name, replaceChars ['c', 'p', 'p'] (replaceChars [] (front ++ name)),
          replaceChars [] (front ++ name)].Nodup := by
    rw [paths_eq ho hfile, List.nodup_map_iff fun _ _ => String.ofList_inj.1]
  rw [Apart, ho]
  constructor
  · intro h
    obtain ⟨front, name, hchars, hfront, hname⟩ := exists_front i.file.toList
    have hfile : i.file = String.ofList (front ++ name) := by rw [← hchars, String.ofList_toList]
    have hlast := Files.isLast_of_follow hfront hname (hfile ▸ hplace) hentry
    exact ⟨front, name, hchars, hfront, hname,
      changes_of_nodup hfront hlast hne hext hsep ((hnodup hfile).1 h)⟩
  · rintro ⟨front, name, hchars, hfront, hname, hchanges⟩
    have hfile : i.file = String.ofList (front ++ name) := by rw [← hchars, String.ofList_toList]
    exact (hnodup hfile).2 (nodup_of_changes hfront hname hchanges hne hext hsep)

theorem sourcePath_ne_file_iff {front name tail new : List Char}
    (hnamed : Named i.binaryPath.toList front name tail)
    (hnew : Renamed ['c', 'p', 'p'] name tail new) :
    i.sourcePath ≠ i.file ↔ i.file.toList ≠ front ++ new := by
  rw [sourcePath_eq, hnew.replaceChars_eq hnamed extension_spells.1, Ne, ← String.toList_inj,
    String.toList_ofList, eq_comm]

theorem nodup_paths_named {output : String} (ho : i.output = some output) (hfile : output ≠ i.file) :
    [i.file, i.sourcePath, i.binaryPath].Nodup ↔ i.Apart := by
  obtain ⟨hne, hext, hsep⟩ := extension_spells
  have hbinary : i.binaryPath = output := by
    rw [binaryPath, ho]
    rfl
  have hsource : i.sourcePath = i.binaryPath ↔ splitName? output.toList = none ∨
      HasExtension ['c', 'p', 'p'] output.toList := by
    rw [sourcePath_eq, hbinary, ← String.toList_inj, String.toList_ofList]
    exact replace_eq_self_iff hne hext hsep
  rw [Apart, ho]
  simp only [List.nodup_cons, List.mem_cons, List.not_mem_nil, or_false, not_or, not_false_iff,
    List.nodup_nil, and_true, hsource]
  constructor
  · rintro ⟨⟨hprogram, -⟩, hsome, hextended⟩
    obtain ⟨⟨front, name⟩, hsplit⟩ := Option.ne_none_iff_exists'.1 hsome
    obtain ⟨tail, hnamed⟩ := exists_named hsplit
    obtain ⟨new, hnew⟩ := exists_renamed ['c', 'p', 'p'] name tail
    exact ⟨hextended, front, name, tail, new, hnamed, hnew,
      (sourcePath_ne_file_iff (hbinary ▸ hnamed) hnew).1 (Ne.symm hprogram)⟩
  · rintro ⟨hextended, front, name, tail, new, hnamed, hnew, hprogram⟩
    refine ⟨⟨?_, hbinary ▸ Ne.symm hfile⟩, by simp [hnamed.splitName?_eq], hextended⟩
    exact Ne.symm ((sourcePath_ne_file_iff (hbinary ▸ hnamed) hnew).2 hprogram)

theorem nodup_paths_iff (hout : i.output ≠ some i.file)
    (hplace : w.files.follow i.file = .ok place) (hentry : w.files.entry? place ≠ some .directory) :
    [i.file, i.sourcePath, i.binaryPath].Nodup ↔ i.Apart := by
  cases ho : i.output with
  | none => exact nodup_paths_unnamed ho hplace hentry
  | some output => exact nodup_paths_named ho fun h => hout (h ▸ ho)

/-- Without a path for the executable, the paths of a build lead to the program only if they are its
path. -/
theorem follow_paths_iff (hout : i.output = none)
    (hplace : w.files.follow i.file = .ok place) (hentry : w.files.entry? place ≠ some .directory) :
    ∀ path ∈ [i.sourcePath, i.binaryPath], w.files.follow path = .ok place ↔ path = i.file := by
  obtain ⟨front, name, hchars, hfront, hname⟩ := exists_front i.file.toList
  have hfile : i.file = String.ofList (front ++ name) := by rw [← hchars, String.ofList_toList]
  rw [hfile] at hplace
  have hlast := Files.isLast_of_follow hfront hname hplace hentry
  have hcpp : '/' ∉ ['c', 'p', 'p'] := by decide
  -- Both paths differ from that of the program in their last names only.
  obtain ⟨binary, hbinary, hblast⟩ := replace_front hfront hlast List.not_mem_nil
  obtain ⟨source, hsource, hslast⟩ := replace_front hfront hblast hcpp
  have hpaths : ∀ path ∈ [i.sourcePath, i.binaryPath], ∃ last,
      path = String.ofList (front ++ last) ∧ IsLast last := by
    rw [sourcePath_eq, binaryPath_eq hout, String.toList_ofList, hchars, hbinary, hsource]
    simp only [List.forall_mem_cons]
    exact ⟨⟨source, rfl, hslast⟩, ⟨binary, rfl, hblast⟩, nofun⟩
  intro path hpath
  obtain ⟨last, rfl, hpathlast⟩ := hpaths path hpath
  rw [hfile]
  constructor
  · intro h
    rw [Files.follow_front_inj hfront hlast hpathlast hplace h]
  · rintro h
    rwa [h]

end Paths

/-- A build whose program can be read. Its three paths are different just if they are apart. Without a
path for the executable, none of the other two leads to the program unless it is the path of
the program. Where the generated code goes elsewhere, the program stays as it was, whatever the
compiler says; and it stays so when the compiler changes what the path of the executable leads to,
if that is elsewhere too. Otherwise the generated code takes its place. -/
theorem build_paths {r : Report} (hverb : i.verb = .build) (hout : i.output ≠ some i.file)
    (hplace : w.files.follow i.file = .ok place) (htext : w.files.entry? place = some (.text text))
    (hrun : i.run decode limit w = some r) :
    ([i.file, i.sourcePath, i.binaryPath].Nodup ↔ i.Apart) ∧
    (i.output = none → ∀ path ∈ [i.sourcePath, i.binaryPath],
      w.files.follow path = .ok place ↔ path = i.file) ∧
    (w.files.follow i.sourcePath ≠ .ok place → r.files.entry? place = some (.text text) ∧
      (w.files.follow i.binaryPath ≠ .ok place → ∀ after : Files,
        (∀ q, r.files.follow i.binaryPath ≠ .ok q → after.entry? q = r.files.entry? q) →
          after.entry? place = some (.text text))) ∧
    (r.written = [] ∧ r.files = w.files ∨
      ∃ s p, i.settings decode w.files = .ok s ∧ i.loadProgram w.files s = some (.ok p) ∧
        r.written = [(i.sourcePath, p.cpp)] ∧
        (w.files.follow i.sourcePath = .ok place → r.files.entry? place = some (.text p.cpp))) := by
  have hentry : w.files.entry? place ≠ some .directory := by simp [htext]
  obtain ⟨e, he, hfiles, hwritten⟩ := run_eq_some hrun
  rw [hfiles, hwritten]
  refine ⟨nodup_paths_iff hout hplace hentry, fun h => follow_paths_iff h hplace hentry, ?_, ?_⟩
  · intro hsource
    have hkept : e.files.entry? place = some (.text text) :=
      (entry?_of_build hverb he hsource).trans htext
    refine ⟨hkept, fun hbinary after hafter => ?_⟩
    rw [hafter place, hkept]
    rwa [Ne, follow_of_build hverb he]
  · obtain hnone | ⟨s, p, hs, hp, hwrite, hw⟩ := effect_build hverb he
    · exact Or.inl hnone
    · exact Or.inr ⟨s, p, hs, hp, hw, Files.entry?_of_write hwrite⟩

section Alone

theorem readProgram_eq_ok {files : Files} {p : Program} (hread : files.read i.file = .ok text)
    (hparse : parse text = .ok p) : i.readProgram files = .ok p := by
  rw [readProgram, hread]
  change (parse text).mapError _ = _
  rw [hparse]
  rfl

theorem run_build (decode : Settings.Decoder) (limit : Nat) {s : Settings} {p : Program}
    {files : Files} (hverb : i.verb = .build) (hsettings : i.settings decode w.files = .ok s)
    (hprogram : i.readProgram w.files = .ok p) (himports : p.imports = [])
    (hcompile : s.toolchain.compile w.compilers = .ok ())
    (hwrite : w.files.write i.sourcePath (Program.cpp ⟨p.ownDeclarations⟩) = .ok files) :
    i.run decode limit w =
      some ⟨0, "", "", files, [(i.sourcePath, Program.cpp ⟨p.ownDeclarations⟩)]⟩ := by
  have hload : i.loadProgram w.files s = some (.ok ⟨p.ownDeclarations⟩) := by
    rw [loadProgram, hprogram]
    simp only [Resolver.link, Program.link, himports]
    rfl
  have heffect : i.effect decode limit w =
      some ⟨none, "", files, [(i.sourcePath, Program.cpp ⟨p.ownDeclarations⟩)]⟩ := by
    rw [effect, hsettings]
    simp only [hload]
    rw [act, hverb]
    simp only [build, writing, hwrite, hcompile]
  rw [run, heffect]
  rfl

theorem head?_of_cpp {p : Program} (h : p.cpp = text) : text.toList.head? = some '#' := by
  have hstart : ∃ rest, Cpp.prelude = "#include <cctype>" ++ rest := by
    rw [Cpp.prelude, List.map_cons, String.join_cons, Cpp.headersLines, Cpp.textOf, List.map_cons,
      String.join_cons, String.append_assoc, String.append_assoc]
    exact ⟨_, rfl⟩
  obtain ⟨rest, hrest⟩ := hstart
  rw [← h, Program.cpp, hrest, String.append_assoc, String.toList_append]
  rfl

/-- A directory with a settings file and this program. -/
def holding (name text : String) : Files :=
  ⟨["home"], [(["home"], .directory), (["home", "c.yaml"], .text "compiler: 'true'\n"),
    (["home", name], .text text)]⟩

/-- A program that does nothing, and a compiler that accepts everything. -/
def idle (name : String) : World where
  files := holding name "func main() { }"
  input := ""
  compilers name := if name = "true" then .accepted else .notFound

def building (name : String) : Invocation := ⟨.build, name, none, ⟨0, some "c.yaml", [], false⟩⟩

def choosing (compiler : String) : Settings := { Settings.default with compiler := compiler }

/-- What a reader of documents makes of the one in the directory. -/
def decodeCompiler : Settings.Decoder := fun text =>
  if text = "compiler: 'true'\n" then .ok (choosing "true") else .error "unknown document"

theorem settings_building (name : String) :
    (building name).settings decodeCompiler (idle name).files = .ok (choosing "true") := by
  have hread : (idle name).files.read "c.yaml" = .ok "compiler: 'true'\n" := rfl
  rw [settings]
  change (do let text ← ((idle name).files.read "c.yaml").mapError _; _) = _
  rw [hread]
  rfl

theorem parse_idle : parse "func main() { }" = .ok ⟨[.function ⟨none, "main", [], []⟩]⟩ := by
  decide +kernel

theorem build_paths_module :
    (building "p.vn").Apart ∧ ∃ r, (building "p.vn").run decodeCompiler 0 (idle "p.vn") = some r ∧
      r.written ≠ [] ∧ r.files.entry? ["home", "p.vn"] = some (.text "func main() { }") := by
  have hwrite (code : String) : (idle "p.vn").files.write "p.cpp" code =
      .ok ((idle "p.vn").files.put ["home", "p.cpp"] (.text code)) := rfl
  have hread : (idle "p.vn").files.read "p.vn" = .ok "func main() { }" := rfl
  have hrun := run_build decodeCompiler 0 (i := building "p.vn") (w := idle "p.vn")
    rfl (settings_building "p.vn") (readProgram_eq_ok hread parse_idle) rfl rfl (hwrite _)
  have hfollow : (idle "p.vn").files.follow "p.vn" = .ok ["home", "p.vn"] := rfl
  obtain ⟨happ, helse, hkept, -⟩ :=
    build_paths rfl (Option.some_ne_none _).symm hfollow rfl hrun
  have hpaths : [(building "p.vn").file, (building "p.vn").sourcePath, (building "p.vn").binaryPath] =
      ["p.vn", "p.cpp", "p"] := rfl
  rw [hpaths] at happ
  refine ⟨happ.1 (by decide), _, hrun, nofun, (hkept fun h => ?_).1⟩
  exact absurd ((helse rfl _ List.mem_cons_self).1 h) (by decide)

/-- The generated code of a program whose name ends as that of generated code takes its place. -/
theorem build_replaces_program :
    (building "p.cpp").output ≠ some (building "p.cpp").file ∧
      (building "p.cpp").sourcePath = (building "p.cpp").file ∧
      (idle "p.cpp").files.read "p.cpp" = .ok "func main() { }" ∧
      ∃ r, (building "p.cpp").run decodeCompiler 0 (idle "p.cpp") = some r ∧ r.status = 0 ∧
        r.files.read "p.cpp" ≠ .ok "func main() { }" := by
  have hwrite (code : String) : (idle "p.cpp").files.write "p.cpp" code =
      .ok (holding "p.cpp" code) := rfl
  have hread (code : String) : (holding "p.cpp" code).read "p.cpp" = .ok code := rfl
  have hrun := run_build decodeCompiler 0 (i := building "p.cpp") (w := idle "p.cpp")
    rfl (settings_building "p.cpp") (readProgram_eq_ok (hread _) parse_idle) rfl rfl (hwrite _)
  refine ⟨(Option.some_ne_none _).symm, rfl, hread _, _, hrun, rfl, fun h => ?_⟩
  rw [hread] at h
  exact absurd (head?_of_cpp (Except.ok.inj h)) (by decide)

end Alone

end VnScript.Command.Invocation
