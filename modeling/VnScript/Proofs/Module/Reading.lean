import VnScript.Module.Resolver
import VnScript.Proofs.Files.Tree

namespace VnScript

namespace Files

variable {f : Files} {path content : String}

theorem mem_of_entry? {place : FilePlace} (h : f.entry? place = some (.text content)) :
    (place, .text content) ∈ f.entries := by
  unfold entry? at h
  split at h
  · cases h
  · obtain ⟨before, after, he, -⟩ := List.lookup_eq_some_iff.1 h
    simp [he]

theorem mem_of_read (h : f.read path = .ok content) :
    ∃ place, (place, .text content) ∈ f.entries := by
  obtain ⟨-, place, -, he⟩ := read_eq_ok_iff.1 h
  exact ⟨place, mem_of_entry? he⟩

end Files

namespace Resolver

variable {files : Files} {roots : List String} {name path content : String}

/-- The path at which the first root that has a file of the module has it. -/
def FoundAt (files : Files) (roots : List String) (name path : String) : Prop :=
  ∃ before root after, roots = before ++ root :: after ∧
    path = Path.join root (modulePath name) ∧ files.isFile path = true ∧
    ∀ r ∈ before, files.isFile (Path.join r (modulePath name)) = false

/-- What the reading of a module comes to. -/
inductive Reads (files : Files) (roots : List String) (name : String) :
    Except ResolveError Program → Prop
  | missing (h : ∀ root ∈ roots, files.isFile (Path.join root (modulePath name)) = false) :
      Reads files roots name
        (.error (.notFound name (roots.map fun root => Path.join root (modulePath name))))
  | unreadable {path : String} {e : FileError} (h : FoundAt files roots name path)
      (hr : files.read path = .error e) : Reads files roots name (.error (.unreadable path e))
  | malformed {path content : String} {e : ParseError} (h : FoundAt files roots name path)
      (hr : files.read path = .ok content) (hp : parse content = .error e) :
      Reads files roots name (.error (.malformed path e))
  | program {path content : String} {q : Program} (h : FoundAt files roots name path)
      (hr : files.read path = .ok content) (hp : parse content = .ok q) :
      Reads files roots name (.ok q)

/-- A module is found below some root, and its file can be read and parsed. -/
def Readable (files : Files) (roots : List String) (name : String) : Prop :=
  ∃ path content q, FoundAt files roots name path ∧ files.read path = .ok content ∧
    parse content = .ok q

theorem find?_candidates :
    (candidates roots name).find? files.isFile = some path ↔ FoundAt files roots name path := by
  rw [candidates, List.find?_map, Option.map_eq_some_iff]
  simp only [List.find?_eq_some_iff_append, Function.comp_apply, Bool.not_eq_true']
  constructor
  · rintro ⟨root, ⟨hfile, before, after, rfl, hbefore⟩, rfl⟩
    exact ⟨before, root, after, rfl, rfl, hfile, hbefore⟩
  · rintro ⟨before, root, after, rfl, rfl, hfile, hbefore⟩
    exact ⟨root, ⟨hfile, before, after, rfl, hbefore⟩, rfl⟩

theorem locate_found (h : FoundAt files roots name path) : locate files roots name = .ok path := by
  rw [locate, find?_candidates.2 h]

theorem locate_missing
    (h : ∀ root ∈ roots, files.isFile (Path.join root (modulePath name)) = false) :
    locate files roots name =
      .error (.notFound name (roots.map fun root => Path.join root (modulePath name))) := by
  have hnone : (candidates roots name).find? files.isFile = none := by
    rw [candidates, List.find?_eq_none, List.forall_mem_map]
    simpa using h
  rw [locate, hnone]
  rfl

theorem found_or_missing (files : Files) (roots : List String) (name : String) :
    (∃ path, FoundAt files roots name path) ∨
      ∀ root ∈ roots, files.isFile (Path.join root (modulePath name)) = false := by
  cases h : (candidates roots name).find? files.isFile with
  | some path => exact Or.inl ⟨path, find?_candidates.1 h⟩
  | none =>
    rw [candidates, List.find?_eq_none, List.forall_mem_map] at h
    exact Or.inr (by simpa using h)

theorem readModule_found (h : FoundAt files roots name path) :
    readModule files roots name =
      (files.read path).mapError (.unreadable path) >>= fun content =>
        (parse content).mapError (.malformed path) := by
  rw [readModule, locate_found h]
  rfl

theorem reads_readModule (files : Files) (roots : List String) (name : String) :
    Reads files roots name (readModule files roots name) := by
  obtain ⟨path, h⟩ | h := found_or_missing files roots name
  · rw [readModule_found h]
    cases hr : files.read path with
    | error e => exact .unreadable h hr
    | ok content =>
      change Reads files roots name ((parse content).mapError _)
      cases hp : parse content with
      | error e => exact .malformed h hr hp
      | ok q => exact .program h hr hp
  · rw [readModule, locate_missing h]
    exact .missing h

theorem reads_iff {x : Except ResolveError Program} :
    Reads files roots name x ↔ readModule files roots name = x := by
  constructor
  · intro h
    cases h with
    | missing h => rw [readModule, locate_missing h]; rfl
    | unreadable h hr => rw [readModule_found h, hr]; rfl
    | malformed h hr hp | program h hr hp =>
      rw [readModule_found h, hr]
      change (parse _).mapError _ = _
      rw [hp]
      rfl
  · rintro rfl
    exact reads_readModule files roots name

theorem readModule_eq_ok_iff {q : Program} :
    readModule files roots name = .ok q ↔
      ∃ path content, FoundAt files roots name path ∧ files.read path = .ok content ∧
        parse content = .ok q := by
  rw [← reads_iff]
  constructor
  · rintro ⟨⟩
    exact ⟨_, _, by assumption, by assumption, by assumption⟩
  · rintro ⟨path, content, h, hr, hp⟩
    exact .program h hr hp

theorem readable_iff :
    Readable files roots name ↔ ∃ q, readModule files roots name = .ok q := by
  constructor
  · rintro ⟨path, content, q, h, hr, hp⟩
    exact ⟨q, readModule_eq_ok_iff.2 ⟨path, content, h, hr, hp⟩⟩
  · rintro ⟨q, hq⟩
    obtain ⟨path, content, h, hr, hp⟩ := readModule_eq_ok_iff.1 hq
    exact ⟨path, content, q, h, hr, hp⟩

/-- That a circle closes is found in a search only, not in a file. -/
theorem readModule_ne_circular {k : String} {chain : List String} :
    readModule files roots name ≠ .error (.circular k chain) :=
  fun h => nomatch reads_iff.2 h

def importable (files : Files) : List String :=
  files.entries.flatMap fun (_, entry) =>
    match entry with
    | .text content =>
      match parse content with
      | .ok q => q.imports
      | .error _ => []
    | _ => []

theorem imports_subset_importable {q : Program} (hq : readModule files roots name = .ok q) :
    q.imports ⊆ importable files := by
  obtain ⟨path, content, -, hr, hp⟩ := readModule_eq_ok_iff.1 hq
  obtain ⟨place, hm⟩ := Files.mem_of_read hr
  intro i hi
  exact List.mem_flatMap.2 ⟨_, hm, by simpa [hp] using hi⟩

end Resolver

end VnScript
