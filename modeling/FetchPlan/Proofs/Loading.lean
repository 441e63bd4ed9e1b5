import FetchPlan.Proofs.Discovery
import FetchPlan.Proofs.Registration
import FetchPlan.Proofs.Targets

/-! Loading from several paths. What comes of it is decided by the set of entities that the files at
these paths hold, so neither the order of the paths nor a file that is met twice matters. -/
namespace FetchPlan.Files

section File

variable {t : FileTree}

theorem readAt_eq_ok {file : String} : t.readAt file = .ok text ↔ isTooLong file = false ∧ t = .file (some text) := by
  rw [FileTree.readAt]
  cases isTooLong file with
  | true => simp [throw, throwThe, MonadExceptOf.throw]
  | false =>
    rcases t with (_ | text) | entries <;>
      simp [FileTree.read, pure, Except.pure, throw, throwThe, MonadExceptOf.throw]

/-- An entity is among those of a text, in the language that the file's name tells. -/
def Defines (file text : String) (e : Entity) : Prop :=
  ∃ contents, DefinitionFile.ofText ((fileExtension? (pathName file)).getD "" = "toml") file text = .ok contents ∧
    e ∈ contents.entities

theorem mem_loadFile (done : loadFile file t = .ok loaded) :
    (file', e) ∈ loaded ↔ file' = file ∧ ∃ text, t = .file (some text) ∧ Defines file text e := by
  rw [loadFile] at done
  obtain ⟨_, rest⟩ := guard_ok done
  obtain ⟨text, read, rest⟩ := bind_eq_ok.mp rest
  obtain ⟨contents, understood, last⟩ := bind_eq_ok.mp rest
  cases last
  obtain ⟨_, rfl⟩ := readAt_eq_ok.mp (mapError_eq_ok.mp read)
  rw [List.mem_map]
  constructor
  · rintro ⟨e, member, same⟩
    cases same
    exact ⟨rfl, text, rfl, contents, understood, member⟩
  · rintro ⟨rfl, text', same, contents', understood', member⟩
    cases same
    cases understood.symm.trans understood'
    exact ⟨e, member, rfl⟩

end File

variable {files : Files} {paths : List String} {checkRelations : Bool} {r r' : Registry}

/-- The file at a path, or a definition file below it, has an entity in its text. -/
inductive Holds (files : Files) (path : String) : String → Entity → Prop
  | itself (found : files path = some (.file (some text))) (defined : Defines path text e) : Holds files path path e
  | below (found : files path = some (.directory entries))
      (listed : FileTree.Listed path [] entries (names, .file (some text)))
      (defined : Defines (extendPath path names) text e) : Holds files path (extendPath path names) e

theorem mem_loadTree_directory (done : loadTree path (.directory entries) = .ok loaded) : (file, e) ∈ loaded ↔
    ∃ names text, FileTree.Listed path [] entries (names, .file (some text)) ∧ file = extendPath path names ∧
      Defines file text e := by
  obtain ⟨parts, loads, last⟩ := bind_eq_ok.mp done
  cases last
  obtain ⟨part, each, rfl⟩ := mapM_ok loads
  rw [List.mem_flatten]
  constructor
  · rintro ⟨_, member, among⟩
    obtain ⟨⟨names, t⟩, listed, rfl⟩ := List.mem_map.mp member
    obtain ⟨rfl, text, rfl, defined⟩ := (mem_loadFile (each _ listed)).mp among
    exact ⟨names, text, FileTree.mem_definitionFiles.mp listed, rfl, defined⟩
  · rintro ⟨names, text, listed, rfl, defined⟩
    have listed := FileTree.mem_definitionFiles.mpr listed
    exact ⟨_, List.mem_map_of_mem listed, (mem_loadFile (each _ listed)).mpr ⟨rfl, text, rfl, defined⟩⟩

/-- What is loaded from a path is what the files there hold. -/
theorem mem_loadDefinitions (done : files.loadDefinitions path = .ok loaded) :
    (file, e) ∈ loaded ↔ Holds files path file e := by
  rw [loadDefinitions] at done
  split at done
  case h_2 => cases done
  rename_i t found
  cases t with
  | file text =>
    rw [mem_loadFile done]
    constructor
    · rintro ⟨rfl, text, same, defined⟩
      exact .itself (same ▸ found) defined
    · rintro (⟨found', defined⟩ | ⟨found', _, _⟩) <;> cases found.symm.trans found'
      exact ⟨rfl, _, rfl, defined⟩
  | directory entries =>
    rw [mem_loadTree_directory done]
    constructor
    · rintro ⟨names, text, listed, rfl, defined⟩
      exact .below found listed defined
    · rintro (⟨found', _⟩ | ⟨found', listed, defined⟩) <;> cases found.symm.trans found'
      exact ⟨_, _, listed, rfl, defined⟩

/-- An entity is in a file at one of the paths, or below it. -/
def Loads (files : Files) (paths : List String) (e : Entity) : Prop := ∃ path ∈ paths, ∃ file, Holds files path file e

/-- Every path loads. What they hold is valid, no two entities of one id differ, and, if relations are
checked, each of them leads to one of the entities. -/
structure Loadable (files : Files) (paths : List String) (checkRelations : Bool) : Prop where
  load : ∀ path ∈ paths, ∃ loaded, files.loadDefinitions path = .ok loaded
  valid : ∀ e, files.Loads paths e → e.validate = .ok ()
  agree : ∀ e e', files.Loads paths e → files.Loads paths e' → e.id = e'.id → e = e'
  targets : checkRelations = true → ∀ e relation, files.Loads paths e → .relation relation ∈ e.fields →
    ∃ t, files.Loads paths t ∧ t.id = relation.target

theorem mem_loads (done : paths.mapM files.loadDefinitions = .ok parts) :
    e ∈ parts.flatten.map (·.2) ↔ files.Loads paths e := by
  obtain ⟨part, each, rfl⟩ := mapM_ok done
  constructor
  · intro member
    obtain ⟨⟨file, e⟩, among, rfl⟩ := List.mem_map.mp member
    obtain ⟨_, among', among⟩ := List.mem_flatten.mp among
    obtain ⟨path, member, rfl⟩ := List.mem_map.mp among'
    exact ⟨path, member, file, (mem_loadDefinitions (each path member)).mp among⟩
  · rintro ⟨path, member, file, held⟩
    have among := (mem_loadDefinitions (each path member)).mpr held
    exact List.mem_map.mpr ⟨(file, e), List.mem_flatten.mpr ⟨_, List.mem_map_of_mem member, among⟩, rfl⟩

/-- The registry has the entities of the files, each under its id, and no others. -/
def Filled (files : Files) (paths : List String) (r : Registry) : Prop :=
  ∀ id e, r.entities.get? id = some e ↔ files.Loads paths e ∧ e.id = id

theorem Filled.checkRelations_eq_ok_iff (filled : files.Filled paths r) :
    r.checkRelations = .ok () ↔ ∀ e relation, files.Loads paths e → .relation relation ∈ e.fields →
      ∃ t, files.Loads paths t ∧ t.id = relation.target := by
  rw [Registry.checkRelations_eq_ok_iff]
  constructor
  · intro closed e relation loads declared
    obtain ⟨t, found⟩ := closed e.id e relation ((filled e.id e).mpr ⟨loads, rfl⟩) declared
    exact ⟨t, (filled _ t).mp found⟩
  · intro targets id e relation found declared
    obtain ⟨t, loads⟩ := targets e relation ((filled id e).mp found).1 declared
    exact ⟨t, (filled _ t).mpr loads⟩

theorem Loadable.consistent (loadable : files.Loadable paths checkRelations)
    (done : paths.mapM files.loadDefinitions = .ok parts) : Consistent (parts.flatten.map (·.2)) where
  valid e member := loadable.valid e ((mem_loads done).mp member)
  agree e member e' member' := loadable.agree e e' ((mem_loads done).mp member) ((mem_loads done).mp member')

section SamePaths

variable {paths' : List String} (same : ∀ path, path ∈ paths ↔ path ∈ paths')

include same

theorem loads_congr : files.Loads paths e ↔ files.Loads paths' e :=
  exists_congr fun path => and_congr_left fun _ => same path

theorem Loadable.of_same (loadable : files.Loadable paths checkRelations) : files.Loadable paths' checkRelations where
  load path member := loadable.load path ((same path).mpr member)
  valid e loads := loadable.valid e ((loads_congr same).mpr loads)
  agree e e' loads loads' := loadable.agree e e' ((loads_congr same).mpr loads) ((loads_congr same).mpr loads')
  targets flag e relation loads declared := by
    obtain ⟨t, target, named⟩ := loadable.targets flag e relation ((loads_congr same).mpr loads) declared
    exact ⟨t, (loads_congr same).mp target, named⟩

theorem Filled.of_same (filled : files.Filled paths r) : files.Filled paths' r :=
  fun id e => (filled id e).trans (and_congr_left fun _ => loads_congr same)

end SamePaths

end FetchPlan.Files
