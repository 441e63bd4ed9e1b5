import FetchPlan.Proofs.Reach
import FetchPlan.Proofs.Resolution

/-! Errors of requested paths. An error names the first path with a blank segment, or else a place
at which paths arrive: relation fields lead to the entity it names, and what it says about the field
named last is true of that entity and of the paths. -/
namespace FetchPlan

/-- What a problem says about the field `name` of `e`, for paths of which some end with it (`ends`)
or go on behind it (`continues`). -/
def PathProblem.Justified (e : Entity) (name : String) (ends continues : Prop) : PathProblem → Prop
  | .emptySegment => False
  | .unknownField named => named = name ∧ e.field? name = none ∧ name ≠ "uuid" ∧ ends ∧ ¬ continues
  | .unknownRelation named => named = name ∧ e.field? name = none ∧ continues
  | .notARelation named => named = name ∧
      ((∃ f, e.field? name = some (.plain f)) ∨ e.field? name = some (.virtual name)) ∧ continues
  | .missingNestedField named => named = name ∧ (∃ relation, e.relation? name = some relation) ∧ ends

theorem PathProblem.Justified.congr {problem : PathProblem} (ends : a ↔ a') (continues : b ↔ b')
    (justified : problem.Justified e name a b) : problem.Justified e name a' b' := by
  rwa [← ends, ← continues]

/-- Some path goes on behind `p`. -/
def Continued (ps : List FieldPath) (p : FieldPath) : Prop := ∃ rest, rest ≠ [] ∧ p ++ rest ∈ ps

theorem continued_below {p : FieldPath} : Continued (below [name] ps) p ↔ Continued ps (name :: p) := by
  constructor
  · rintro ⟨rest, proper, member⟩
    exact ⟨rest, proper, (mem_below.mp member).2⟩
  · rintro ⟨rest, proper, asked⟩
    exact ⟨rest, proper, mem_below.mpr ⟨by simp [proper], asked⟩⟩

/-- The entry of a first segment has children exactly if some path goes on behind the segment. -/
theorem Selection.children_ne_nil_iff : (entryOf ps name).children ≠ [] ↔ Continued ps [name] := by
  constructor
  · intro inhabited
    have left : below [name] ps ≠ [] := by
      intro nothing
      rw [entryOf, nothing] at inhabited
      exact inhabited rfl
    obtain ⟨rest, member⟩ := List.exists_mem_of_ne_nil _ left
    obtain ⟨proper, asked⟩ := mem_below.mp member
    exact ⟨rest, proper, asked⟩
  · rintro ⟨rest, proper, asked⟩
    exact ofPaths_ne_nil (mem_below.mpr ⟨proper, asked⟩) proper

theorem Selection.ends_iff (asked : name :: rest ∈ ps) :
    ((entryOf ps name).terminal = true ∨ (entryOf ps name).children = []) ↔ [name] ∈ ps := by
  have ends : (entryOf ps name).terminal = true ↔ [name] ∈ ps := by simp [entryOf]
  rw [ends]
  refine or_iff_left_of_imp fun childless => ?_
  by_cases last : rest = []
  · exact last ▸ asked
  · exact absurd childless (children_ne_nil_iff.mpr ⟨rest, last, asked⟩)

namespace Registry

variable {r : Registry}

/-- Why an entry is refused: by itself, for want of the relation's target, or for an entry below. -/
theorem resolveEntry_error {e : Entity} {children : List SelectionEntry}
    (failed : r.resolveEntry e path ⟨name, terminal, children⟩ = .error problem) :
    (∃ fault, problem = .badPath e.id (path ++ [name]) fault ∧
      fault.Justified e name (terminal = true ∨ children = []) (children ≠ [])) ∨
    (∃ relation, e.relation? name = some relation ∧ r.entities.get? relation.target = none ∧
      problem = .unresolvedRelation e.id name relation.target) ∨
    ∃ t, r.behind? e name = some t ∧ r.resolveEntries t (path ++ [name]) children = .error problem := by
  rw [resolveEntry] at failed
  cases found : e.field? name with
  | none =>
    simp only [found] at failed
    rcases unless_error failed with ⟨inhabited, rfl⟩ | ⟨empty, failed⟩
    · exact .inl ⟨.unknownRelation name, rfl, rfl, found, by simpa using inhabited⟩
    · split at failed
      · contradiction
      · rename_i other
        cases failed
        have childless : children = [] := List.isEmpty_iff.mp empty
        exact .inl ⟨.unknownField name, rfl, rfl, found, other, .inr childless, not_not_intro childless⟩
  | some f =>
    have named := Entity.name_of_field? found
    cases f with
    | plain f =>
      simp only [found] at failed
      rcases unless_error failed with ⟨inhabited, rfl⟩ | ⟨_, failed⟩
      · exact .inl ⟨.notARelation name, rfl, rfl, .inl ⟨f, found⟩, by simpa using inhabited⟩
      · contradiction
    | virtual v =>
      simp only [found] at failed
      rcases unless_error failed with ⟨inhabited, rfl⟩ | ⟨_, failed⟩
      · subst named
        exact .inl ⟨.notARelation _, rfl, rfl, .inr found, by simpa using inhabited⟩
      · contradiction
    | relation relation =>
      have declared := Entity.relation?_eq_some.mpr found
      simp only [found] at failed
      split at failed
      · rename_i bare
        cases failed
        exact .inl ⟨.missingNestedField name, rfl, rfl, ⟨relation, declared⟩, by simpa using bare⟩
      · rcases bind_eq_error.mp failed with missing | ⟨t, registered, failed⟩
        · obtain ⟨absent, rfl⟩ := target_eq_error.mp missing
          exact .inr (.inl ⟨relation, declared, absent, by rw [← named]; rfl⟩)
        · have behind := behind?_eq_some.mpr ⟨relation, declared, target_eq_ok.mp registered⟩
          rcases bind_eq_error.mp failed with below | ⟨nodes, _, failed⟩
          · exact .inr (.inr ⟨t, behind, below⟩)
          · contradiction

theorem resolveEntries_error {entries : List SelectionEntry}
    (failed : r.resolveEntries e path entries = .error problem) :
    ∃ entry ∈ entries, r.resolveEntry e path entry = .error problem := by
  induction entries with
  | nil => contradiction
  | cons entry entries ih =>
    rw [resolveEntries] at failed
    rcases bind_eq_error.mp failed with here | ⟨node, _, failed⟩
    · exact ⟨entry, by simp, here⟩
    · rcases bind_eq_error.mp failed with later | ⟨nodes, _, failed⟩
      · obtain ⟨other, among, refused⟩ := ih later
        exact ⟨other, List.mem_cons_of_mem _ among, refused⟩
      · contradiction

/-- Relation fields lead from `e` to `owner`, some path of `ps` passes its field `name` next, and the
problem is what is wrong with that. -/
structure Culprit (r : Registry) (e : Entity) (ps : List FieldPath) (owner : Entity) (q : FieldPath)
    (name : String) (problem : PathProblem) : Prop where
  reached : r.through? e q = some owner
  asked : ∃ p ∈ ps, q ++ [name] <+: p
  justified : problem.Justified owner name (q ++ [name] ∈ ps) (Continued ps (q ++ [name]))

theorem culprit_here (asked : name :: rest ∈ ps) {problem : PathProblem}
    (justified : problem.Justified e name
      ((Selection.entryOf ps name).terminal = true ∨ (Selection.entryOf ps name).children = [])
      ((Selection.entryOf ps name).children ≠ [])) : r.Culprit e ps e [] name problem where
  reached := rfl
  asked := ⟨_, asked, rest, rfl⟩
  justified := justified.congr (Selection.ends_iff asked) Selection.children_ne_nil_iff

/-- A culprit for what is left behind a relation is one for the whole paths. -/
theorem Culprit.behind {problem : PathProblem} (first : r.behind? e name = some t)
    (culprit : r.Culprit t (below [name] ps) owner q last problem) :
    r.Culprit e ps owner (name :: q) last problem where
  reached := by
    have reached := culprit.reached
    simp [first, reached]
  asked := by
    obtain ⟨p, left, leads⟩ := culprit.asked
    exact ⟨name :: p, (mem_below.mp left).2, (List.prefix_cons_inj name).mpr leads⟩
  justified := by
    have ends : q ++ [last] ∈ below [name] ps ↔ name :: q ++ [last] ∈ ps := by
      simp [mem_below]
    exact culprit.justified.congr ends continued_below

/-- An error below `path` is about a culprit, or about a relation on the way whose target is missing. -/
theorem resolveEntries_blames (ps : List FieldPath) (e : Entity) (path : FieldPath)
    (failed : r.resolveEntries e path (Selection.ofPaths ps) = .error problem) :
    (∃ owner q name fault, problem = .badPath owner.id (path ++ (q ++ [name])) fault ∧
      r.Culprit e ps owner q name fault) ∨
    ∃ owner q name relation, r.through? e q = some owner ∧ owner.relation? name = some relation ∧
      r.entities.get? relation.target = none ∧
      problem = .unresolvedRelation owner.id name relation.target := by
  induction ps using below_induction generalizing e path with
  | step ps ih =>
    obtain ⟨entry, listed, refused⟩ := resolveEntries_error failed
    obtain ⟨name, rest, asked, rfl⟩ := Selection.exists_path_of_mem listed
    rcases resolveEntry_error refused with ⟨fault, same, justified⟩ | ⟨relation, declared, absent, same⟩ |
      ⟨t, first, inside⟩
    · exact .inl ⟨e, [], name, fault, same, culprit_here asked justified⟩
    · exact .inr ⟨e, [], name, relation, rfl, declared, absent, same⟩
    · rcases ih [name] rest (by simp) asked t _ inside with
        ⟨owner, q, last, fault, same, culprit⟩ | ⟨owner, q, last, relation, reached, missing⟩
      · exact .inl ⟨owner, name :: q, last, fault, by simpa using same, culprit.behind first⟩
      · exact .inr ⟨owner, name :: q, last, relation, by simp [first, reached], missing⟩

def hasBlankSegment (path : String) : Bool := (Text.split '.' path).any Text.isBlankText

/-- If a path has a blank segment, the first such path is named, on the entity that was asked. Else
the error names a culprit: the path to its field, and the entity that has the field or lacks it. -/
theorem resolvePaths_culprit {paths : List String}
    (failed : r.resolvePaths e paths = .error (.badPath entity place problem)) :
    (∀ first, paths.find? hasBlankSegment = some first →
      entity = e.id ∧ place.dotted = first ∧ problem = .emptySegment) ∧
    (paths.find? hasBlankSegment = none → ∃ owner q name, entity = owner.id ∧ place = q ++ [name] ∧
      r.Culprit e (requested paths) owner q name problem) := by
  have blank : (requested paths).find? (·.any Text.isBlankText) =
      (paths.find? hasBlankSegment).map (Text.split '.') := by
    rw [requested, List.find?_map]
    rfl
  rw [resolvePaths, Selection.parse_eq, blank] at failed
  constructor
  · intro first found
    rw [found] at failed
    cases failed
    exact ⟨rfl, FieldPath.dotted_split first, rfl⟩
  · intro solid
    rw [solid] at failed
    rcases resolveEntries_blames _ e [] failed with ⟨owner, q, name, _, same, culprit⟩ |
      ⟨_, _, _, _, _, _, _, other⟩
    · cases same
      exact ⟨owner, q, name, rfl, rfl, culprit⟩
    · contradiction

theorem resolvePaths_culprit_sample :
    (Sample.cabinet.resolvePaths Sample.folder ["name", "files.folder.files", "files.folder.files.url"] =
        .error (.badPath "Folder" ["files", "folder", "files"] (.missingNestedField "files")) ∧
      ∃ owner q name, "Folder" = owner.id ∧ ["files", "folder", "files"] = q ++ [name] ∧
        Sample.cabinet.Culprit Sample.folder
          (requested ["name", "files.folder.files", "files.folder.files.url"]) owner q name
          (.missingNestedField "files")) ∧
    Sample.cabinet.resolvePaths Sample.folder ["size", "files..url", " "] =
        .error (.badPath "Folder" ["files", "", "url"] .emptySegment) ∧
      FieldPath.dotted ["files", "", "url"] = "files..url" := by
  have bare : Sample.cabinet.resolvePaths Sample.folder
      ["name", "files.folder.files", "files.folder.files.url"] =
        .error (.badPath "Folder" ["files", "folder", "files"] (.missingNestedField "files")) :=
    error_of_map (show Except.map (fun _ => ()) _ = .error _ by decide +kernel)
  have blank : Sample.cabinet.resolvePaths Sample.folder ["size", "files..url", " "] =
      .error (.badPath "Folder" ["files", "", "url"] .emptySegment) :=
    error_of_map (show Except.map (fun _ => ()) _ = .error _ by decide +kernel)
  obtain ⟨_, text, _⟩ := (resolvePaths_culprit blank).1 "files..url" (by decide +kernel)
  exact ⟨⟨bare, (resolvePaths_culprit bare).2 (by decide +kernel)⟩, blank, text⟩

end Registry
end FetchPlan
