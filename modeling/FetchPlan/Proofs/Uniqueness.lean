import FetchPlan.Proofs.Alias
import FetchPlan.Proofs.WellFormed
import FetchPlan.Uniqueness
import Mathlib.Data.Finset.Dedup
import Mathlib.Data.Finset.Insert

/-! Uniqueness declarations. Every set of columns that fields declare is one constraint, and the columns
of the constraints are those listed as unique. They are columns the entity holds, save for the keys of
relations that are declared unique on the side that has no key. -/
namespace FetchPlan

theorem mem_sortedDistinct : a ∈ sortedDistinct l ↔ a ∈ l := by
  simp [sortedDistinct, SortedMap.mem_keys_ofList]

theorem toFinset_sortedDistinct (l : List String) : (sortedDistinct l).toFinset = l.toFinset := by
  ext a
  rw [List.mem_toFinset, List.mem_toFinset, mem_sortedDistinct]

theorem sortedDistinct_increasing (l : List String) : (sortedDistinct l).Pairwise (· < ·) :=
  SortedMap.keys_increasing _

theorem nodup_of_increasing {l : List String} (increasing : l.Pairwise (· < ·)) : l.Nodup := by
  refine increasing.imp ?_
  rintro a _ less rfl
  exact String.lt_irrefl a less

/-- A set of columns has one increasing list. -/
theorem eq_of_increasing {l m : List String} (increasing : l.Pairwise (· < ·))
    (increasing' : m.Pairwise (· < ·)) (same : l.toFinset = m.toFinset) : l = m := by
  have members (a : String) : a ∈ l ↔ a ∈ m := by
    rw [← List.mem_toFinset, same, List.mem_toFinset]
  have order : l.Perm m := (List.perm_ext_iff_of_nodup (nodup_of_increasing increasing)
    (nodup_of_increasing increasing')).mpr members
  exact order.eq_of_pairwise (fun _ _ _ _ less more => absurd more (String.lt_asymm less))
    increasing increasing'

/-- A declaration that is in force, with the partners it lists. -/
inductive Uniqueness.Lists : Uniqueness → List String → Prop where
  | flag : Lists (.flag true) []
  | composite (ps : List String) : Lists (.composite ps) ps

theorem Uniqueness.lists_iff {u : Uniqueness} : u.Lists ps ↔ u.inForce = true ∧ ps = u.partners := by
  constructor
  · rintro (_ | _) <;> exact ⟨rfl, rfl⟩
  · rintro ⟨inForce, rfl⟩
    rcases u with ⟨_ | _⟩ | ps
    · contradiction
    · exact .flag
    · exact .composite ps

/-- The set of columns that a field declares unique: its own one and the partners. -/
inductive Field.Declares : Field → Finset String → Prop where
  | plain {f : PlainField} (declared : f.unique = some u) (lists : u.Lists ps) :
    Declares (.plain f) (insert f.name ps.toFinset)
  | relation {r : RelationField} (declared : r.unique = some u) (lists : u.Lists ps) :
    Declares (.relation r) (insert (foreignKey r.name) ps.toFinset)

namespace Field

variable {f : Field}

theorem uniqueColumns?_eq_some : f.uniqueColumns? = some columns ↔
    ∃ u ps, f.unique = some u ∧ u.Lists ps ∧ columns = f.ownColumn :: ps := by
  simp only [uniqueColumns?, Uniqueness.lists_iff]
  cases f.unique with
  | none => simp
  | some u =>
    by_cases inForce : u.inForce = true
    · simpa [inForce] using eq_comm
    · simp [inForce]

theorem declares_iff : f.Declares S ↔ ∃ columns, f.uniqueColumns? = some columns ∧ columns.toFinset = S := by
  simp only [uniqueColumns?_eq_some]
  constructor
  · rintro (⟨declared, lists⟩ | ⟨declared, lists⟩)
    · exact ⟨_, ⟨_, _, declared, lists, rfl⟩, List.toFinset_cons⟩
    · exact ⟨_, ⟨_, _, declared, lists, rfl⟩, List.toFinset_cons⟩
  · rintro ⟨_, ⟨u, ps, declared, lists, rfl⟩, rfl⟩
    rw [List.toFinset_cons]
    cases f with
    | plain => exact .plain declared lists
    | virtual => contradiction
    | relation => exact .relation declared lists

end Field

namespace Entity

variable {e : Entity}

/-- Some field declares the columns unique. -/
def DeclaresUnique (e : Entity) (S : Finset String) : Prop := ∃ f ∈ e.fields, f.Declares S

theorem declaresUnique_iff : e.DeclaresUnique S ↔ ∃ columns ∈ e.declaredUnique, columns.toFinset = S := by
  simp only [DeclaresUnique, Field.declares_iff, declaredUnique, List.mem_filterMap]
  constructor
  · rintro ⟨f, member, columns, declared, set⟩
    exact ⟨columns, ⟨f, member, declared⟩, set⟩
  · rintro ⟨columns, ⟨f, member, declared⟩, set⟩
    exact ⟨f, member, columns, declared, set⟩

theorem DeclaresUnique.nonempty (declared : e.DeclaresUnique S) : S.Nonempty := by
  obtain ⟨f, _, _ | _⟩ := declared <;> exact Finset.insert_nonempty ..

theorem mem_uniqueColumns : column ∈ e.uniqueColumns ↔ ∃ S, e.DeclaresUnique S ∧ column ∈ S := by
  rw [uniqueColumns, mem_distinct, List.mem_flatten]
  simp [declaresUnique_iff]

/-- Each declared set is one constraint, written in increasing order. -/
theorem mem_uniqueConstraints : columns ∈ e.uniqueConstraints ↔
    columns.Pairwise (· < ·) ∧ e.DeclaresUnique columns.toFinset := by
  rw [uniqueConstraints, mem_distinct, List.mem_map, declaresUnique_iff]
  constructor
  · rintro ⟨written, declared, rfl⟩
    exact ⟨sortedDistinct_increasing written, written, declared, (toFinset_sortedDistinct written).symm⟩
  · rintro ⟨increasing, written, declared, same⟩
    refine ⟨written, declared, eq_of_increasing (sortedDistinct_increasing written) increasing ?_⟩
    rw [toFinset_sortedDistinct, same]

theorem nodup_uniqueConstraints (e : Entity) : e.uniqueConstraints.Nodup := nodup_distinct _

theorem exists_constraint_iff {S : Finset String} :
    (∃ columns ∈ e.uniqueConstraints, columns.toFinset = S) ↔ e.DeclaresUnique S := by
  constructor
  · rintro ⟨columns, listed, rfl⟩
    exact (mem_uniqueConstraints.mp listed).2
  · intro declared
    obtain ⟨written, among, rfl⟩ := declaresUnique_iff.mp declared
    refine ⟨sortedDistinct written, mem_uniqueConstraints.mpr ⟨sortedDistinct_increasing written, ?_⟩, ?_⟩
    · rwa [toFinset_sortedDistinct]
    · exact toFinset_sortedDistinct written

/-- What the two views of an entity's declarations have to do with them and with each other. -/
structure UniquenessIndexed (e : Entity) : Prop where
  columnsDistinct : e.uniqueColumns.Nodup
  columns : ∀ column, column ∈ e.uniqueColumns ↔ ∃ columns ∈ e.uniqueConstraints, column ∈ columns
  constraintsDistinct : e.uniqueConstraints.Nodup
  increasing : ∀ columns ∈ e.uniqueConstraints, columns ≠ [] ∧ columns.Pairwise (· < ·)
  constraints : ∀ S, (∃ columns ∈ e.uniqueConstraints, columns.toFinset = S) ↔ e.DeclaresUnique S

theorem uniquenessIndexed (e : Entity) : e.UniquenessIndexed where
  columnsDistinct := nodup_distinct _
  columns column := by
    simp only [mem_uniqueColumns, ← exists_constraint_iff]
    simp
  constraintsDistinct := e.nodup_uniqueConstraints
  increasing columns listed := by
    obtain ⟨increasing, declared⟩ := mem_uniqueConstraints.mp listed
    refine ⟨fun empty => ?_, increasing⟩
    simpa [empty] using declared.nonempty
  constraints _ := exists_constraint_iff

theorem uniqueConstraints_perm_iff {e e' : Entity} : e.uniqueConstraints.Perm e'.uniqueConstraints ↔
    ∀ S, e.DeclaresUnique S ↔ e'.DeclaresUnique S := by
  rw [List.perm_ext_iff_of_nodup e.nodup_uniqueConstraints e'.nodup_uniqueConstraints]
  constructor
  · intro same S
    simp only [← exists_constraint_iff, same]
  · intro same columns
    rw [mem_uniqueConstraints, mem_uniqueConstraints, same]

/-- The columns listed as unique are those of the constraints, and the constraints are the sets of
columns that fields declare, each once and in increasing order. So definitions have the same constraints
exactly if they declare the same sets, whichever member declares a set, how often and in what order. -/
theorem uniqueConstraints_exact (e : Entity) : e.UniquenessIndexed ∧
    ∀ e' : Entity, e.uniqueConstraints.Perm e'.uniqueConstraints ↔
      ∀ S, e.DeclaresUnique S ↔ e'.DeclaresUnique S :=
  ⟨e.uniquenessIndexed, fun _ => uniqueConstraints_perm_iff⟩

end Entity

namespace Sample

/-- A user belongs to an organization once. Only the user's relation declares it. -/
def membershipOnce : Entity :=
  { membership with
    fields := [.relation ⟨"user", "User", .belongsToOne none, false, some (.composite ["org_id", "user_id"])⟩,
      .relation ⟨"org", "Organization", .belongsToOne none, false, some (.flag false)⟩,
      .plain ⟨"code", .string, false, none, none, some (.composite [])⟩] }

example : membership.uniqueConstraints = [["code"], ["org_id", "user_id"]] := by decide +kernel

example : membershipOnce.uniqueConstraints = [["org_id", "user_id"], ["code"]] := by decide +kernel

end Sample

namespace Entity

variable {e : Entity}

/-- Keys of different relations differ, so only a plain field can stand in for a key that a relation
does not own. -/
theorem WellFormed.hasColumn_foreignKey_iff (formed : e.WellFormed) (member : .relation r ∈ e.fields) :
    e.hasColumn (foreignKey r.name) = true ↔
      r.kind.ownsForeignKey = true ∨ ∃ f, .plain f ∈ e.fields ∧ f.name = foreignKey r.name := by
  rw [hasColumn_iff, or_comm]
  refine or_congr_left ⟨?_, fun owns => ⟨r, member, owns, rfl⟩⟩
  rintro ⟨r', member', owns, same⟩
  have again : Field.relation r' = .relation r :=
    List.inj_on_of_nodup_map formed.distinct member' member (foreignKey_inj.mp same)
  cases again
  exact owns

/-- A relation that is declared unique although neither it nor a plain field stores its key. -/
structure UniqueWithoutKey (e : Entity) (r : RelationField) : Prop where
  declared : .relation r ∈ e.fields
  unique : ∃ u ps, r.unique = some u ∧ u.Lists ps
  keyless : r.kind.ownsForeignKey = false
  alone : ∀ f, .plain f ∈ e.fields → f.name ≠ foreignKey r.name

theorem WellFormed.unheld_iff (formed : e.WellFormed) : column ∈ e.uniqueColumns ∧ e.hasColumn column = false ↔
    ∃ r, e.UniqueWithoutKey r ∧ foreignKey r.name = column := by
  rw [mem_uniqueColumns]
  constructor
  · rintro ⟨⟨S, ⟨f, member, declares⟩, among⟩, unheld⟩
    have unlisted {u : Uniqueness} {ps : List String} (unique : f.unique = some u) (lists : u.Lists ps) :
        column ∉ ps := by
      intro listed
      cases lists with
      | flag => contradiction
      | composite ps =>
        have held := formed.partnered f member ps unique column listed
        exact absurd (held.symm.trans unheld) (by decide)
    cases declares with
    | @plain u ps f unique lists =>
      rcases Finset.mem_insert.mp among with rfl | among
      · have held : e.hasColumn f.name = true := hasColumn_iff.mpr (.inl ⟨f, member, rfl⟩)
        exact absurd (held.symm.trans unheld) (by decide)
      · exact absurd (List.mem_toFinset.mp among) (unlisted unique lists)
    | @relation u ps r unique lists =>
      rcases Finset.mem_insert.mp among with rfl | among
      · have unstored := mt (formed.hasColumn_foreignKey_iff member).mpr (by simp [unheld])
        simp only [not_or, not_exists, not_and] at unstored
        exact ⟨r, ⟨member, ⟨u, ps, unique, lists⟩, Bool.eq_false_iff.mpr unstored.1, unstored.2⟩, rfl⟩
      · exact absurd (List.mem_toFinset.mp among) (unlisted unique lists)
  · rintro ⟨r, ⟨member, ⟨u, ps, unique, lists⟩, keyless, alone⟩, rfl⟩
    refine ⟨⟨_, ⟨_, member, .relation unique lists⟩, Finset.mem_insert_self ..⟩, ?_⟩
    rw [← Bool.not_eq_true, formed.hasColumn_foreignKey_iff member]
    rintro (owns | ⟨f, plain, named⟩)
    · exact absurd (owns.symm.trans keyless) (by decide)
    · exact alone f plain named

/-- The columns that an accepted definition declares unique without holding them are the keys of its
relations that are declared unique but do not own their key. -/
theorem validate_uniqueUnheld (accepted : e.validate = .ok ()) (column : String) :
    (column ∈ e.uniqueColumns ∧ e.hasColumn column = false ↔
      ∃ r, e.UniqueWithoutKey r ∧ foreignKey r.name = column) ∧
    ((∃ columns ∈ e.uniqueConstraints, column ∈ columns) ∧ e.hasColumn column = false ↔
      ∃ r, e.UniqueWithoutKey r ∧ foreignKey r.name = column) := by
  have formed := validate_eq_ok_iff.mp accepted
  refine ⟨formed.unheld_iff, ?_⟩
  rw [← e.uniquenessIndexed.columns]
  exact formed.unheld_iff

end Entity

namespace Sample

/-- The posts of a blogger hold the key, but the blogger declares it unique. -/
def blogger : Entity :=
  { id := "Blogger", table := "bloggers"
    fields := [.plain ⟨"id", .integer, false, none, none, none⟩,
      .relation ⟨"posts", "Post", .hasMany "blogger_id", false, some (.flag true)⟩] }

/-- No such column exists, and yet the definition is accepted. -/
theorem posts_unheld : blogger.validate = .ok () ∧ blogger.uniqueColumns = ["posts_id"] ∧
    blogger.uniqueConstraints = [["posts_id"]] ∧ blogger.hasColumn "posts_id" = false := by
  decide +kernel

end Sample

theorem Entity.validate_uniqueUnheld_sample : Sample.blogger.validate = .ok () ∧
    ∃ r, Sample.blogger.UniqueWithoutKey r ∧ foreignKey r.name = "posts_id" := by
  have accepted : Sample.blogger.validate = .ok () := by decide +kernel
  have unheld : "posts_id" ∈ Sample.blogger.uniqueColumns ∧ Sample.blogger.hasColumn "posts_id" = false := by
    decide +kernel
  exact ⟨accepted, (validate_uniqueUnheld accepted "posts_id").1.mp unheld⟩

end FetchPlan
