import FetchPlan.Entity
import FetchPlan.Proofs.Shape
import FetchPlan.Proofs.Text

/-! Which definitions are accepted. The check of a definition stops at the first fault it meets, so the
order of the fields decides which fault is reported, but not whether there is one. -/
namespace FetchPlan

/-- Something stands before the first separator in the name of a join table, and something behind it. -/
def LinksTwo (joinTable : String) : Prop :=
  ∃ left right, Text.FirstCut aliasSeparator joinTable left right ∧ left ≠ "" ∧ right ≠ ""

theorem joinTableWellNamed_iff : Entity.joinTableWellNamed joinTable = true ↔ LinksTwo joinTable := by
  simp only [Entity.joinTableWellNamed, LinksTwo, ← Text.cutOnce_eq_some_iff]
  cases Text.cutOnce aliasSeparator joinTable with
  | none => simp
  | some parts => simp [Prod.ext_iff, and_assoc]

theorem Field.mem_partners {f : Field} : partner ∈ f.partners ↔
    ∃ partners, f.unique = some (.composite partners) ∧ partner ∈ partners := by
  rw [partners]
  rcases f.unique with _ | ⟨on⟩ | ⟨partners⟩ <;> simp [Uniqueness.partners]

/-- What is asked of a field by itself. -/
structure Field.WellFormed (f : Field) : Prop where
  named : f.name ≠ ""
  dotless : '.' ∉ f.name.toList
  targeted : ∀ r, f = .relation r → r.target ≠ ""
  linked : ∀ r joinTable, f = .relation r → r.kind = .manyToMany joinTable → LinksTwo joinTable

/-- What is asked of a definition, whatever the order of its fields. -/
structure Entity.WellFormed (e : Entity) : Prop where
  identified : e.id ≠ ""
  stored : e.table ≠ ""
  fields : ∀ f ∈ e.fields, f.WellFormed
  distinct : (e.fields.map Field.name).Nodup
  partnered : ∀ f ∈ e.fields, ∀ partners, f.unique = some (.composite partners) →
    ∀ partner ∈ partners, e.hasColumn partner = true

namespace DefinitionProblem

/-- What a problem says of a field is true of this one. -/
def Blames (f : Field) : DefinitionProblem → Prop
  | .unnamedField => f.name = ""
  | .dottedField name => f.name = name ∧ '.' ∈ name.toList
  | .untargetedRelation name => ∃ r, f = .relation r ∧ r.name = name ∧ r.target = ""
  | .malformedJoinTable joinTable name =>
    ∃ r, f = .relation r ∧ r.name = name ∧ r.kind = .manyToMany joinTable ∧ ¬ LinksTwo joinTable
  | _ => False

/-- What a problem says of a definition is true of this one. -/
def Justified (e : Entity) : DefinitionProblem → Prop
  | .emptyId => e.id = ""
  | .emptyTable => e.table = ""
  | .duplicateField name => 2 ≤ (e.fields.map Field.name).count name
  | .unknownPartner partner name =>
    ∃ f ∈ e.fields, f.name = name ∧ partner ∈ f.partners ∧ e.hasColumn partner = false
  | problem => ∃ f ∈ e.fields, problem.Blames f

theorem Blames.justified {problem : DefinitionProblem} {e : Entity} (member : f ∈ e.fields)
    (blamed : problem.Blames f) : problem.Justified e := by
  cases problem with
  | unnamedField | dottedField | untargetedRelation | malformedJoinTable => exact ⟨f, member, blamed⟩
  | _ => exact blamed.elim

end DefinitionProblem

namespace Entity

theorem checkRelation_ok (passed : checkRelation r = .ok ()) :
    r.target ≠ "" ∧ ∀ joinTable, r.kind = .manyToMany joinTable → LinksTwo joinTable := by
  unfold checkRelation at passed
  obtain ⟨targeted, passed⟩ := guard_ok passed
  refine ⟨targeted, fun joinTable kind => ?_⟩
  rw [kind] at passed
  exact joinTableWellNamed_iff.mp (unless_ok passed).1

theorem checkRelation_error (failed : checkRelation r = .error problem) : problem.Blames (.relation r) := by
  unfold checkRelation at failed
  rcases guard_error failed with ⟨untargeted, rfl⟩ | failed
  · exact ⟨r, rfl, rfl, untargeted⟩
  · split at failed
    · rename_i joinTable kind
      rcases unless_error failed with ⟨malformed, rfl⟩ | ⟨_, failed⟩
      · exact ⟨r, rfl, rfl, kind, fun links => by simp [joinTableWellNamed_iff.mpr links] at malformed⟩
      · contradiction
    · contradiction

theorem checkField_ok (passed : checkField seen f = .ok ()) : f.WellFormed ∧ f.name ∉ seen := by
  unfold checkField at passed
  obtain ⟨named, passed⟩ := guard_ok passed
  obtain ⟨dotless, passed⟩ := guard_ok passed
  obtain ⟨unseen, passed⟩ := guard_ok passed
  refine ⟨⟨named, dotless, ?_, ?_⟩, unseen⟩
  · rintro r rfl
    exact (checkRelation_ok passed).1
  · rintro r joinTable rfl
    exact (checkRelation_ok passed).2 joinTable

theorem checkField_error (failed : checkField seen f = .error problem) :
    problem.Blames f ∨ problem = .duplicateField f.name ∧ f.name ∈ seen := by
  unfold checkField at failed
  rcases guard_error failed with ⟨unnamed, rfl⟩ | failed
  · exact .inl unnamed
  rcases guard_error failed with ⟨dotted, rfl⟩ | failed
  · exact .inl ⟨rfl, dotted⟩
  rcases guard_error failed with ⟨again, rfl⟩ | failed
  · exact .inr ⟨rfl, again⟩
  cases f with
  | plain | virtual => contradiction
  | relation r => exact .inl (checkRelation_error failed)

theorem checkFields_ok {fields : List Field} (passed : checkFields seen fields = .ok ()) :
    (∀ f ∈ fields, f.WellFormed ∧ f.name ∉ seen) ∧ (fields.map Field.name).Nodup := by
  induction fields generalizing seen with
  | nil => exact ⟨nofun, .nil⟩
  | cons f rest ih =>
    obtain ⟨⟨⟩, first, later⟩ := bind_eq_ok.mp passed
    obtain ⟨formed, distinct⟩ := ih later
    constructor
    · refine List.forall_mem_cons.mpr ⟨checkField_ok first, fun g member => ?_⟩
      obtain ⟨formed, unseen⟩ := formed g member
      exact ⟨formed, mt (List.mem_cons_of_mem f.name) unseen⟩
    · refine List.nodup_cons.mpr ⟨fun again => ?_, distinct⟩
      obtain ⟨g, member, same⟩ := List.mem_map.mp again
      exact (formed g member).2 (same ▸ List.mem_cons_self)

/-- The names seen so far are those of the fields in front of the list. -/
theorem checkFields_error {fields : List Field} (failed : checkFields seen fields = .error problem) :
    (∃ f ∈ fields, problem.Blames f) ∨
      ∃ name, problem = .duplicateField name ∧ 2 ≤ (seen ++ fields.map Field.name).count name := by
  induction fields generalizing seen with
  | nil => contradiction
  | cons f rest ih =>
    rcases bind_eq_error.mp failed with here | ⟨_, _, later⟩
    · rcases checkField_error here with blamed | ⟨rfl, again⟩
      · exact .inl ⟨f, List.mem_cons_self, blamed⟩
      · have before := List.count_pos_iff.mpr again
        refine .inr ⟨f.name, rfl, ?_⟩
        simp only [List.map_cons, List.count_append, List.count_cons_self]
        omega
    · rcases ih later with ⟨g, member, blamed⟩ | ⟨name, rfl, repeated⟩
      · exact .inl ⟨g, List.mem_cons_of_mem f member, blamed⟩
      · have moved : (seen ++ (f :: rest).map Field.name).Perm (f.name :: seen ++ rest.map Field.name) :=
          List.perm_middle
        exact .inr ⟨name, rfl, moved.count_eq name ▸ repeated⟩

theorem checkPartners_ok {e : Entity} (passed : checkPartners e f = .ok ()) :
    ∀ partner ∈ f.partners, e.hasColumn partner = true := by
  intro partner listed
  have passed := forM_eq_ok.mp passed partner listed
  split at passed
  · assumption
  · contradiction

theorem checkPartners_error {e : Entity} (failed : checkPartners e f = .error problem) :
    ∃ partner ∈ f.partners, e.hasColumn partner = false ∧ problem = .unknownPartner partner f.name := by
  obtain ⟨partner, listed, failed⟩ := forM_error failed
  split at failed
  · contradiction
  · rename_i unheld
    cases failed
    exact ⟨partner, listed, Bool.eq_false_iff.mpr unheld, rfl⟩

theorem check_ok {e : Entity} (passed : e.check = .ok ()) : e.WellFormed := by
  unfold check at passed
  obtain ⟨identified, passed⟩ := guard_ok passed
  obtain ⟨stored, passed⟩ := guard_ok passed
  obtain ⟨⟨⟩, fields, partners⟩ := bind_eq_ok.mp passed
  obtain ⟨formed, distinct⟩ := checkFields_ok fields
  refine ⟨identified, stored, fun f member => (formed f member).1, distinct, ?_⟩
  intro f member partners' declared partner listed
  have held := checkPartners_ok (forM_eq_ok.mp partners f member)
  exact held partner (Field.mem_partners.mpr ⟨partners', declared, listed⟩)

theorem check_error {e : Entity} (failed : e.check = .error problem) : problem.Justified e := by
  unfold check at failed
  rcases guard_error failed with ⟨unidentified, rfl⟩ | failed
  · exact unidentified
  rcases guard_error failed with ⟨unstored, rfl⟩ | failed
  · exact unstored
  rcases bind_eq_error.mp failed with fields | ⟨_, _, partners⟩
  · rcases checkFields_error fields with ⟨f, member, blamed⟩ | ⟨name, rfl, repeated⟩
    · exact blamed.justified member
    · exact repeated
  · obtain ⟨f, member, failed⟩ := forM_error partners
    obtain ⟨partner, listed, unheld, rfl⟩ := checkPartners_error failed
    exact ⟨f, member, rfl, listed, unheld⟩

/-- A well-formed definition has none of the faults that a problem can report. -/
theorem WellFormed.faultless {e : Entity} (formed : e.WellFormed) (problem : DefinitionProblem) :
    ¬ problem.Justified e := by
  cases problem with
  | emptyId => exact formed.identified
  | emptyTable => exact formed.stored
  | unnamedField =>
    rintro ⟨f, member, unnamed⟩
    exact (formed.fields f member).named unnamed
  | dottedField =>
    rintro ⟨f, member, rfl, dotted⟩
    exact (formed.fields f member).dotless dotted
  | duplicateField name =>
    intro repeated
    have once := List.nodup_iff_count_le_one.mp formed.distinct name
    exact absurd (Nat.le_trans repeated once) (by decide)
  | untargetedRelation =>
    rintro ⟨f, member, r, rfl, -, untargeted⟩
    exact (formed.fields _ member).targeted r rfl untargeted
  | malformedJoinTable joinTable =>
    rintro ⟨f, member, r, rfl, -, kind, malformed⟩
    exact malformed ((formed.fields _ member).linked r joinTable rfl kind)
  | unknownPartner partner =>
    rintro ⟨f, member, -, listed, unheld⟩
    obtain ⟨partners, declared, listed⟩ := Field.mem_partners.mp listed
    have held := formed.partnered f member partners declared partner listed
    exact absurd (held.symm.trans unheld) (by decide)
  | notToMany =>
    rintro ⟨f, _, ⟨⟩⟩

theorem validate_error {e : Entity} (failed : e.validate = .error problem) :
    ∃ fault, problem = .invalidDefinition e.id fault ∧ fault.Justified e := by
  rw [validate] at failed
  cases result : e.check with
  | ok => simp [result, Except.mapError] at failed
  | error fault =>
    rw [result] at failed
    cases failed
    exact ⟨fault, rfl, check_error result⟩

theorem validate_eq_ok_iff {e : Entity} : e.validate = .ok () ↔ e.WellFormed := by
  constructor
  · intro accepted
    rw [validate] at accepted
    cases result : e.check with
    | ok => exact check_ok result
    | error fault => simp [result, Except.mapError] at accepted
  · intro formed
    cases result : e.validate with
    | ok => rfl
    | error problem =>
      obtain ⟨fault, _, justified⟩ := validate_error result
      exact absurd justified (formed.faultless fault)

/-- A column is a plain field, or the key of a relation that the entity holds the key of. -/
theorem hasColumn_iff {e : Entity} : e.hasColumn column = true ↔ (∃ f, .plain f ∈ e.fields ∧ f.name = column) ∨
    ∃ r, .relation r ∈ e.fields ∧ r.kind.ownsForeignKey = true ∧ foreignKey r.name = column := by
  rw [hasColumn, List.any_eq_true]
  constructor
  · rintro ⟨f, member, stores⟩
    cases f with
    | plain f => exact .inl ⟨f, member, of_decide_eq_true stores⟩
    | virtual => contradiction
    | relation r => exact .inr ⟨r, member, by simpa [Field.stores] using stores⟩
  · rintro (⟨f, member, rfl⟩ | ⟨r, member, owns, rfl⟩)
    · exact ⟨_, member, decide_eq_true rfl⟩
    · exact ⟨_, member, by simp [Field.stores, owns]⟩

theorem hasColumn_foreignKey {e : Entity} (declared : .relation r ∈ e.fields)
    (owns : r.kind.ownsForeignKey = true) : e.hasColumn (foreignKey r.name) = true :=
  hasColumn_iff.mpr (.inr ⟨r, declared, owns, rfl⟩)

theorem hasColumn_perm {e e' : Entity} (reordered : e.fields.Perm e'.fields) (column : String) :
    e.hasColumn column = e'.hasColumn column :=
  reordered.any_eq

theorem WellFormed.perm {e : Entity} {fields : List Field} (formed : e.WellFormed)
    (reordered : e.fields.Perm fields) (subsets : SortedMap (List String)) :
    ({ e with fields, subsets } : Entity).WellFormed where
  identified := formed.identified
  stored := formed.stored
  fields f member := formed.fields f (reordered.mem_iff.mpr member)
  distinct := (reordered.map Field.name).nodup_iff.mp formed.distinct
  partnered f member partners declared partner listed := by
    rw [← hasColumn_perm (e := e) reordered]
    exact formed.partnered f (reordered.mem_iff.mpr member) partners declared partner listed

/-- A definition is accepted exactly if it is well-formed, which neither the order of its fields nor its
subsets can change. Otherwise the error names the definition and a fault that it has. -/
theorem validate_wellFormed (e : Entity) : (e.validate = .ok () ↔ e.WellFormed) ∧
    (∀ fields subsets, e.fields.Perm fields →
      (({ e with fields, subsets } : Entity).validate = .ok () ↔ e.validate = .ok ())) ∧
    ∀ problem, e.validate = .error problem →
      ∃ fault, problem = .invalidDefinition e.id fault ∧ fault.Justified e := by
  refine ⟨validate_eq_ok_iff, fun fields subsets reordered => ?_, fun problem => validate_error⟩
  rw [validate_eq_ok_iff, validate_eq_ok_iff]
  exact ⟨fun formed => formed.perm reordered.symm e.subsets, fun formed => formed.perm reordered subsets⟩

end Entity

namespace Sample

/-- A user belongs to an organization once. Both relations declare it. -/
def membership : Entity :=
  { id := "Membership", table := "memberships"
    fields := [.plain ⟨"code", .string, false, none, none, some (.flag true)⟩, .virtual "label",
      .relation ⟨"org", "Organization", .belongsToOne none, false, some (.composite ["user_id"])⟩,
      .relation ⟨"user", "User", .belongsToOne none, false, some (.composite ["org_id"])⟩,
      .relation ⟨"groups", "Group", .manyToMany "groups__memberships", false, none⟩] }

/-- The declared partner is not the column of the user. -/
def misspelled : Entity :=
  { membership with fields := [.plain ⟨"code", .string, false, none, none, some (.composite ["usr_id"])⟩,
      .relation ⟨"user", "User", .belongsToOne none, false, none⟩] }

end Sample

theorem Entity.validate_wellFormed_sample : Sample.membership.WellFormed ∧
    ({ Sample.membership with fields := Sample.membership.fields.reverse } : Entity).validate = .ok () ∧
      Sample.misspelled.validate =
        .error (.invalidDefinition "Membership" (.unknownPartner "usr_id" "code")) ∧
      (DefinitionProblem.unknownPartner "usr_id" "code").Justified Sample.misspelled := by
  obtain ⟨accepts, orderless, _⟩ := validate_wellFormed Sample.membership
  have accepted : Sample.membership.validate = .ok () := by decide +kernel
  have reversed := orderless Sample.membership.fields.reverse Sample.membership.subsets
    (List.reverse_perm _).symm
  have refused : Sample.misspelled.validate =
      .error (.invalidDefinition "Membership" (.unknownPartner "usr_id" "code")) := by
    decide +kernel
  obtain ⟨fault, reported, justified⟩ := (validate_wellFormed Sample.misspelled).2.2 _ refused
  cases reported
  exact ⟨accepts.mp accepted, reversed.mpr accepted, refused, justified⟩

end FetchPlan
