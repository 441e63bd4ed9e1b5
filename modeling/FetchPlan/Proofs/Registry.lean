import FetchPlan.Proofs.WellFormed
import FetchPlan.Registry

/-! What registration establishes. A registry filled by it holds valid entities, each under its own
id, and a further call adds one entity at most and changes none. -/
namespace FetchPlan

namespace Entity

theorem mem_relations {e : Entity} : relation ∈ e.relations ↔ .relation relation ∈ e.fields := by
  rw [relations, List.mem_filterMap]
  constructor
  · rintro ⟨f, member, isRelation⟩
    cases f with
    | plain | virtual => cases isRelation
    | relation other =>
      cases isRelation
      exact member
  · intro member
    exact ⟨_, member, rfl⟩

/-- No two fields share a name, and no name has a dot in it. -/
structure WellNamed (e : Entity) : Prop where
  distinct : (e.fields.map Field.name).Nodup
  dotless : ∀ f ∈ e.fields, '.' ∉ f.name.toList

theorem wellNamed_of_validate {e : Entity} (valid : e.validate = .ok ()) : e.WellNamed := by
  have formed := validate_eq_ok_iff.mp valid
  exact ⟨formed.distinct, fun f member => (formed.fields f member).dotless⟩

/-- A declared field is found by its name. -/
theorem WellNamed.field?_eq_some {e : Entity} (named : e.WellNamed) :
    e.field? name = some f ↔ f ∈ e.fields ∧ f.name = name := by
  constructor
  · intro found
    exact ⟨List.mem_of_find?_eq_some found, name_of_field? found⟩
  · rintro ⟨member, rfl⟩
    obtain ⟨g, found⟩ : ∃ g, e.field? f.name = some g :=
      Option.isSome_iff_exists.mp (List.find?_isSome.mpr ⟨f, member, by simp⟩)
    have among := List.mem_of_find?_eq_some found
    rw [found, List.inj_on_of_nodup_map named.distinct among member (name_of_field? found)]

theorem WellNamed.relation?_eq_some {e : Entity} (named : e.WellNamed) :
    e.relation? relation.name = some relation ↔ .relation relation ∈ e.fields := by
  rw [Entity.relation?_eq_some, named.field?_eq_some]
  exact and_iff_left rfl

end Entity

namespace Registry

/-- What an accepted call does. -/
theorem register_ok {r r' : Registry} (accepted : r.register e = .ok r') :
    e.validate = .ok () ∧ (r.entities.get? e.id = some e ∧ r' = r ∨
      r.entities.get? e.id = none ∧ r' = ⟨r.entities.insert e.id e⟩) := by
  obtain ⟨⟨⟩, valid, accepted⟩ := bind_eq_ok.mp accepted
  refine ⟨valid, ?_⟩
  split at accepted
  · rename_i known found
    split at accepted
    · rename_i same
      cases accepted
      exact .inl ⟨same ▸ found, rfl⟩
    · contradiction
  · rename_i absent
    cases accepted
    exact .inr ⟨absent, rfl⟩

/-- Every entity is valid and stands under its own id. -/
structure Valid (r : Registry) : Prop where
  keyed : ∀ {key e}, r.entities.get? key = some e → e.id = key
  checked : ∀ {key e}, r.entities.get? key = some e → e.validate = .ok ()

theorem Valid.register {r r' : Registry} (valid : r.Valid) (accepted : r.register e = .ok r') :
    r'.Valid := by
  obtain ⟨passed, ⟨_, rfl⟩ | ⟨_, rfl⟩⟩ := register_ok accepted
  · exact valid
  · constructor
    · intro id e' found
      rw [SortedMap.get?_insert] at found
      split at found
      · rename_i same
        cases found
        exact same
      · exact valid.keyed found
    · intro id e' found
      rw [SortedMap.get?_insert] at found
      split at found
      · cases found
        exact passed
      · exact valid.checked found

theorem Valid.foldlM_register {r r' : Registry} {es : List Entity} (valid : r.Valid)
    (accepted : es.foldlM Registry.register r = .ok r') : r'.Valid := by
  induction es generalizing r with
  | nil =>
    cases accepted
    exact valid
  | cons e rest ih =>
    obtain ⟨next, first, later⟩ := bind_eq_ok.mp accepted
    exact ih (valid.register first) later

theorem empty_valid : empty.Valid := by
  constructor <;> intro key e found <;> contradiction

theorem ofEntities_valid {r : Registry} (built : ofEntities es = .ok r) : r.Valid :=
  empty_valid.foldlM_register built

theorem Valid.wellNamed {r : Registry} (valid : r.Valid) (registered : r.entities.get? key = some e) :
    e.WellNamed :=
  Entity.wellNamed_of_validate (valid.checked registered)

theorem mem_all {r : Registry} (registered : r.entities.get? key = some e) : e ∈ r.all :=
  SortedMap.mem_values.mpr ⟨_, registered⟩

theorem mem_ids {r : Registry} {id : String} : id ∈ r.ids ↔ ∃ e, r.entities.get? id = some e :=
  SortedMap.mem_keys

theorem get_eq_ok {r : Registry} : r.get key = .ok e ↔ r.entities.get? key = some e := by
  unfold get
  split <;> simp_all [pure, Except.pure, throw, throwThe, MonadExceptOf.throw]

/-- The registry after some calls in turn. One that is refused leaves it as it is. -/
def registerEach (r : Registry) (es : List Entity) : Registry :=
  es.foldl (fun r e => (r.register e).toOption.getD r) r

/-- Whatever `r` holds, `r'` holds unchanged. -/
def Extends (r r' : Registry) : Prop :=
  ∀ key e, r.entities.get? key = some e → r'.entities.get? key = some e

theorem register_extends {r r' : Registry} (accepted : r.register e = .ok r') : r.Extends r' := by
  obtain ⟨_, ⟨_, rfl⟩ | ⟨absent, rfl⟩⟩ := register_ok accepted
  · exact fun _ _ found => found
  · intro id known found
    rw [SortedMap.get?_insert, if_neg, found]
    rintro rfl
    simp [absent] at found

theorem registerEach_extends (r : Registry) (es : List Entity) : r.Extends (r.registerEach es) := by
  induction es generalizing r with
  | nil => exact fun _ _ found => found
  | cons e rest ih =>
    have kept : r.Extends ((r.register e).toOption.getD r) := by
      cases called : r.register e with
      | error => exact fun _ _ found => found
      | ok r' => exact register_extends called
    exact fun id known found => ih _ id known (kept id known found)

end Registry
end FetchPlan
