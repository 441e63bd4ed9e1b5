import FetchPlan.Plan.Compile
import FetchPlan.Proofs.Registry

/-! Runs of register calls, some of them refused. What a run leaves is decided for each id by the
first valid definition in it, so order matters among conflicting definitions only. -/
namespace FetchPlan

/-- The first valid definition of a run under an id. -/
def firstValid (es : List Entity) (id : String) : Option Entity :=
  es.find? fun e => e.id = id ∧ e.validate = .ok ()

theorem firstValid_cons (e : Entity) (es : List Entity) (id : String) : firstValid (e :: es) id =
    (if e.id = id ∧ e.validate = .ok () then some e else none).or (firstValid es id) := by
  by_cases usable : e.id = id ∧ e.validate = .ok () <;> simp [firstValid, usable]

theorem firstValid_spec {id : String} (found : firstValid es id = some e) :
    e ∈ es ∧ e.id = id ∧ e.validate = .ok () :=
  ⟨List.mem_of_find?_eq_some found, by simpa using List.find?_some found⟩

/-- Every definition is valid, and no two of one id differ. -/
structure Consistent (es : List Entity) : Prop where
  valid : ∀ e ∈ es, e.validate = .ok ()
  agree : ∀ e ∈ es, ∀ e' ∈ es, e.id = e'.id → e = e'

namespace Consistent

theorem perm (consistent : Consistent es) (reordered : es.Perm es') : Consistent es' where
  valid e member := consistent.valid e (reordered.mem_iff.mpr member)
  agree e member e' member' :=
    consistent.agree e (reordered.mem_iff.mpr member) e' (reordered.mem_iff.mpr member')

theorem firstValid_eq_some_iff {id : String} (consistent : Consistent es) :
    firstValid es id = some e ↔ e ∈ es ∧ e.id = id := by
  constructor
  · intro found
    obtain ⟨member, named, _⟩ := firstValid_spec found
    exact ⟨member, named⟩
  · rintro ⟨member, named⟩
    have valid := consistent.valid e member
    obtain ⟨e', found⟩ : ∃ e', firstValid es id = some e' :=
      Option.isSome_iff_exists.mp (List.find?_isSome.mpr ⟨e, member, by simp [named, valid]⟩)
    obtain ⟨member', named', _⟩ := firstValid_spec found
    rw [found, consistent.agree e' member' e member (named'.trans named.symm)]

theorem firstValid_perm (consistent : Consistent es) (reordered : es.Perm es') (id : String) :
    firstValid es' id = firstValid es id := by
  ext e
  rw [consistent.firstValid_eq_some_iff, (consistent.perm reordered).firstValid_eq_some_iff,
    reordered.mem_iff]

end Consistent

/-- Definitions are consistent exactly if each of them is the first valid one under its id. -/
theorem consistent_iff_firstValid : Consistent es ↔ ∀ e ∈ es, firstValid es e.id = some e := by
  constructor
  · intro consistent e member
    exact consistent.firstValid_eq_some_iff.mpr ⟨member, rfl⟩
  · intro first
    constructor
    · intro e member
      exact (firstValid_spec (first e member)).2.2
    · intro e member e' member' same
      have found := first e member
      rw [same, first e' member'] at found
      exact (Option.some.inj found).symm

namespace Registry

/-- A call is accepted if the definition is valid and no other one is registered under its id. -/
theorem exists_register_iff {r : Registry} : (∃ r', r.register e = .ok r') ↔
    e.validate = .ok () ∧ ∀ known, r.entities.get? e.id = some known → known = e := by
  constructor
  · rintro ⟨r', accepted⟩
    obtain ⟨valid, ⟨found, _⟩ | ⟨absent, _⟩⟩ := register_ok accepted
    · exact ⟨valid, fun known found' => Option.some.inj (found'.symm.trans found)⟩
    · exact ⟨valid, fun known found => by simp [absent] at found⟩
  · rintro ⟨valid, agrees⟩
    rw [register, valid, ok_bind]
    split
    · rename_i known found
      exact ⟨r, if_pos (agrees known found)⟩
    · exact ⟨_, rfl⟩

theorem registered_of_register {r r' : Registry} (accepted : r.register e = .ok r') :
    r'.entities.get? e.id = some e := by
  obtain ⟨_, ⟨found, rfl⟩ | ⟨_, rfl⟩⟩ := register_ok accepted
  · exact found
  · simp [SortedMap.get?_insert]

theorem register_known {r : Registry} (valid : r.Valid) (known : r.entities.get? e.id = some e) :
    r.register e = .ok r := by
  rw [register, valid.checked known, ok_bind, known]
  exact if_pos rfl

theorem registerEach_cons (r : Registry) (e : Entity) (es : List Entity) :
    r.registerEach (e :: es) = (r.registerEach [e]).registerEach es := rfl

theorem registerEach_append (r : Registry) (es es' : List Entity) :
    r.registerEach (es ++ es') = (r.registerEach es).registerEach es' := List.foldl_append

theorem registerEach_accepted {r r' : Registry} (accepted : r.register e = .ok r') :
    r.registerEach [e] = r' := by
  rw [registerEach, List.foldl_cons, accepted]
  rfl

theorem registerEach_refused {r : Registry} (refused : r.register e = .error problem) :
    r.registerEach [e] = r := by
  rw [registerEach, List.foldl_cons, refused]
  rfl

/-- What one call, refused or not, leaves under an id. -/
theorem get?_registerEach_singleton (r : Registry) (e : Entity) (id : String) :
    (r.registerEach [e]).entities.get? id =
      (r.entities.get? id).or (if e.id = id ∧ e.validate = .ok () then some e else none) := by
  cases called : r.register e with
  | ok r' =>
    rw [registerEach_accepted called]
    obtain ⟨valid, ⟨found, rfl⟩ | ⟨absent, rfl⟩⟩ := register_ok called
    · by_cases same : e.id = id
      · subst same
        simp [found]
      · simp [same]
    · rw [SortedMap.get?_insert]
      by_cases same : e.id = id
      · subst same
        simp [absent, valid]
      · simp [same]
  | error problem =>
    rw [registerEach_refused called]
    by_cases usable : e.id = id ∧ e.validate = .ok ()
    · -- A valid definition is only refused where another one is registered.
      obtain ⟨rfl, valid⟩ := usable
      cases known : r.entities.get? e.id with
      | some other => rfl
      | none =>
        obtain ⟨r', accepted⟩ := exists_register_iff.mpr ⟨valid, fun _ found => nomatch known.symm.trans found⟩
        cases called.symm.trans accepted
    · rw [if_neg usable, Option.or_none]

/-- A run changes nothing that is registered and adds the first valid definitions of the other ids. -/
theorem get?_registerEach (r : Registry) (es : List Entity) (id : String) :
    (r.registerEach es).entities.get? id = (r.entities.get? id).or (firstValid es id) := by
  induction es generalizing r with
  | nil => exact (Option.or_none ..).symm
  | cons e es ih =>
    rw [registerEach_cons, ih, get?_registerEach_singleton, Option.or_assoc, ← firstValid_cons]

theorem get?_run (es : List Entity) (id : String) :
    (empty.registerEach es).entities.get? id = firstValid es id :=
  get?_registerEach empty es id

theorem Valid.registerEach {r : Registry} (valid : r.Valid) (es : List Entity) :
    (r.registerEach es).Valid := by
  induction es generalizing r with
  | nil => exact valid
  | cons e es ih =>
    rw [registerEach_cons]
    apply ih
    cases called : r.register e with
    | ok r' =>
      rw [registerEach_accepted called]
      exact valid.register called
    | error problem =>
      rw [registerEach_refused called]
      exact valid

theorem ext_entities {r r' : Registry} (same : ∀ id, r.entities.get? id = r'.entities.get? id) : r = r' :=
  congrArg Registry.mk (SortedMap.ext_get? same)

/-- A call that repeats one of the run's changes nothing, however that one ended. -/
theorem registerEach_repeated (member : e ∈ es) :
    empty.registerEach (es ++ [e]) = empty.registerEach es := by
  apply ext_entities
  intro id
  rw [registerEach_append, get?_registerEach_singleton, get?_run]
  by_cases usable : e.id = id ∧ e.validate = .ok ()
  · obtain ⟨first, found⟩ : ∃ first, firstValid es id = some first :=
      Option.isSome_iff_exists.mp (List.find?_isSome.mpr ⟨e, member, decide_eq_true usable⟩)
    rw [found, Option.some_or]
  · rw [if_neg usable, Option.or_none]

/-- All calls of a run are accepted exactly if each definition of it is registered in the end. -/
theorem foldlM_register_eq_ok_iff {r r' : Registry} (valid : r.Valid) :
    es.foldlM register r = .ok r' ↔
      r' = r.registerEach es ∧ ∀ e ∈ es, r'.entities.get? e.id = some e := by
  induction es generalizing r with
  | nil => simp [registerEach, pure, Except.pure, eq_comm]
  | cons e es ih =>
    rw [List.foldlM_cons, bind_eq_ok, registerEach_cons]
    constructor
    · rintro ⟨next, accepted, later⟩
      rw [registerEach_accepted accepted]
      obtain ⟨rfl, registered⟩ := (ih (valid.register accepted)).mp later
      have here := registerEach_extends next es _ e (registered_of_register accepted)
      exact ⟨rfl, List.forall_mem_cons.mpr ⟨here, registered⟩⟩
    · rintro ⟨rfl, registered⟩
      obtain ⟨here, later⟩ := List.forall_mem_cons.mp registered
      have final : (r.registerEach (e :: es)).Valid := valid.registerEach _
      obtain ⟨next, accepted⟩ : ∃ next, r.register e = .ok next := by
        refine exists_register_iff.mpr ⟨final.checked here, fun known found => ?_⟩
        have kept := registerEach_extends r (e :: es) _ known found
        exact Option.some.inj (kept.symm.trans here)
      refine ⟨next, accepted, (ih (valid.register accepted)).mpr ⟨?_, later⟩⟩
      rw [registerEach_accepted accepted]

theorem ofEntities_eq_ok_iff {r : Registry} :
    ofEntities es = .ok r ↔ Consistent es ∧ r = empty.registerEach es := by
  rw [ofEntities, foldlM_register_eq_ok_iff empty_valid, consistent_iff_firstValid, and_comm]
  refine and_congr_left fun same => ?_
  simp only [same, get?_run]

theorem ofEntities_perm {r : Registry} (reordered : es.Perm es') (built : ofEntities es = .ok r) :
    ofEntities es' = .ok r := by
  obtain ⟨consistent, rfl⟩ := ofEntities_eq_ok_iff.mp built
  refine ofEntities_eq_ok_iff.mpr ⟨consistent.perm reordered, ext_entities fun id => ?_⟩
  rw [get?_run, get?_run, consistent.firstValid_perm reordered]

/-- `r` is what the calls of `es` in turn leave of the empty registry. -/
structure Remembers (es : List Entity) (r : Registry) : Prop where
  first : ∀ id, r.entities.get? id = firstValid es id
  nothingElse : ∀ key e, (key, e) ∈ r.entities.entries → e.id = key ∧ e.validate = .ok () ∧ e ∈ es
  refused : ∀ e problem, r.register e = .error problem → empty.registerEach (es ++ [e]) = r
  known : ∀ e, r.entities.get? e.id = some e → r.register e = .ok r
  repeated : ∀ e ∈ es, empty.registerEach (es ++ [e]) = r

/-- A run is accepted as a whole exactly if its definitions are consistent. It then leaves what it
leaves in any order, and so the checks of the registry find the same. -/
structure OrderFree (es : List Entity) : Prop where
  accepted : (∃ r, ofEntities es = .ok r) ↔ Consistent es
  left : ∀ r, ofEntities es = .ok r → r = empty.registerEach es
  perm : ∀ es' r, es.Perm es' → ofEntities es = .ok r → ofEntities es' = .ok r ∧
    (ofEntities es' >>= checkRelations) = (ofEntities es >>= checkRelations) ∧
    (ofEntities es' >>= validate) = (ofEntities es >>= validate)

theorem remembers_run (es : List Entity) : Remembers es (empty.registerEach es) where
  first := get?_run es
  nothingElse key e member := by
    have found := SortedMap.get?_eq_some_iff.mpr member
    rw [get?_run] at found
    obtain ⟨among, named, valid⟩ := firstValid_spec found
    exact ⟨named, valid, among⟩
  refused e problem refused := by
    rw [registerEach_append, registerEach_refused refused]
  known e := register_known (empty_valid.registerEach es)
  repeated e := registerEach_repeated

theorem orderFree (es : List Entity) : OrderFree es where
  accepted := by simp [ofEntities_eq_ok_iff]
  left r built := (ofEntities_eq_ok_iff.mp built).2
  perm es' r reordered built := by
    have built' := ofEntities_perm reordered built
    rw [built, built']
    exact ⟨rfl, rfl, rfl⟩

/-- The registry after a run, refused calls among it, holds the first valid definition of each id. -/
theorem registerEach_remembers (es : List Entity) :
    Remembers es (empty.registerEach es) ∧ OrderFree es :=
  ⟨remembers_run es, orderFree es⟩

end Registry

namespace Sample

def tag : Entity := { id := "Tag", table := "tags", fields := [.plain ⟨"id", .integer, false, none, none, none⟩] }

def retagged : Entity := { tag with table := "labels" }

def untitled : Entity := { tag with table := "" }

end Sample

theorem Registry.registerEach_remembers_sample :
    (empty.registerEach [Sample.untitled, Sample.tag, Sample.retagged]).all = [Sample.tag] ∧
      empty.registerEach [Sample.untitled, Sample.tag, Sample.retagged, Sample.untitled] =
        empty.registerEach [Sample.untitled, Sample.tag, Sample.retagged] ∧
      ¬ ∃ r, ofEntities [Sample.tag, Sample.retagged] = .ok r := by
  obtain ⟨remembers, _⟩ := registerEach_remembers [Sample.untitled, Sample.tag, Sample.retagged]
  obtain ⟨_, conflicting⟩ := registerEach_remembers [Sample.tag, Sample.retagged]
  refine ⟨by decide +kernel, remembers.repeated Sample.untitled (by simp), fun accepted => ?_⟩
  have agree := (conflicting.accepted.mp accepted).agree Sample.tag (by simp) Sample.retagged (by simp) rfl
  exact absurd (congrArg Entity.table agree) (by decide)

end FetchPlan
