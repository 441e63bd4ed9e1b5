import FetchPlan.Proofs.Plan.Names
import FetchPlan.Proofs.Plan.Order
import FetchPlan.Proofs.WellFormed

/-! The two sides of a one-to-one relation. Each side is joined by the foreign key that is named after
itself, so the sides are matched by one column only if they go by one name. -/
namespace FetchPlan

namespace RelationField

variable {relation : RelationField}

theorem predicate_owning (plain : relation.kind.customJoin = none)
    (owns : relation.kind.ownsForeignKey = true) (source joined : String) :
    relation.predicate source joined =
      .columns (source ++ "." ++ foreignKey relation.name) (joined ++ ".id") := by
  rw [predicate, plain]
  exact if_pos owns

theorem predicate_keyless (plain : relation.kind.customJoin = none)
    (keyless : relation.kind.ownsForeignKey = false) (source joined : String) :
    relation.predicate source joined =
      .columns (source ++ ".id") (joined ++ "." ++ foreignKey relation.name) := by
  rw [predicate, plain]
  exact if_neg (by simp [keyless])

end RelationField

/-- The join of a step. Taking `k` it joins `B` and asks it for the column named after `k`, which is
that of `o` only under one name. Taking `o` it joins `A` by the column named after `o` of the level it
starts from. -/
structure SideMatched (k o : RelationField) (A B : Entity) (s : Step) (j : Join) : Prop where
  named : j.name = tableAlias s.full
  keyless : s.relation = k → j.table = B.table ∧ j.predicate =
    .columns (qualifier s.owner.table s.path ++ ".id") (j.name ++ "." ++ foreignKey k.name)
  shared_iff : s.relation = k → (j.predicate = .columns (qualifier s.owner.table s.path ++ ".id")
    (j.name ++ "." ++ foreignKey o.name) ↔ k.name = o.name)
  owning : s.relation = o → j.table = A.table ∧ j.predicate =
    .columns (qualifier s.owner.table s.path ++ "." ++ foreignKey o.name) (j.name ++ ".id")

namespace Registry

/-- All joins of a query, with the steps they stand for. -/
def SidesMatched (r : Registry) (k o : RelationField) (A B : Entity) (e : Entity) (ps : List FieldPath)
    (plan : QueryPlan) : Prop :=
  ∃ steps, (∀ s, s ∈ steps ↔ r.Joined e ps s) ∧ List.Forall₂ (SideMatched k o A B) steps plan.joins

theorem Joined.sideMatched {r : Registry} {A B : Entity} (keyless : k.kind = .oneToOne false none)
    (toB : r.entities.get? k.target = some B) (owning : o.kind = .oneToOne true none)
    (toA : r.entities.get? o.target = some A) (joined : r.Joined e ps s) :
    SideMatched k o A B s (s.join []) := by
  have byKey (source name : String) :
      k.predicate source name = .columns (source ++ ".id") (name ++ "." ++ foreignKey k.name) :=
    RelationField.predicate_keyless (by rw [keyless]; rfl) (by rw [keyless]; rfl) source name
  constructor
  · rfl
  · rintro rfl
    have target : s.target = B := Option.some.inj (joined.crosses.registered.symm.trans toB)
    exact ⟨congrArg Entity.table target, byKey _ _⟩
  · rintro rfl
    rw [Step.join, byKey]
    simp [foreignKey_inj, qualifier]
  · rintro rfl
    have target : s.target = A := Option.some.inj (joined.crosses.registered.symm.trans toA)
    refine ⟨congrArg Entity.table target, ?_⟩
    exact RelationField.predicate_owning (by rw [owning]; rfl) (by rw [owning]; rfl) _ _

/-- In every query of a plan the side without the key is matched by a column of the other entity that is
named after that side, and the side that owns the key by the column it holds. These are one column exactly
if the sides go by one name. -/
theorem compilePaths_sides {r : Registry} {A B : Entity} (keyless : k.kind = .oneToOne false none)
    (toB : r.entities.get? k.target = some B) (owning : o.kind = .oneToOne true none)
    (toA : r.entities.get? o.target = some A) (declared : .relation o ∈ B.fields)
    (compiled : r.compilePaths e paths = .ok plan) :
    r.InEveryQuery (r.SidesMatched k o A B) e (requested paths) plan ∧
      B.hasColumn (foreignKey o.name) = true := by
  refine ⟨compilePaths_everywhere ?_ compiled, ?_⟩
  · intro e ps nodes plan query
    refine ⟨_, query.shapes.mem_joined, ?_⟩
    rw [query.joins_eq, List.forall₂_map_right_iff, List.forall₂_same]
    intro s listed
    have joined := (query.shapes.mem_joined s).mp listed
    exact joined.sideMatched keyless toB owning toA
  · exact B.hasColumn_foreignKey declared (by rw [owning]; rfl)

end Registry

namespace Sample

def accountProfile : RelationField := ⟨"profile", "Profile", .oneToOne false none, false, none⟩

def profileUser : RelationField := ⟨"user", "Account", .oneToOne true none, false, none⟩

def account : Entity :=
  { id := "Account", table := "users"
    fields := [.plain ⟨"id", .integer, false, none, none, none⟩, .relation accountProfile] }

/-- Profiles hold the key to the accounts they belong to. -/
def profile : Entity :=
  { id := "Profile", table := "profiles"
    fields := [.plain ⟨"id", .integer, false, none, none, none⟩,
      .plain ⟨"bio", .text, true, none, none, none⟩, .relation profileUser] }

def accounts : Registry := ⟨(SortedMap.empty.insert "Account" account).insert "Profile" profile⟩

theorem accounts_built : Registry.ofEntities [account, profile] = .ok accounts := by decide +kernel

theorem accounts_forth : ∃ plan, accounts.compilePaths account ["id", "profile.bio"] = .ok plan ∧
    plan.joins.map Join.predicate = [.columns "users.id" "profile.profile_id"] := by
  obtain ⟨plan, compiled, matched⟩ := exists_ok (show
    Option.any (fun plan : QueryPlan =>
        plan.joins.map Join.predicate = [.columns "users.id" "profile.profile_id"])
      (accounts.compilePaths account ["id", "profile.bio"]).toOption = true
    by decide +kernel)
  exact ⟨plan, compiled, of_decide_eq_true matched⟩

/-- Joined from the account, a profile is matched by a column that it does not hold, not by the one by
which it is itself matched with the account. -/
theorem profile_mismatched : Registry.ofEntities [account, profile] = .ok accounts ∧
    account.relations = [accountProfile] ∧ profile.relations = [profileUser] ∧
    profile.hasColumn "profile_id" = false ∧ profile.hasColumn "user_id" = true ∧
    ∃ plan back, accounts.compilePaths account ["id", "profile.bio"] = .ok plan ∧
      accounts.compilePaths profile ["user.id", "user.profile.bio"] = .ok back ∧
      plan.joins.map Join.predicate = [.columns "users.id" "profile.profile_id"] ∧
      back.joins.map Join.predicate =
        [.columns "profiles.user_id" "user.id", .columns "user.id" "user__profile.profile_id"] := by
  obtain ⟨plan, forth, matched⟩ := accounts_forth
  obtain ⟨back, compiled, matchedBack⟩ := exists_ok (show
    Option.any (fun plan : QueryPlan => plan.joins.map Join.predicate =
        [.columns "profiles.user_id" "user.id", .columns "user.id" "user__profile.profile_id"])
      (accounts.compilePaths profile ["user.id", "user.profile.bio"]).toOption = true
    by decide +kernel)
  exact ⟨accounts_built, rfl, rfl, by decide, by decide, plan, back, forth, compiled, matched,
    of_decide_eq_true matchedBack⟩

end Sample

theorem Registry.compilePaths_sides_sample : ∃ plan,
    ofEntities [Sample.account, Sample.profile] = .ok Sample.accounts ∧
      Sample.accounts.compilePaths Sample.account ["id", "profile.bio"] = .ok plan ∧
      Sample.accounts.InEveryQuery
        (Sample.accounts.SidesMatched Sample.accountProfile Sample.profileUser Sample.account Sample.profile)
        Sample.account (requested ["id", "profile.bio"]) plan ∧
      Sample.profile.hasColumn (foreignKey "user") = true := by
  obtain ⟨plan, compiled, _⟩ := Sample.accounts_forth
  have toProfile : Sample.accounts.entities.get? "Profile" = some Sample.profile := by decide +kernel
  have toAccount : Sample.accounts.entities.get? "Account" = some Sample.account := by decide +kernel
  have declared : .relation Sample.profileUser ∈ Sample.profile.fields := by decide
  refine ⟨plan, Sample.accounts_built, compiled, ?_⟩
  exact compilePaths_sides (k := Sample.accountProfile) rfl toProfile rfl toAccount declared compiled

end FetchPlan
