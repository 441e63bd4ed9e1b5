import FetchPlan.Proofs.Plan.Select

/-! Whether a query tells its names apart. Its joins and loaders are named by flattened paths,
and so are its result columns, so names clash exactly where different paths flatten to one text.
Flat segments leave two clashes: a join with the query's own table, and a column with the foreign
key of a collapsed relation. -/
namespace FetchPlan

/-- No two joins of a query on `table` share a name, none has the table's own, and no two
loaders share one. -/
structure QueryPlan.NamesApart (table : String) (plan : QueryPlan) : Prop where
  joins : (plan.joins.map Join.name).Nodup
  root : table ∉ plan.joins.map Join.name
  loaders : (plan.loaders.map Loader.name).Nodup

namespace Registry

/-- The relations a query joins flatten to different texts, none of them its table's name, and so
do those it loads. -/
structure AliasesTell (r : Registry) (e : Entity) (ps : List FieldPath) : Prop where
  joined : ∀ s s', r.Joined e ps s → r.Joined e ps s' → tableAlias s.full = tableAlias s'.full → s = s'
  root : ∀ s, r.Joined e ps s → tableAlias s.full ≠ e.table
  loaded : ∀ s s', r.Loaded e ps s → r.Loaded e ps s' → tableAlias s.full = tableAlias s'.full → s = s'

theorem nodup_aliases_iff {steps : List Step} {kept : Step → Prop} (unique : (steps.map Step.full).Nodup)
    (listed : ∀ s, s ∈ steps ↔ kept s) : (steps.map fun s => tableAlias s.full).Nodup ↔
      ∀ s s', kept s → kept s' → tableAlias s.full = tableAlias s'.full → s = s' := by
  rw [List.nodup_map_iff_inj_on unique.of_map]
  simp only [listed]
  exact ⟨fun apart s s' here there => apart s here s' there,
    fun apart s here s' there => apart s s' here there⟩

theorem Query.namesApart_iff {r : Registry} (query : r.Query e ps nodes plan) :
    plan.NamesApart e.table ↔ r.AliasesTell e ps := by
  obtain ⟨joined, joins⟩ := query.joinsListed
  obtain ⟨loaded, loaders⟩ := query.loadersListed
  have joinNames := map_eq_of_forall₂ joins.joins fun _ _ stands => stands.1
  have joinsApart := nodup_aliases_iff joins.unique joins.joined
  have loadersApart := nodup_aliases_iff loaders.unique loaders.loaded
  have rootApart : e.table ∉ joined.map (fun s => tableAlias s.full) ↔
      ∀ s, r.Joined e ps s → tableAlias s.full ≠ e.table := by
    simp [joins.joined]
  rw [← joinNames] at joinsApart rootApart
  rw [← loaders.named] at loadersApart
  constructor
  · rintro ⟨apart, root, apart'⟩
    exact ⟨joinsApart.mp apart, rootApart.mp root, loadersApart.mp apart'⟩
  · rintro ⟨apart, root, apart'⟩
    exact ⟨joinsApart.mpr apart, rootApart.mpr root, loadersApart.mpr apart'⟩

theorem Crosses.eq_of_alias {r : Registry} (flat : FlatPaths ps) (first : r.Crosses e ps s)
    (second : r.Crosses e ps s') (same : tableAlias s.full = tableAlias s'.full) : s = s' := by
  obtain ⟨_, _, asked⟩ := first.crossed
  obtain ⟨_, _, asked'⟩ := second.crossed
  apply first.eq_of_full second
  exact tableAlias_injective s.full_ne_nil s'.full_ne_nil (flat.left asked) (flat.left asked') same

theorem aliasesTell_of_flat {r : Registry} (flat : FlatPaths ps) :
    r.AliasesTell e ps ↔ ∀ s, r.Joined e ps s → tableAlias s.full ≠ e.table := by
  constructor
  · exact AliasesTell.root
  · intro root
    constructor
    · intro s s' here there same
      exact here.crosses.eq_of_alias flat there.crosses same
    · exact root
    · intro s s' here there same
      exact here.crosses.eq_of_alias flat there.crosses same

/-- When the names of a query are told apart, for any segments and for flat ones. -/
structure AliasesExact (r : Registry) (e : Entity) (ps : List FieldPath) (plan : QueryPlan) : Prop where
  apart_iff : plan.NamesApart e.table ↔ r.AliasesTell e ps
  flat_iff : FlatPaths ps →
    (plan.NamesApart e.table ↔ ∀ s, r.Joined e ps s → tableAlias s.full ≠ e.table)

/-- In every query of a plan the names of joins and loaders clash exactly if the paths of their
relations flatten to one text, or that of a join to the name of the query's table. -/
theorem compilePaths_aliases {r : Registry} (compiled : r.compilePaths e paths = .ok plan) :
    r.InEveryQuery r.AliasesExact e (requested paths) plan := by
  apply compilePaths_everywhere _ compiled
  intro e ps nodes plan query
  exact ⟨query.namesApart_iff, fun flat => query.namesApart_iff.trans (aliasesTell_of_flat flat)⟩

theorem compilePaths_aliases_sample : ∃ r plan,
    ofEntities [Sample.user, Sample.post, Sample.comment] = .ok r ∧
      r.compilePaths Sample.post Sample.paths = .ok plan ∧ FlatPaths (requested Sample.paths) ∧
      r.InEveryQuery r.AliasesExact Sample.post (requested Sample.paths) plan := by
  obtain ⟨r, plan, registered, compiled⟩ := Sample.compiles
  exact ⟨r, plan, registered, compiled, by decide +kernel, compilePaths_aliases compiled⟩

end Registry

namespace Sample

/-- A relation that is named like the table it starts from. -/
def manager : Entity :=
  { id := "Manager", table := "manager"
    fields := [.plain ⟨"name", .string, false, none, none, none⟩,
      .relation ⟨"manager", "Manager", .belongsToOne none, true, none⟩] }

/-- The table of managers is joined with itself under its own name. -/
theorem manager_clashes : ∃ r plan, Registry.ofEntities [manager] = .ok r ∧
    r.compilePaths manager ["name", "manager.name"] = .ok plan ∧ ¬ plan.NamesApart manager.table := by
  obtain ⟨plan, built, clash⟩ := exists_ok (show
    Option.any (fun plan : QueryPlan => manager.table ∈ plan.joins.map Join.name)
      (Registry.ofEntities [manager] >>= (·.compilePaths manager ["name", "manager.name"])).toOption = true
    by decide +kernel)
  obtain ⟨r, registered, compiled⟩ := bind_eq_ok.mp built
  exact ⟨r, plan, registered, compiled, fun apart => apart.root (of_decide_eq_true clash)⟩

end Sample

namespace Source

/-- The name a result column goes by: that of the column itself on the query's own level, its
alias elsewhere. -/
def result (x : Source) : String :=
  match x.level with
  | [] => x.columnName
  | q => columnAlias q x.columnName

theorem result_eq (x : Source) : x.result = tableAlias (x.level ++ [x.columnName]) := by
  unfold result
  split
  · rename_i root
    rw [root]
    rfl
  · rename_i below
    exact (tableAlias_concat below x.columnName).symm

/-- What an entry says after its last dot, or after ` as ` where it has an alias. -/
theorem entry_eq (x : Source) : x.entry =
    if x.level = [] then x.owner.table ++ "." ++ x.result
    else tableAlias x.level ++ "." ++ x.columnName ++ " as " ++ x.result := by
  cases place : x.level with
  | nil => simp [entry, selectEntry, result, place]
  | cons first rest => simp [entry, selectEntry, result, place]

end Source

theorem foreignKey_ne_id (name : String) : foreignKey name ≠ "id" := by
  intro same
  have lengths := congrArg String.length same
  rw [foreignKey, String.length_append] at lengths
  change name.length + 3 = 2 at lengths
  omega

namespace Registry

theorem Due.reached {r : Registry} (due : r.Due e ps x) : r.along? e x.level = some x.owner := by
  cases due with
  | column reached => exact reached
  | foreignKey collapsed => exact collapsed.crosses.reached
  | addedId reached => exact reached

/-- The entries of a query end with their result columns. -/
theorem Due.named {r : Registry} (due : r.Due e ps x) : x.entry =
    if x.level = [] then e.table ++ "." ++ x.result
    else tableAlias x.level ++ "." ++ x.columnName ++ " as " ++ x.result := by
  rw [x.entry_eq]
  split
  · rename_i root
    have reached := due.reached
    rw [root] at reached
    cases reached
    rfl
  · rfl

/-- Different entries of a query make different result columns. -/
def ResultsTell (r : Registry) (e : Entity) (ps : List FieldPath) : Prop :=
  ∀ x y, r.Due e ps x → r.Due e ps y → x.result = y.result → x = y

/-- No column is asked for that is the foreign key of a collapsed relation beside it. -/
def KeysUnasked (r : Registry) (e : Entity) (ps : List FieldPath) : Prop :=
  ∀ s, r.Collapsed e ps s → ¬ r.Due e ps (.column s.path s.owner (foreignKey s.relation.name))

theorem Due.column_eq {r : Registry} (unasked : r.KeysUnasked e ps)
    (due : r.Due e ps (.column y.level y.owner y.columnName)) (other : r.Due e ps y) :
    y = .column y.level y.owner y.columnName := by
  cases other with
  | column => rfl
  | @foreignKey s collapsed => exact absurd due (unasked s collapsed)
  | addedId _ _ missing =>
    cases due with
    | column _ asked isColumn => exact absurd ⟨asked, isColumn⟩ missing

/-- A query owes each column of a level once, as long as no foreign key is asked for that it
selects anyway. -/
theorem Due.eq_of_column {r : Registry} (unasked : r.KeysUnasked e ps) (first : r.Due e ps x)
    (second : r.Due e ps y) (level : x.level = y.level) (column : x.columnName = y.columnName) : x = y := by
  have owner : x.owner = y.owner := by
    apply Option.some.inj
    rw [← first.reached, ← second.reached, level]
  cases x with
  | column q t c =>
    cases level; cases owner; cases column
    exact (first.column_eq unasked second).symm
  | foreignKey s =>
    cases y with
    | column q t c =>
      cases level; cases owner; cases column
      exact second.column_eq unasked first
    | foreignKey s' =>
      cases first with
      | foreignKey collapsed =>
        cases second with
        | foreignKey collapsed' =>
          have names : s.relation.name = s'.relation.name := foreignKey_inj.mp column
          have full : s.full = s'.full := by
            rw [Step.full, Step.full, names, show s.path = s'.path from level]
          rw [collapsed.crosses.eq_of_full collapsed'.crosses full]
    | addedId q t => exact absurd column (foreignKey_ne_id s.relation.name)
  | addedId q t =>
    cases y with
    | column q' t' c =>
      cases level; cases owner; cases column
      exact second.column_eq unasked first
    | foreignKey s => exact absurd column.symm (foreignKey_ne_id s.relation.name)
    | addedId q' t' => cases level; cases owner; rfl

/-- What holds of the names asked for, of `id` and of foreign keys holds of the names in an entry. -/
theorem Due.of_names {r : Registry} {P : String → Prop}
    (key : ∀ name, P name → P (FetchPlan.foreignKey name)) (id : P "id")
    (each : ∀ p ∈ ps, ∀ name ∈ p, P name) (due : r.Due e ps x) :
    ∀ name ∈ x.level ++ [x.columnName], P name := by
  cases due with
  | column _ asked => exact each _ asked
  | @foreignKey s collapsed =>
    obtain ⟨_, _, asked⟩ := collapsed.crosses.crossed
    have names : ∀ name ∈ s.full, P name :=
      fun name member => each _ asked name (List.mem_append_left _ member)
    obtain ⟨above, own⟩ := List.forall_mem_append.mp names
    exact List.forall_mem_append.mpr ⟨above, List.forall_mem_singleton.mpr
      (key _ (own _ (List.mem_singleton_self _)))⟩
  | addedId _ loads =>
    obtain ⟨relation, rest, _, _, _, asked⟩ := loads
    have above := fun name member => each _ asked name (List.mem_append_left _ member)
    exact List.forall_mem_append.mpr ⟨above, List.forall_mem_singleton.mpr id⟩

theorem Due.flat {r : Registry} (flat : FlatPaths ps) (due : r.Due e ps x) :
    ∀ name ∈ x.level ++ [x.columnName], isFlat name = true :=
  due.of_names (fun _ => isFlat_foreignKey) (by decide) flat

theorem resultsTell_of_flat {r : Registry} (flat : FlatPaths ps) :
    r.ResultsTell e ps ↔ r.KeysUnasked e ps := by
  constructor
  · intro tell s collapsed asked
    cases tell _ _ asked (.foreignKey collapsed) rfl
  · intro unasked x y first second same
    rw [Source.result_eq, Source.result_eq] at same
    have paths := tableAlias_injective (by simp) (by simp) (first.flat flat) (second.flat flat) same
    obtain ⟨level, column⟩ := List.append_inj' paths rfl
    exact first.eq_of_column unasked second level (List.cons.inj column).1

/-- What the result columns of a query are, and when they are told apart, for any segments and for flat
ones. -/
structure ResultsExact (r : Registry) (e : Entity) (ps : List FieldPath) (plan : QueryPlan) : Prop where
  named : ∀ x, r.Due e ps x → x.entry =
    if x.level = [] then e.table ++ "." ++ x.result
    else tableAlias x.level ++ "." ++ x.columnName ++ " as " ++ x.result
  select : ∃ sources : List Source, sources.Nodup ∧ (∀ x, x ∈ sources ↔ r.Due e ps x) ∧
    plan.select = sources.map Source.entry ∧ ((sources.map Source.result).Nodup ↔ r.ResultsTell e ps)
  flat_iff : FlatPaths ps → (r.ResultsTell e ps ↔ r.KeysUnasked e ps)

/-- In every query of a plan two result columns have one name exactly if two entries that the query
owes its paths flatten to one text. With flat segments that is a foreign key asked for beside the
collapsed relation it belongs to. -/
theorem compilePaths_results {r : Registry} (compiled : r.compilePaths e paths = .ok plan) :
    r.InEveryQuery r.ResultsExact e (requested paths) plan := by
  apply compilePaths_everywhere _ compiled
  intro e ps nodes plan query
  refine ⟨fun x => Due.named, ⟨_, query.nodup_sources, fun x => query.mem_sources, query.select_eq, ?_⟩,
    resultsTell_of_flat⟩
  rw [List.nodup_map_iff_inj_on query.nodup_sources]
  simp only [query.mem_sources]
  constructor
  · exact fun apart x y first second => apart x first y second
  · exact fun tell x first y second => tell x y first second

theorem compilePaths_results_sample : ∃ r plan,
    ofEntities [Sample.user, Sample.post, Sample.comment] = .ok r ∧
      r.compilePaths Sample.post Sample.paths = .ok plan ∧ FlatPaths (requested Sample.paths) ∧
      r.InEveryQuery r.ResultsExact Sample.post (requested Sample.paths) plan := by
  obtain ⟨r, plan, registered, compiled⟩ := Sample.compiles
  exact ⟨r, plan, registered, compiled, by decide +kernel, compilePaths_results compiled⟩

end Registry

namespace Sample

/-- An entity that declares the foreign key of its relation as a field as well. -/
def draft : Entity :=
  { id := "Draft", table := "drafts"
    fields := [.plain ⟨"author_id", .integer, false, none, none, none⟩,
      .relation ⟨"author", "User", .belongsToOne none, false, none⟩] }

/-- The foreign key is selected twice. -/
theorem draft_clashes : ∃ r plan, Registry.ofEntities [user, draft] = .ok r ∧
    r.compilePaths draft ["author_id", "author.id"] = .ok plan ∧
    plan.select = ["drafts.author_id", "drafts.author_id"] := by
  obtain ⟨plan, built, clash⟩ := exists_ok (show
    Option.any (fun plan : QueryPlan => plan.select = ["drafts.author_id", "drafts.author_id"])
      (Registry.ofEntities [user, draft] >>=
        (·.compilePaths draft ["author_id", "author.id"])).toOption = true
    by decide +kernel)
  obtain ⟨r, registered, compiled⟩ := bind_eq_ok.mp built
  exact ⟨r, plan, registered, compiled, of_decide_eq_true clash⟩

end Sample
end FetchPlan
