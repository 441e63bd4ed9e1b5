import FetchPlan.Proofs.Plan.Failure
import FetchPlan.Proofs.Plan.Order
import FetchPlan.Proofs.Plan.Scope
import FetchPlan.Proofs.Reach

/-! Whether listed paths can be used. A plan reports a column in the query that the to-many
relations on its way lead to, and a virtual field only where that query starts. The walk lists
nothing else, except for the ids behind relations that it does not enter: it does not look whether
the target has an id. -/
namespace FetchPlan
namespace Registry

/-- To-one relations lead from `e` to the relation that the step takes. -/
structure Leads (r : Registry) (e : Entity) (s : Step) : Prop where
  reached : r.along? e s.path = some s.owner
  declared : s.owner.relation? s.relation.name = some s.relation
  registered : r.entities.get? s.relation.target = some s.target

theorem Crosses.leads {r : Registry} (crosses : r.Crosses e ps s) : r.Leads e s :=
  ⟨crosses.reached, crosses.declared, crosses.registered⟩

/-- What the path ends with is selected, or among the virtual fields, in the query on `e` or in that
of the loader behind the to-many relations on its way. An id can be selected as a foreign key. -/
inductive Reports (r : Registry) : Entity → QueryPlan → FieldPath → Prop where
  | column : r.along? e q = some t → (t.column? c).isSome → selectEntry t.table q c ∈ plan.select →
      Reports r e plan (q ++ [c])
  | foreignKey : r.Leads e s → s.relation.kind.ownsForeignKey = true →
      s.relation.kind.customJoin = none → (s.target.column? "id").isSome →
      selectEntry s.owner.table s.path (foreignKey s.relation.name) ∈ plan.select →
      Reports r e plan (s.full ++ ["id"])
  | virtual : e.field? name = some (.virtual name) → name ∈ plan.virtuals → Reports r e plan [name]
  | loader : r.Leads e s → s.relation.kind.isToMany = true → l ∈ plan.loaders →
      l.name = tableAlias s.full → l.table = s.target.table →
      s.relation.manyJoin s.owner s.target s.path = .ok l.manyJoin →
      Reports r s.target l.plan rest → Reports r e plan (s.full ++ rest)

/-- A path to a column, or to a virtual field where a query starts. `starts` says whether one
starts at `e`. -/
inductive Shown (r : Registry) : Bool → Entity → FieldPath → Prop where
  | column : (e.column? name).isSome → Shown r starts e [name]
  | virtual : e.field? name = some (.virtual name) → Shown r true e [name]
  | relation : e.relation? name = some relation → r.entities.get? relation.target = some t →
      Shown r relation.kind.isToMany t rest → Shown r starts e (name :: rest)

section Shown

variable {r : Registry} {e : Entity}

theorem Shown.ne_nil (shown : r.Shown starts e p) : p ≠ [] := by
  cases shown <;> simp

theorem Shown.resolves (shown : r.Shown starts e p) : r.Resolves e p := by
  induction shown with
  | column column => exact .column column
  | virtual virtual => exact .virtual virtual
  | relation declared registered _ ih => exact .relation declared registered ih

theorem shown_singleton : r.Shown starts e [name] ↔
    (e.column? name).isSome ∨ starts = true ∧ e.field? name = some (.virtual name) := by
  constructor
  · intro shown
    cases shown with
    | column column => exact .inl column
    | virtual virtual => exact .inr ⟨rfl, virtual⟩
    | relation _ _ inside => exact absurd rfl inside.ne_nil
  · rintro (column | ⟨rfl, virtual⟩)
    · exact .column column
    · exact .virtual virtual

theorem Shown.behind {relation : RelationField} (shown : r.Shown starts e (name :: rest))
    (declared : e.relation? name = some relation) :
    ∃ t, r.entities.get? relation.target = some t ∧ r.Shown relation.kind.isToMany t rest := by
  cases shown with
  | column column => simp [Entity.column?_relation declared] at column
  | virtual virtual => cases virtual.symm.trans (Entity.relation?_eq_some.mp declared)
  | relation declared' registered inside =>
    cases declared.symm.trans declared'
    exact ⟨_, registered, inside⟩

/-- Behind a relation the rest of a path decides. -/
theorem shown_relation (declared : e.relation? name = some relation)
    (registered : r.entities.get? relation.target = some t) :
    r.Shown starts e (name :: rest) ↔ r.Shown relation.kind.isToMany t rest := by
  constructor
  · intro shown
    obtain ⟨t', registered', inside⟩ := shown.behind declared
    cases registered.symm.trans registered'
    exact inside
  · exact .relation declared registered

/-- No query starts behind a to-one relation. -/
theorem shown_along (reached : r.along? e q = some t) :
    r.Shown starts e (q ++ p) ↔ r.Shown (starts && q.isEmpty) t p := by
  induction q generalizing e starts with
  | nil =>
    cases reached
    simp
  | cons name q ih =>
    obtain ⟨t', leads, reached⟩ := Option.bind_eq_some_iff.mp reached
    obtain ⟨relation, declared, toOne, registered⟩ := toOne?_eq_some.mp leads
    rw [List.cons_append, shown_relation declared registered, ih reached]
    simp [RelationKind.isToMany, toOne]

theorem Leads.shown_iff (leads : r.Leads e s) :
    r.Shown starts e (s.full ++ rest) ↔ r.Shown s.relation.kind.isToMany s.target rest := by
  rw [Step.full, List.append_assoc, shown_along leads.reached]
  exact shown_relation leads.declared leads.registered

/-- Whether a query starts where hops end is decided by the last of them. -/
theorem Follows.shown_iff (valid : r.Valid) (named : e.WellNamed) (follows : r.Follows e hops) :
    r.Shown true e (hopNames hops ++ p) ↔ r.Shown (startsQuery hops) (arrival e hops) p := by
  induction hops using List.reverseRecOn generalizing p with
  | nil => rfl
  | append_singleton hops hop ih =>
    obtain ⟨before, declared, registered, _⟩ := follows_append.mp follows
    have known := (before.dotless valid named).1.relation?_eq_some.mpr declared
    rw [hopNames_concat, List.append_assoc, ih before, startsQuery_concat, arrival_concat]
    exact shown_relation known registered

theorem Reports.shown (reports : r.Reports e plan p) : r.Shown true e p := by
  induction reports with
  | column reached column _ => exact (shown_along reached).mpr (.column column)
  | foreignKey leads _ _ column _ => exact leads.shown_iff.mpr (.column column)
  | virtual virtual _ => exact .virtual virtual
  | loader leads toMany _ _ _ _ _ ih =>
    rw [leads.shown_iff, toMany]
    exact ih

end Shown

/-- A column that is asked for behind to-one relations is selected, or stands as a foreign key. -/
theorem Query.reports_column {r : Registry} (query : r.Query e ps nodes plan)
    (reached : r.along? e q = some t) (column : (t.column? c).isSome) (asked : q ++ [c] ∈ ps) :
    r.Reports e plan (q ++ [c]) := by
  by_cases apart : ∀ s, s.full = q → ¬ r.Collapsed e ps s
  · exact .column reached column (query.entry_mem (.column reached asked column apart))
  · push Not at apart
    obtain ⟨s, rfl, collapsed⟩ := apart
    obtain rfl : c = "id" := by simpa using collapsed.idOnly [c] (by simp) asked
    exact .foreignKey collapsed.crosses.leads collapsed.owned collapsed.unjoined collapsed.idColumn
      (query.entry_mem (.foreignKey collapsed))

/-- A query reports every path it is asked for that leads to a column, or to a virtual field where a
query starts. -/
theorem Query.reports {r : Registry} (query : r.Query e ps nodes plan) :
    ∀ p ∈ ps, r.Shown true e p → r.Reports e plan p := by
  refine query.induction (motive := fun e ps plan => ∀ p ∈ ps, r.Shown true e p → r.Reports e plan p) ?_
  intro e ps nodes plan query inside p asked shown
  rcases query.shapes.accounted asked shown.ne_nil with ⟨q, c, t, rfl, reached, column | virtual⟩ |
    ⟨s, rest, rfl, proper, loaded⟩
  · exact query.reports_column reached column asked
  · rw [shown_along reached, shown_singleton] at shown
    obtain rfl : q = [] := by simpa [Entity.column?, virtual] using shown
    cases reached
    refine .virtual virtual ?_
    rw [query.virtuals_eq, Entity.mem_virtualsAmong]
    exact ⟨asked, virtual⟩
  · obtain ⟨v, l, kept, rfl, member, loads⟩ := query.exists_loader loaded
    have leads := loaded.crosses.leads
    rw [leads.shown_iff, loaded.toMany] at shown
    have left : rest ∈ below v.full ps := mem_below.mpr ⟨proper, asked⟩
    exact .loader leads loaded.toMany member loads.named loads.stored loads.matched
      (inside v l kept loads rest left shown)

/-- If the path ends with the id behind an owning relation, the relation's target has an id column. -/
def KeyHasId (r : Registry) (e : Entity) (p : FieldPath) : Prop :=
  ∀ hops relation, r.Follows e hops → .relation relation ∈ (arrival e hops).fields →
    relation.kind.ownsForeignKey = true → p = hopNames hops ++ [relation.name, "id"] →
    ∃ t, r.entities.get? relation.target = some t ∧ (t.column? "id").isSome

/-- It is enough that the targets of all owning relations are registered with an id column. -/
theorem keyHasId_of_targets {r : Registry} (root : r.entities.get? key = some e)
    (identified : ∀ owner ∈ r.all, ∀ relation ∈ owner.relations, relation.kind.ownsForeignKey = true →
      (r.entities.get? relation.target).any fun t => (t.column? "id").isSome) (p : FieldPath) :
    r.KeyHasId e p := by
  intro hops relation follows declared owns _
  obtain ⟨_, owner⟩ := follows.arrives root
  have among : relation ∈ (arrival e hops).relations := List.mem_filterMap.mpr ⟨_, declared, rfl⟩
  exact (Option.any_eq_true ..).mp (identified _ (mem_all owner) relation among owns)

theorem Shown.keyHasId {r : Registry} (valid : r.Valid) (named : e.WellNamed) (shown : r.Shown true e p) :
    r.KeyHasId e p := by
  rintro hops relation follows declared owns rfl
  have known := (follows.dotless valid named).1.relation?_eq_some.mpr declared
  rw [follows.shown_iff valid named] at shown
  obtain ⟨t, registered, inside⟩ := shown.behind known
  -- No query starts behind the relation, so its id is not a virtual field.
  rw [shown_singleton, RelationKind.isToMany, RelationKind.isToOne_of_ownsForeignKey owns] at inside
  exact ⟨t, registered, by simpa using inside⟩

theorem Ends.shown {r : Registry} (valid : r.Valid) (named : e.WellNamed) (route : r.Route e depth hops)
    (ends : r.Ends e depth hops p) (keyed : r.KeyHasId e p) : r.Shown true e p := by
  have last := (route.follows.dotless valid named).1
  cases ends with
  | plain declared =>
    have found := last.field?_eq_some.mpr ⟨declared, rfl⟩
    rw [Field.name] at found
    rw [route.follows.shown_iff valid named, shown_singleton, Entity.column?, found]
    exact .inl rfl
  | virtual declared starts =>
    rw [route.follows.shown_iff valid named, shown_singleton]
    exact .inr ⟨starts, last.field?_eq_some.mpr ⟨declared, rfl⟩⟩
  | foreignKey declared owns _ =>
    obtain ⟨t, registered, column⟩ := keyed _ _ route.follows declared owns rfl
    rw [route.follows.shown_iff valid named, shown_relation (last.relation?_eq_some.mpr declared) registered]
    exact .column column

/-- Listed paths compile, and the plan reports them, exactly if none has a blank segment and the ids
that stand for relations not entered are columns. -/
theorem reachable_usable {r : Registry} {id : String} {asked : List FieldPath}
    (built : ofEntities es = .ok r) (root : r.get id = .ok e) (walked : r.reachable id depth = .ok ps)
    (listed : ∀ p ∈ asked, p ∈ ps) :
    (∃ plan, r.compilePaths e (asked.map FieldPath.dotted) = .ok plan ∧
        ∀ p ∈ asked, r.Reports e plan p) ↔
      ∀ p ∈ asked, p.any Text.isBlankText = false ∧ r.KeyHasId e p := by
  have valid := ofEntities_valid built
  have named := valid.wellNamed (get_eq_ok.mp root)
  have found (p : FieldPath) (among : p ∈ asked) := (mem_reachable valid root walked).mp (listed p among)
  -- Field names have no dots, so the compiler splits the texts into the listed paths again.
  have same : requested (asked.map FieldPath.dotted) = asked := by
    rw [requested, List.map_map]
    refine (List.map_congr_left fun p among => ?_).trans (List.map_id asked)
    obtain ⟨_, route, ends⟩ := found p among
    exact ends.split_dotted valid named route
  constructor
  · rintro ⟨plan, compiled, reported⟩ p among
    obtain ⟨nodes, resolved⟩ := exists_compilePaths_iff.mp ⟨plan, compiled⟩
    have solid := (resolvePaths_ok resolved).1
    rw [same] at solid
    exact ⟨solid p among, (reported p among).shown.keyHasId valid named⟩
  · intro good
    have shown (p : FieldPath) (among : p ∈ asked) : r.Shown true e p := by
      obtain ⟨_, route, ends⟩ := found p among
      exact ends.shown valid named route (good p among).2
    have resolves : ∀ p ∈ requested (asked.map FieldPath.dotted),
        p.any Text.isBlankText = false ∧ r.Resolves e p := by
      rw [same]
      exact fun p among => ⟨(good p among).1, (shown p among).resolves⟩
    obtain ⟨plan, compiled⟩ := exists_compilePaths_iff.mpr (exists_resolvePaths_iff.mpr resolves)
    obtain ⟨nodes, query⟩ := compilePaths_query compiled
    rw [same] at query
    exact ⟨plan, compiled, fun p among => query.reports p among (shown p among)⟩

theorem reachable_usable_sample : ∃ ps plan, ofEntities [Sample.folder, Sample.file] = .ok Sample.cabinet ∧
    Sample.cabinet.get "Folder" = .ok Sample.folder ∧ Sample.cabinet.reachable "Folder" 1 = .ok ps ∧
      ["files", "folder", "id"] ∈ ps ∧
      Sample.cabinet.compilePaths Sample.folder (ps.map FieldPath.dotted) = .ok plan ∧
      ∀ p ∈ ps, Sample.cabinet.Reports Sample.folder plan p := by
  have root : Sample.cabinet.get "Folder" = .ok Sample.folder := by decide +kernel
  obtain ⟨ps, walked, names⟩ := exists_ok (show
    Option.any (fun ps => ["files", "folder", "id"] ∈ ps ∧ ∀ p ∈ ps, p.any Text.isBlankText = false)
      (Sample.cabinet.reachable "Folder" 1).toOption = true by decide +kernel)
  obtain ⟨listed, solid⟩ := of_decide_eq_true names
  have keyed := keyHasId_of_targets (get_eq_ok.mp root) (by decide +kernel)
  obtain ⟨plan, compiled, reported⟩ := (reachable_usable Sample.cabinet_built root walked fun _ => id).mpr
    fun p among => ⟨solid p among, keyed p⟩
  exact ⟨ps, plan, Sample.cabinet_built, root, walked, listed, compiled, reported⟩

end Registry

namespace Sample

def writer : Entity :=
  { id := "Writer", table := "writers", fields := [.plain ⟨"name", .string, false, none, none, none⟩] }

/-- An article belongs to a writer, and writers have no id. -/
def article : Entity :=
  { id := "Article", table := "articles"
    fields := [.plain ⟨"title", .string, false, none, none, none⟩,
      .relation ⟨"author", "Writer", .belongsToOne none, false, none⟩] }

def press : Registry := ⟨(SortedMap.empty.insert "Article" article).insert "Writer" writer⟩

/-- The id behind the author is listed, but with it the listed paths do not compile, nor does it alone. -/
theorem article_unusable : Registry.ofEntities [article, writer] = .ok press ∧
    press.get "Article" = .ok article ∧ press.reachable "Article" 0 = .ok [["title"], ["author", "id"]] ∧
    press.compilePaths article ["title", "author.id"] =
      .error (.badPath "Writer" ["author", "id"] (.unknownField "id")) ∧
    press.compilePaths article ["author.id"] =
      .error (.badPath "Writer" ["author", "id"] (.unknownField "id")) := by
  have together : (press.compilePaths article ["title", "author.id"]).map (fun _ => ()) =
      .error (.badPath "Writer" ["author", "id"] (.unknownField "id")) := by
    decide +kernel
  have alone : (press.compilePaths article ["author.id"]).map (fun _ => ()) =
      .error (.badPath "Writer" ["author", "id"] (.unknownField "id")) := by
    decide +kernel
  exact ⟨by decide +kernel, by decide +kernel, by decide +kernel, error_of_map together, error_of_map alone⟩

end Sample
end FetchPlan
