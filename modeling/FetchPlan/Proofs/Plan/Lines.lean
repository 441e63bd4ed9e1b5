import FetchPlan.Proofs.Inflection
import FetchPlan.Proofs.Plan.Order
import FetchPlan.Proofs.Plan.Outline
import FetchPlan.Proofs.Registry

/-! The lines of a compiled plan. Everything a plan prints is put together from texts of the definitions that
the requested paths lead along, so its entries are its lines exactly if none of these holds a newline.
Registration does not ask that of them. -/
namespace FetchPlan

section Names

variable {q : FieldPath}

theorem oneLine_tableAlias : Text.OneLine (tableAlias q) ↔ ∀ name ∈ q, Text.OneLine name :=
  Text.oneLine_join (by decide)

theorem oneLine_columnAlias :
    Text.OneLine (columnAlias q c) ↔ (∀ name ∈ q, Text.OneLine name) ∧ Text.OneLine c := by
  have separator : Text.OneLine aliasSeparator := by decide
  simp [columnAlias, oneLine_tableAlias, separator]

theorem oneLine_foreignKey : Text.OneLine (foreignKey relation) ↔ Text.OneLine relation := by
  have ending : Text.OneLine "_id" := by decide
  simp [foreignKey, ending]

theorem oneLine_qualifier :
    Text.OneLine (qualifier t q) ↔ (∀ name ∈ q, Text.OneLine name) ∧ (q = [] → Text.OneLine t) := by
  cases q with
  | nil => simp [qualifier]
  | cons => simp [qualifier, oneLine_tableAlias]

theorem oneLine_selectEntry : Text.OneLine (selectEntry t q c) ↔
    (∀ name ∈ q, Text.OneLine name) ∧ (q = [] → Text.OneLine t) ∧ Text.OneLine c := by
  have words : Text.OneLine "." ∧ Text.OneLine " as " := by decide
  cases q with
  | nil => simp [selectEntry, words]
  | cons => simp +contextual [selectEntry, words, oneLine_tableAlias, oneLine_columnAlias]

theorem oneLine_idField : Text.OneLine (idField q) ↔ ∀ name ∈ q, Text.OneLine name := by
  have id : Text.OneLine "id" := by decide
  cases q with
  | nil => simp [idField, id]
  | cons => simp [idField, oneLine_columnAlias, id]

theorem oneLine_referenceColumn (table : Text.OneLine t) : Text.OneLine (referenceColumn t) :=
  oneLine_foreignKey.mpr (Inflection.oneLine_singularize table)

theorem oneLine_junctionColumns (table : Text.OneLine joinTable) :
    Text.OneLine (junctionColumns joinTable).1 ∧ Text.OneLine (junctionColumns joinTable).2 := by
  rw [junctionColumns]
  split
  · rename_i left right cut
    rw [(Text.cutOnce_eq_some_iff.mp cut).parts, Text.oneLine_append, Text.oneLine_append] at table
    exact ⟨oneLine_referenceColumn table.1.1, oneLine_referenceColumn table.2⟩
  · exact ⟨oneLine_referenceColumn table, oneLine_referenceColumn table⟩

theorem oneLine_orientedJunctionColumns (table : Text.OneLine joinTable) (owner : String) :
    Text.OneLine (orientedJunctionColumns joinTable owner).1 ∧
      Text.OneLine (orientedJunctionColumns joinTable owner).2 := by
  obtain ⟨first, second⟩ := oneLine_junctionColumns table
  simp only [orientedJunctionColumns]
  split
  · exact ⟨second, first⟩
  · exact ⟨first, second⟩

end Names

/-- A column, the path to it and, where it is qualified by one, the table. -/
structure Source.OneLine (x : Source) : Prop where
  level : ∀ name ∈ x.level, Text.OneLine name
  table : x.level = [] → Text.OneLine x.owner.table
  column : Text.OneLine x.columnName

theorem Source.oneLine_entry {x : Source} : Text.OneLine x.entry ↔ x.OneLine := by
  rw [entry, oneLine_selectEntry]
  constructor
  · rintro ⟨level, table, name⟩
    exact ⟨level, table, name⟩
  · rintro ⟨level, table, name⟩
    exact ⟨level, table, name⟩

/-- The texts a relation is stored by. -/
def RelationKind.texts : RelationKind → List String
  | .belongsToOne join | .oneToOne _ join => join.toList
  | .hasMany column => [column]
  | .manyToMany table => [table]

theorem RelationKind.texts_toOne {k : RelationKind} (toOne : k.isToOne = true) :
    k.texts = k.customJoin.toList := by
  cases k <;> first | rfl | contradiction

namespace Step

/-- A joined table and the path to it, the join declared for it or, where it qualifies a column of the
predicate instead, the table it is joined to. -/
structure JoinOneLine (s : Step) : Prop where
  path : ∀ name ∈ s.full, Text.OneLine name
  target : Text.OneLine s.target.table
  declared : ∀ t ∈ s.relation.kind.customJoin, Text.OneLine t
  source : s.relation.kind.customJoin = none → s.path = [] → Text.OneLine s.owner.table

/-- The tables on both sides of a to-many relation, the path to it and what it is stored by. -/
structure LoaderOneLine (s : Step) : Prop where
  path : ∀ name ∈ s.full, Text.OneLine name
  owner : Text.OneLine s.owner.table
  target : Text.OneLine s.target.table
  stored : ∀ t ∈ s.relation.kind.texts, Text.OneLine t

variable {s : Step}

theorem oneLine_full : (∀ name ∈ s.full, Text.OneLine name) ↔
    (∀ name ∈ s.path, Text.OneLine name) ∧ Text.OneLine s.relation.name := by
  rw [full, List.forall_mem_append, List.forall_mem_singleton]

theorem oneLine_join : (PlanEntry.join (s.join [])).OneLine ↔ s.JoinOneLine := by
  have signs : Text.OneLine "." ∧ Text.OneLine ".id" := by decide
  have predicate : (∀ name ∈ s.full, Text.OneLine name) →
      ((∀ t ∈ (s.join []).predicate.texts, Text.OneLine t) ↔
        (∀ t ∈ s.relation.kind.customJoin, Text.OneLine t) ∧
          (s.relation.kind.customJoin = none → s.path = [] → Text.OneLine s.owner.table)) := by
    intro path
    obtain ⟨before, name⟩ := oneLine_full.mp path
    have joined := oneLine_tableAlias.mpr path
    have key := oneLine_foreignKey.mpr name
    have source : Text.OneLine (qualifier s.owner.table s.path) ↔
        (s.path = [] → Text.OneLine s.owner.table) := by
      rw [oneLine_qualifier, and_iff_right before]
    cases declared : s.relation.kind.customJoin with
    | some text => simp [join, RelationField.predicate, declared, JoinPredicate.texts]
    | none =>
      simp only [join, RelationField.predicate, declared, List.nil_append]
      split <;> simp [JoinPredicate.texts, signs, joined, key, source]
  rw [PlanEntry.OneLine, PlanEntry.texts, List.forall_mem_cons, List.forall_mem_cons]
  constructor
  · rintro ⟨target, path, printed⟩
    have path := oneLine_tableAlias.mp path
    obtain ⟨declared, source⟩ := (predicate path).mp printed
    exact ⟨path, target, declared, source⟩
  · rintro ⟨path, target, declared, source⟩
    exact ⟨target, oneLine_tableAlias.mpr path, (predicate path).mpr ⟨declared, source⟩⟩

theorem oneLine_loader (matched : s.relation.manyJoin s.owner s.target s.path = .ok m) :
    (PlanEntry.loader (tableAlias s.full) m).OneLine ↔ s.LoaderOneLine := by
  have id : Text.OneLine "id" := by decide
  have printed : (∀ name ∈ s.full, Text.OneLine name) → ((∀ t ∈ m.texts, Text.OneLine t) ↔
      Text.OneLine s.owner.table ∧ Text.OneLine s.target.table ∧
        ∀ t ∈ s.relation.kind.texts, Text.OneLine t) := by
    intro path
    have field : Text.OneLine (idField s.path) := oneLine_idField.mpr (oneLine_full.mp path).1
    obtain ⟨column, stored, rfl⟩ | ⟨table, stored, rfl⟩ := RelationField.manyJoin_cases matched
    · simp [ManyJoin.texts, RelationKind.texts, stored, id, field]
    · -- The columns of a join table are cut out of its name, which is printed too.
      by_cases single : Text.OneLine table
      · have columns := oneLine_orientedJunctionColumns single s.owner.table
        simp [ManyJoin.texts, RelationKind.texts, stored, id, field, single, columns]
      · simp [ManyJoin.texts, RelationKind.texts, stored, single]
  rw [PlanEntry.OneLine, PlanEntry.texts, List.forall_mem_cons, oneLine_tableAlias]
  constructor
  · rintro ⟨path, texts⟩
    obtain ⟨owner, target, stored⟩ := (printed path).mp texts
    exact ⟨path, owner, target, stored⟩
  · rintro ⟨path, owner, target, stored⟩
    exact ⟨path, (printed path).mpr ⟨owner, target, stored⟩⟩

end Step

namespace Registry

/-- What the query for `ps` on `e` prints of the definitions has no newline in it. -/
structure QueryOneLined (r : Registry) (e : Entity) (ps : List FieldPath) : Prop where
  sources : ∀ x, r.Due e ps x → x.OneLine
  virtuals : ∀ name ∈ e.virtualsAmong ps, Text.OneLine name
  joins : ∀ s, r.Joined e ps s → s.JoinOneLine
  loaders : ∀ s, r.Loaded e ps s → s.LoaderOneLine

/-- The same of the queries behind its to-many relations, at any depth. -/
inductive OneLined (r : Registry) : Entity → List FieldPath → Prop where
  | intro (here : r.QueryOneLined e ps)
      (inside : ∀ s, r.Loaded e ps s → OneLined r s.target (below s.full ps)) : OneLined r e ps

theorem oneLined_iff {r : Registry} : r.OneLined e ps ↔
    r.QueryOneLined e ps ∧ ∀ s, r.Loaded e ps s → r.OneLined s.target (below s.full ps) :=
  ⟨fun ⟨here, inside⟩ => ⟨here, inside⟩, fun ⟨here, inside⟩ => ⟨here, inside⟩⟩

section Query

variable {r : Registry} (query : r.Query e ps nodes plan)
include query

theorem Query.oneLine_select :
    (∀ column ∈ plan.select, Text.OneLine column) ↔ ∀ x, r.Due e ps x → x.OneLine := by
  rw [query.select_eq, List.forall_mem_map]
  exact forall_congr' fun x => imp_congr query.mem_sources Source.oneLine_entry

theorem Query.oneLine_joins :
    (∀ j ∈ plan.joins, (PlanEntry.join j).OneLine) ↔ ∀ s, r.Joined e ps s → s.JoinOneLine := by
  rw [query.joins_eq, List.forall_mem_map]
  exact forall_congr' fun s => imp_congr (query.shapes.mem_joined s) Step.oneLine_join

/-- A loader prints what stands for its step, and behind it stands the query for the paths that are left. -/
theorem Query.oneLine_loaders
    (inside : ∀ v l, v ∈ (r.visits e nodes).filter Visit.isLoaded → r.Loads [] v l →
      (l.plan.OneLined ↔ r.OneLined v.target (below v.full ps))) :
    (∀ l ∈ plan.loaders, (PlanEntry.loader l.name l.manyJoin).OneLine ∧ l.plan.OneLined) ↔
      ∀ s, r.Loaded e ps s → s.LoaderOneLine ∧ r.OneLined s.target (below s.full ps) := by
  have agrees {v : Visit} {l : Loader} (kept : v ∈ (r.visits e nodes).filter Visit.isLoaded)
      (loads : r.Loads [] v l) : (PlanEntry.loader l.name l.manyJoin).OneLine ∧ l.plan.OneLined ↔
        v.LoaderOneLine ∧ r.OneLined v.target (below v.full ps) := by
    rw [loads.named, Step.oneLine_loader loads.matched, inside v l kept loads]
  constructor
  · intro printed s loaded
    obtain ⟨v, l, kept, rfl, member, loads⟩ := query.exists_loader loaded
    exact (agrees kept loads).mp (printed l member)
  · intro single l member
    obtain ⟨v, kept, loads⟩ := exists_of_forall₂ query.loaders member
    obtain ⟨listed, toMany⟩ := List.mem_filter.mp kept
    exact (agrees kept loads).mpr (single _ ⟨(query.shapes.of_mem_visits listed).1, toMany⟩)

theorem Query.oneLined_iff : plan.OneLined ↔ r.OneLined e ps := by
  refine query.induction (motive := fun e ps plan => plan.OneLined ↔ r.OneLined e ps) ?_
  intro e ps nodes plan query inside
  rw [QueryPlan.oneLined_iff, query.oneLine_select, query.virtuals_eq, query.oneLine_joins,
    query.oneLine_loaders inside, Registry.oneLined_iff]
  constructor
  · rintro ⟨sources, virtuals, joins, loaders⟩
    have here : r.QueryOneLined e ps := ⟨sources, virtuals, joins, fun s loaded => (loaders s loaded).1⟩
    exact ⟨here, fun s loaded => (loaders s loaded).2⟩
  · rintro ⟨⟨sources, virtuals, joins, loaders⟩, inside⟩
    exact ⟨sources, virtuals, joins, fun s loaded => ⟨loaders s loaded, inside s loaded⟩⟩

end Query

end Registry

def Field.texts : Field → List String
  | .plain f => [f.name]
  | .virtual name => [name]
  | .relation f => f.name :: f.kind.texts

namespace Entity

/-- The table, the names of the fields, and the texts the relations are stored by. -/
def texts (e : Entity) : List String := e.table :: e.fields.flatMap Field.texts

/-- No newline is in what plans can print of the definition. -/
def OneLined (e : Entity) : Prop := ∀ s ∈ e.texts, Text.OneLine s

instance (e : Entity) : Decidable e.OneLined := inferInstanceAs (Decidable (∀ s ∈ e.texts, Text.OneLine s))

section OneLined

variable {e : Entity} (single : e.OneLined)
include single

theorem OneLined.table : Text.OneLine e.table := single _ (List.mem_cons_self ..)

theorem OneLined.field (found : e.field? name = some f) : ∀ s ∈ f.texts, Text.OneLine s := fun s member =>
  single s (List.mem_cons_of_mem _ (List.mem_flatMap.mpr ⟨f, List.mem_of_find?_eq_some found, member⟩))

theorem OneLined.relation {f : RelationField} (declared : e.relation? name = some f) :
    Text.OneLine f.name ∧ ∀ t ∈ f.kind.texts, Text.OneLine t :=
  List.forall_mem_cons.mp (single.field (relation?_eq_some.mp declared))

theorem OneLined.virtual (declared : e.field? name = some (.virtual name)) : Text.OneLine name :=
  single.field declared name (List.mem_singleton.mpr rfl)

theorem OneLined.column (column : (e.column? name).isSome) : Text.OneLine name := by
  rw [column?] at column
  split at column
  · rename_i f found
    obtain rfl := name_of_field? found
    exact single.field found _ (List.mem_singleton.mpr rfl)
  · contradiction
  · split at column
    · rename_i same
      rw [same]
      decide
    · contradiction

end OneLined

end Entity

namespace Registry

section Definitions

variable {r : Registry} (single : ∀ t ∈ r.all, t.OneLined)
include single

theorem oneLined_along (root : e.OneLined) (reached : r.along? e q = some t) :
    t.OneLined ∧ ∀ name ∈ q, Text.OneLine name := by
  induction q generalizing e with
  | nil =>
    cases reached
    exact ⟨root, nofun⟩
  | cons name q ih =>
    obtain ⟨t', leads, reached⟩ := Option.bind_eq_some_iff.mp reached
    obtain ⟨relation, declared, _, registered⟩ := toOne?_eq_some.mp leads
    obtain ⟨last, names⟩ := ih (single t' (mem_all registered)) reached
    obtain rfl := Entity.name_of_relation? declared
    exact ⟨last, List.forall_mem_cons.mpr ⟨(root.relation declared).1, names⟩⟩

theorem Due.oneLine (root : e.OneLined) (due : r.Due e ps x) : x.OneLine := by
  cases due with
  | column reached _ column _ =>
    obtain ⟨owner, path⟩ := oneLined_along single root reached
    exact ⟨path, fun _ => owner.table, owner.column column⟩
  | foreignKey collapsed =>
    obtain ⟨owner, path⟩ := oneLined_along single root collapsed.crosses.reached
    exact ⟨path, fun _ => owner.table, oneLine_foreignKey.mpr (owner.relation collapsed.crosses.declared).1⟩
  | addedId reached _ _ =>
    obtain ⟨owner, path⟩ := oneLined_along single root reached
    exact ⟨path, fun _ => owner.table, show Text.OneLine "id" by decide⟩

theorem Joined.oneLine (root : e.OneLined) (joined : r.Joined e ps s) : s.JoinOneLine := by
  obtain ⟨owner, path⟩ := oneLined_along single root joined.crosses.reached
  obtain ⟨name, stored⟩ := owner.relation joined.crosses.declared
  have target := single _ (mem_all joined.crosses.registered)
  rw [RelationKind.texts_toOne joined.toOne] at stored
  exact ⟨Step.oneLine_full.mpr ⟨path, name⟩, target.table, by simpa using stored, fun _ _ => owner.table⟩

theorem Loaded.oneLine (root : e.OneLined) (loaded : r.Loaded e ps s) : s.LoaderOneLine := by
  obtain ⟨owner, path⟩ := oneLined_along single root loaded.crosses.reached
  obtain ⟨name, stored⟩ := owner.relation loaded.crosses.declared
  have target := single _ (mem_all loaded.crosses.registered)
  exact ⟨Step.oneLine_full.mpr ⟨path, name⟩, owner.table, target.table, stored⟩

theorem oneLined_of_definitions (root : e.OneLined) (ps : List FieldPath) : r.OneLined e ps := by
  induction ps using below_induction generalizing e with
  | step ps ih =>
    refine .intro ⟨?_, ?_, ?_, ?_⟩ fun s loaded => ?_
    · exact fun x due => due.oneLine single root
    · exact fun name member => root.virtual (Entity.mem_virtualsAmong.mp member).2
    · exact fun s joined => joined.oneLine single root
    · exact fun s loaded => loaded.oneLine single root
    · obtain ⟨rest, _, asked⟩ := loaded.crosses.crossed
      exact ih s.full rest s.full_ne_nil asked (single _ (mem_all loaded.crosses.registered))

end Definitions

/-- The text of a plan is written entry by entry. Its lines are the entries, and are as many, exactly if what is
printed of the definitions has no newline in it. -/
theorem compilePaths_lines {r : Registry} (compiled : r.compilePaths e paths = .ok plan) :
    plan.TextExact ∧ (plan.OneLined ↔ r.OneLined e (requested paths)) ∧
      (e.OneLined → (∀ t ∈ r.all, t.OneLined) → r.OneLined e (requested paths)) := by
  obtain ⟨nodes, query⟩ := compilePaths_query compiled
  exact ⟨plan.textExact, query.oneLined_iff, fun root single => oneLined_of_definitions single root _⟩

theorem compilePaths_lines_sample : ∃ r plan,
    ofEntities [Sample.user, Sample.post, Sample.comment] = .ok r ∧
      r.compilePaths Sample.post Sample.paths = .ok plan ∧ plan.TextExact ∧ plan.OneLined ∧
      Text.lines plan.explain = plan.entries.map PlacedEntry.line ∧
      (Text.lines plan.explain).length = plan.size := by
  obtain ⟨⟨r, plan⟩, built, single⟩ := exists_ok (show
    Option.any (fun x : Registry × QueryPlan => ∀ t ∈ x.1.all, t.OneLined)
      (ofEntities [Sample.user, Sample.post, Sample.comment] >>= fun r =>
        r.compilePaths Sample.post Sample.paths >>= fun plan => .ok (r, plan)).toOption = true
    by decide +kernel)
  obtain ⟨_, registered, built⟩ := bind_eq_ok.mp built
  obtain ⟨_, compiled, ⟨⟩⟩ := bind_eq_ok.mp built
  obtain ⟨text, printed, clean⟩ := compilePaths_lines compiled
  have single := printed.mpr (clean (by decide +kernel) (of_decide_eq_true single))
  exact ⟨r, plan, registered, compiled, text, single, text.lines.mpr single, text.number.mpr single⟩

end Registry

namespace Sample

/-- The join with the customer is written on two lines. -/
def invoice : Entity :=
  { id := "Invoice", table := "invoices"
    fields := [.plain ⟨"number", .string, false, none, none, none⟩,
      .relation ⟨"customer", "Customer",
        .belongsToOne (some "customer.id = invoices.customer_id\nAND customer.active"), false, none⟩] }

def customer : Entity :=
  { id := "Customer", table := "customers", fields := [.plain ⟨"name", .string, false, none, none, none⟩] }

/-- The plan has three entries and its text four lines, the last of which has no entry. -/
theorem invoice_broken : ∃ r plan, Registry.ofEntities [invoice, customer] = .ok r ∧
    r.compilePaths invoice ["number", "customer.name"] = .ok plan ∧ plan.size = 3 ∧
    Text.lines plan.explain = ["select invoices.number", "select customer.name as customer__name",
      "LEFT OUTER JOIN customers AS customer ON customer.id = invoices.customer_id", "AND customer.active"] := by
  obtain ⟨r, plan, registered, compiled, found⟩ := Registry.exists_compiled (show
    Option.any (fun plan => plan.size = 3 ∧ Text.lines plan.explain =
        ["select invoices.number", "select customer.name as customer__name",
          "LEFT OUTER JOIN customers AS customer ON customer.id = invoices.customer_id", "AND customer.active"])
      (Registry.ofEntities [invoice, customer] >>=
        (·.compilePaths invoice ["number", "customer.name"])).toOption = true
    by decide +kernel)
  obtain ⟨size, lines⟩ := of_decide_eq_true found
  exact ⟨r, plan, registered, compiled, size, lines⟩

end Sample
end FetchPlan
