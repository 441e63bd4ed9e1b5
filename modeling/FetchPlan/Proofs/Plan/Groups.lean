import FetchPlan.Proofs.Flattening
import FetchPlan.Proofs.Plan.Names
import FetchPlan.Proofs.Plan.Order
import FetchPlan.Proofs.Plan.Scope

/-! Groups of paths without a first segment in common. They meet neither in the selection nor in the
shape, so a plan for both has the joins, loaders and virtual fields of one and then those of the other.
Only the id that loaders are matched with belongs to both: it is selected once. -/
namespace FetchPlan

/-- No path of the one list begins with a segment with which one of the other begins. -/
def StartApart (ps qs : List FieldPath) : Prop := ∀ p ∈ ps, ∀ q ∈ qs, p.head? ≠ q.head?

instance (ps qs : List FieldPath) : Decidable (StartApart ps qs) :=
  inferInstanceAs (Decidable (∀ p ∈ ps, ∀ q ∈ qs, p.head? ≠ q.head?))

namespace Selection

theorem insertAll_of_apart {s : Selection}
    (apart : ∀ p ∈ qs, ∃ name rest, p = name :: rest ∧ name ∉ s.map SelectionEntry.name) :
    insertAll s qs = s ++ ofPaths qs := by
  induction s with
  | nil => rfl
  | cons e s ih =>
    rw [insertAll_cons, ih, List.cons_append]
    · intro p member
      obtain ⟨name, rest, begins, fresh⟩ := apart p member
      exact ⟨name, rest, begins, fun later => fresh (List.mem_cons_of_mem _ later)⟩
    · intro p member
      obtain ⟨name, rest, begins, fresh⟩ := apart p member
      exact ⟨name, rest, begins, fun same => fresh (same ▸ List.mem_cons_self)⟩

/-- Each group makes entries of its own. -/
theorem ofPaths_append_of_apart (apart : StartApart ps qs) (nonempty : ∀ q ∈ qs, q ≠ []) :
    ofPaths (ps ++ qs) = ofPaths ps ++ ofPaths qs := by
  rw [ofPaths_append, insertAll_of_apart]
  intro q member
  obtain ⟨name, rest, rfl⟩ := List.exists_cons_of_ne_nil (nonempty q member)
  refine ⟨name, rest, rfl, ?_⟩
  rw [names_ofPaths, mem_distinct_heads]
  rintro ⟨rest', asked⟩
  exact apart _ asked _ member rfl

end Selection

theorem requested_append (paths others : List String) :
    requested (paths ++ others) = requested paths ++ requested others := by
  simp [requested]

namespace Registry

theorem resolveEntries_append {r : Registry} {entries others : List SelectionEntry}
    (first : r.resolveEntries e path entries = .ok ns) (second : r.resolveEntries e path others = .ok ms) :
    r.resolveEntries e path (entries ++ others) = .ok (ns ++ ms) := by
  induction entries generalizing ns with
  | nil =>
    cases first
    exact second
  | cons entry entries ih =>
    obtain ⟨node, rest, here, later, rfl⟩ := resolveEntries_cons_ok.mp first
    exact resolveEntries_cons_ok.mpr ⟨node, rest ++ ms, here, ih later, rfl⟩

theorem resolvePaths_append {r : Registry} (apart : StartApart (requested paths) (requested others))
    (first : r.resolvePaths e paths = .ok ns) (second : r.resolvePaths e others = .ok ms) :
    r.resolvePaths e (paths ++ others) = .ok (ns ++ ms) := by
  obtain ⟨s, parsed, resolved⟩ := bind_eq_ok.mp first
  obtain ⟨s', parsed', resolved'⟩ := bind_eq_ok.mp second
  obtain ⟨solid, rfl⟩ := Selection.parse_eq_ok_iff.mp parsed
  obtain ⟨solid', rfl⟩ := Selection.parse_eq_ok_iff.mp parsed'
  have together : Selection.parse e.id (paths ++ others) =
      .ok (Selection.ofPaths (requested paths) ++ Selection.ofPaths (requested others)) := by
    rw [Selection.parse_eq_ok_iff, requested_append]
    refine ⟨List.forall_mem_append.mpr ⟨solid, solid'⟩, ?_⟩
    rw [Selection.ofPaths_append_of_apart apart]
    intro q asked
    obtain ⟨path, _, rfl⟩ := List.mem_map.mp asked
    exact Text.split_ne_nil '.' path
  rw [resolvePaths, together, ok_bind, resolveEntries_append resolved resolved']

theorem visits_append (r : Registry) (e : Entity) (ns ms : List FieldNode) :
    r.visits e (ns ++ ms) = r.visits e ns ++ r.visits e ms := by
  induction ns with
  | nil => rfl
  | cons node ns ih => rw [List.cons_append, visits, visits, ih, List.append_assoc]

end Registry

/-- A plan does what two plans for the same table do, the one and then the other. Its select list has
the entries of both, except that the table's own id stands there once. -/
structure QueryPlan.Combines (table : String) (plan p q : QueryPlan) : Prop where
  joins : plan.joins = p.joins ++ q.joins
  loaders : plan.loaders = p.loaders ++ q.loaders
  virtuals : plan.virtuals = p.virtuals ++ q.virtuals
  select : ∀ entry, entry ∈ plan.select ↔ entry ∈ p.select ∨ entry ∈ q.select
  counts : ∀ entry, entry ≠ selectEntry table [] "id" →
    plan.select.count entry = p.select.count entry + q.select.count entry
  id : plan.select.count (selectEntry table [] "id") ≤ 1

theorem ownColumns_append (table : String) (path : FieldPath) (ns ms : List FieldNode) :
    ownColumns table path (ns ++ ms) = ownColumns table path ns ++ ownColumns table path ms := by
  simp [ownColumns]

theorem ownVirtuals_append (path : FieldPath) (ns ms : List FieldNode) :
    ownVirtuals path (ns ++ ms) = ownVirtuals path ns ++ ownVirtuals path ms := by
  cases path <;> simp [ownVirtuals]

/-- Nothing but the id depends on the level as a whole. -/
theorem count_ownPlan_select (other : entry ≠ selectEntry table path "id") (nodes : List FieldNode) :
    (ownPlan table path nodes).select.count entry = (ownColumns table path nodes).count entry := by
  rw [ownPlan]
  split
  · rw [List.count_append, List.count_singleton, if_neg (by simpa using other.symm), Nat.add_zero]
  · rfl

theorem dotless_tableAlias {q : FieldPath} (free : ∀ name ∈ q, '.' ∉ name.toList) :
    '.' ∉ (tableAlias q).toList := by
  rw [tableAlias]
  fun_induction Text.join with
  | case1 => simp
  | case2 s => exact free s (by simp)
  | case3 s t rest ih =>
    obtain ⟨here, later⟩ := List.forall_mem_cons.mp free
    have separator : '.' ∉ aliasSeparator.toList := by decide
    simp [here, ih later, separator]

/-- An entry of a joined level is longer behind its dot than that of the table's own id. -/
theorem selectEntry_ne_id {q : FieldPath} (nonempty : q ≠ [])
    (free : ∀ name ∈ q ++ [column], '.' ∉ name.toList) :
    selectEntry joined q column ≠ selectEntry table [] "id" := by
  intro same
  obtain ⟨above, own⟩ := List.forall_mem_append.mp free
  have dotless := dotless_tableAlias above
  have plain : '.' ∉ column.toList := own column (List.mem_singleton_self _)
  obtain ⟨first, rest, rfl⟩ := List.exists_cons_of_ne_nil nonempty
  have chars := congrArg String.toList same
  simp only [selectEntry, columnAlias, aliasSeparator, String.toList_append, List.append_assoc] at chars
  rw [show ".".toList = ['.'] from rfl, List.singleton_append, List.singleton_append,
    List.append_cons_inj_of_notMem dotless (by simp [dotless, plain])] at chars
  have lengths := congrArg List.length chars.2.2
  simp at lengths
  omega

namespace Registry

/-- What selects the id of a query's own table. -/
theorem Due.own_id {r : Registry} (due : r.Due e ps x) (level : x.level = []) (column : x.columnName = "id") :
    (x = .column [] e "id" ∧ ["id"] ∈ ps ∧ (e.column? "id").isSome) ∨
    (x = .addedId [] e ∧ e.LoadsBehind [] ps ∧ ¬ (["id"] ∈ ps ∧ (e.column? "id").isSome)) := by
  cases due with
  | column reached asked isColumn =>
    cases level; cases column; cases reached
    exact .inl ⟨rfl, asked, isColumn⟩
  | @foreignKey s => exact absurd column (foreignKey_ne_id s.relation.name)
  | addedId reached loads missing =>
    cases level; cases reached
    exact .inr ⟨rfl, loads, missing⟩

theorem Due.eq_of_own_id {r : Registry} (first : r.Due e ps x) (second : r.Due e ps y)
    (level : x.level = []) (column : x.columnName = "id") (level' : y.level = [])
    (column' : y.columnName = "id") : x = y := by
  rcases first.own_id level column with ⟨rfl, present⟩ | ⟨rfl, _, missing⟩ <;>
    rcases second.own_id level' column' with ⟨rfl, present'⟩ | ⟨rfl, _, missing'⟩
  · rfl
  · exact absurd present missing'
  · exact absurd present' missing
  · rfl

variable {r : Registry}

theorem Query.own_id_of_entry (query : r.Query e (requested paths) nodes plan) (source : x ∈ r.sources e nodes)
    (same : x.entry = selectEntry e.table [] "id") : x.level = [] ∧ x.columnName = "id" := by
  have due := query.mem_sources.mp source
  have free := due.of_names (P := fun name => '.' ∉ name.toList) (by simp [foreignKey]) (by decide)
    fun p asked name member => not_mem_of_requested asked member
  by_cases level : x.level = []
  · have owner : x.owner = e := by
      have reached := due.reached
      rw [level] at reached
      exact (Option.some.inj reached).symm
    rw [Source.entry, level, owner, selectEntry_inj] at same
    exact ⟨level, same⟩
  · exact absurd same (selectEntry_ne_id level free)

theorem Query.mem_own_id (query : r.Query e (requested paths) nodes plan) :
    selectEntry e.table [] "id" ∈ plan.select ↔
      (["id"] ∈ requested paths ∧ (e.column? "id").isSome) ∨ e.LoadsBehind [] (requested paths) := by
  constructor
  · intro selected
    rw [query.select_eq] at selected
    obtain ⟨x, source, same⟩ := List.mem_map.mp selected
    obtain ⟨level, column⟩ := query.own_id_of_entry source same
    rcases (query.mem_sources.mp source).own_id level column with ⟨_, present⟩ | ⟨_, loads, _⟩
    · exact .inl present
    · exact .inr loads
  · intro needed
    by_cases present : ["id"] ∈ requested paths ∧ (e.column? "id").isSome
    · exact query.entry_mem (.column rfl present.1 present.2 fun s ends => absurd ends s.full_ne_nil)
    · exact query.entry_mem (.addedId rfl (needed.resolve_left present) present)

theorem Query.count_own_id (query : r.Query e (requested paths) nodes plan) :
    plan.select.count (selectEntry e.table [] "id") ≤ 1 := by
  have once : (plan.select.filter (· = selectEntry e.table [] "id")).Nodup := by
    rw [query.select_eq, List.filter_map]
    refine (query.nodup_sources.filter _).map_on fun x first y second _ => ?_
    obtain ⟨source, same⟩ := List.mem_filter.mp first
    obtain ⟨source', same'⟩ := List.mem_filter.mp second
    obtain ⟨level, column⟩ := query.own_id_of_entry source (of_decide_eq_true same)
    obtain ⟨level', column'⟩ := query.own_id_of_entry source' (of_decide_eq_true same')
    exact (query.mem_sources.mp source).eq_of_own_id (query.mem_sources.mp source') level column level' column'
  rw [← List.count_filter (p := (· = selectEntry e.table [] "id")) (by simp)]
  exact List.nodup_iff_count_le_one.mp once _

theorem Query.count_of_ne (query : r.Query e ps nodes plan) (other : entry ≠ selectEntry e.table [] "id") :
    plan.select.count entry = (ownColumns e.table [] nodes).count entry +
      ((r.visits e nodes).flatMap (Visit.select [])).count entry := by
  rw [query.select, List.count_append, count_ownPlan_select other]

theorem loadsBehind_append {e : Entity} :
    e.LoadsBehind q (ps ++ qs) ↔ e.LoadsBehind q ps ∨ e.LoadsBehind q qs := by
  simp only [Entity.LoadsBehind, List.mem_append]
  grind

theorem Query.combines (query : r.Query e (requested paths) ns p) (query' : r.Query e (requested others) ms q)
    (both : r.Query e (requested (paths ++ others)) (ns ++ ms) plan) : plan.Combines e.table p q := by
  have counts (entry) (other : entry ≠ selectEntry e.table [] "id") :
      plan.select.count entry = p.select.count entry + q.select.count entry := by
    rw [both.count_of_ne other, query.count_of_ne other, query'.count_of_ne other, ownColumns_append,
      visits_append, List.flatMap_append, List.count_append, List.count_append]
    omega
  constructor
  · rw [both.joins, query.joins, query'.joins, visits_append, List.filter_append, List.map_append]
  · have loaders := both.loaders
    rw [visits_append, List.filter_append] at loaders
    have unique : Relator.RightUnique (r.Loads []) := fun _ _ _ loads loads' => loads.eq loads'
    exact List.right_unique_forall₂' unique loaders (List.rel_append query.loaders query'.loaders)
  · rw [both.virtuals, query.virtuals, query'.virtuals, ownVirtuals_append]
  · intro entry
    by_cases own : entry = selectEntry e.table [] "id"
    · rw [own, both.mem_own_id, query.mem_own_id, query'.mem_own_id, requested_append, List.mem_append,
        loadsBehind_append]
      tauto
    · rw [← List.count_pos_iff, ← List.count_pos_iff, ← List.count_pos_iff, counts entry own]
      omega
  · exact counts
  · exact both.count_own_id

theorem exists_compilePaths_append_iff : (∃ plan, r.compilePaths e (paths ++ others) = .ok plan) ↔
    (∃ p, r.compilePaths e paths = .ok p) ∧ ∃ q, r.compilePaths e others = .ok q := by
  simp only [exists_compilePaths_iff, exists_resolvePaths_iff, requested_append, List.forall_mem_append]

/-- Groups of paths that begin apart compile together exactly if each compiles alone, and together they
give what they give alone. -/
theorem compilePaths_append (r : Registry) (e : Entity) {paths others : List String}
    (apart : StartApart (requested paths) (requested others)) :
    ((∃ plan, r.compilePaths e (paths ++ others) = .ok plan) ↔
      (∃ p, r.compilePaths e paths = .ok p) ∧ ∃ q, r.compilePaths e others = .ok q) ∧
    ∀ p q plan, r.compilePaths e paths = .ok p → r.compilePaths e others = .ok q →
      r.compilePaths e (paths ++ others) = .ok plan → plan.Combines e.table p q := by
  refine ⟨exists_compilePaths_append_iff, fun p q plan first second together => ?_⟩
  obtain ⟨ns, resolved, compiled⟩ := bind_eq_ok.mp first
  obtain ⟨ms, resolved', compiled'⟩ := bind_eq_ok.mp second
  have both := resolvePaths_append apart resolved resolved'
  rw [compilePaths, both, ok_bind] at together
  exact ((resolvePaths_ok resolved).2.query compiled).combines
    ((resolvePaths_ok resolved').2.query compiled') ((resolvePaths_ok both).2.query together)

end Registry

namespace Sample

/-- An entity with two relations that are left to loaders. -/
def forum : Entity :=
  { id := "Forum", table := "forums"
    fields := [.plain ⟨"id", .integer, false, none, none, none⟩,
      .relation ⟨"owner", "User", .belongsToOne none, false, none⟩,
      .relation ⟨"posts", "Post", .hasMany "forum_id", false, none⟩,
      .relation ⟨"guests", "User", .hasMany "forum_id", false, none⟩] }

end Sample

/-- Both groups bring a loader, and with it the id of the forum. -/
theorem Registry.compilePaths_append_sample : ∃ r p q plan,
    ofEntities [Sample.user, Sample.post, Sample.forum] = .ok r ∧
      StartApart (requested ["posts.title", "owner.name"]) (requested ["guests.name"]) ∧
      r.compilePaths Sample.forum ["posts.title", "owner.name"] = .ok p ∧
      r.compilePaths Sample.forum ["guests.name"] = .ok q ∧
      r.compilePaths Sample.forum (["posts.title", "owner.name"] ++ ["guests.name"]) = .ok plan ∧
      "forums.id" ∈ p.select ∧ "forums.id" ∈ q.select ∧ plan.Combines "forums" p q := by
  obtain ⟨r, p, registered, compiled, selected⟩ := exists_compiled (show
    Option.any (fun plan : QueryPlan => "forums.id" ∈ plan.select)
      (ofEntities [Sample.user, Sample.post, Sample.forum] >>=
        (·.compilePaths Sample.forum ["posts.title", "owner.name"])).toOption = true by decide +kernel)
  obtain ⟨r', q, registered', compiled', selected'⟩ := exists_compiled (show
    Option.any (fun plan : QueryPlan => "forums.id" ∈ plan.select)
      (ofEntities [Sample.user, Sample.post, Sample.forum] >>=
        (·.compilePaths Sample.forum ["guests.name"])).toOption = true by decide +kernel)
  obtain rfl : r' = r := Except.ok.inj (registered'.symm.trans registered)
  have apart : StartApart (requested ["posts.title", "owner.name"]) (requested ["guests.name"]) := by
    decide +kernel
  obtain ⟨succeeds, combines⟩ := compilePaths_append r' Sample.forum apart
  obtain ⟨plan, together⟩ := succeeds.mpr ⟨⟨p, compiled⟩, q, compiled'⟩
  exact ⟨r', p, q, plan, registered, apart, compiled, compiled', together, of_decide_eq_true selected,
    of_decide_eq_true selected', combines p q plan compiled compiled' together⟩

end FetchPlan
