import FetchPlan.Proofs.Selection
import FetchPlan.Proofs.Stepwise
import FetchPlan.Shape

/-! Shapes of requested paths. A shape fits the entity it was resolved on: every node stands
for a field of that entity, and below a relation stands a shape of the relation's target. Its
leaves are the paths asked for. -/
namespace FetchPlan

namespace Entity

theorem name_of_field? {e : Entity} (found : e.field? name = some f) : f.name = name := by
  simpa using List.find?_some found

theorem relation?_eq_some {e : Entity} :
    e.relation? name = some relation ↔ e.field? name = some (.relation relation) := by
  rw [relation?, Option.bind_eq_some_iff]
  constructor
  · rintro ⟨f, found, isRelation⟩
    cases f <;> simp_all [Field.relation?]
  · exact fun found => ⟨_, found, rfl⟩

theorem name_of_relation? {e : Entity} (found : e.relation? name = some relation) :
    relation.name = name :=
  name_of_field? (relation?_eq_some.mp found)

/-- The type of the column a path may end with: that of a plain field, or that of `uuid` where
no field has this name. -/
def column? (e : Entity) (name : String) : Option (ScalarKind × Bool × Option UInt32) :=
  match e.field? name with
  | some (.plain f) => some (f.scalar, f.nullable, f.length)
  | some _ => none
  | none => if name = "uuid" then some (.string, false, some 128) else none

theorem column?_relation {e : Entity} (declared : e.relation? name = some relation) :
    e.column? name = none := by
  rw [column?, relation?_eq_some.mp declared]

end Entity

def FieldNode.leaves : List FieldNode → List FieldPath
  | [] => []
  | .column name .. :: rest => [name] :: leaves rest
  | .virtual name :: rest => [name] :: leaves rest
  | .object relation _ children :: rest =>
    (leaves children).map (relation.name :: ·) ++ leaves rest
  | .array relation _ children :: rest =>
    (leaves children).map (relation.name :: ·) ++ leaves rest

theorem FieldNode.mem_leaves : p ∈ leaves nodes ↔ ∃ node ∈ nodes, p ∈ leaves [node] := by
  induction nodes with
  | nil => simp [leaves]
  | cons node rest ih => cases node <;> simp [leaves, ih]

namespace Registry

/-- The nodes of a shape are fields of the entity, no two of them the same one. -/
inductive Fits (r : Registry) : Entity → List FieldNode → Prop where
  | nil : Fits r e []
  | column : e.column? name = some (scalar, nullable, length) →
      name ∉ rest.map FieldNode.name → Fits r e rest →
      Fits r e (.column name scalar nullable length :: rest)
  | virtual : e.field? name = some (.virtual name) →
      name ∉ rest.map FieldNode.name → Fits r e rest → Fits r e (.virtual name :: rest)
  | object : e.relation? relation.name = some relation → relation.kind.isToOne = true →
      r.entities.get? relation.target = some t → children ≠ [] → Fits r t children →
      relation.name ∉ rest.map FieldNode.name → Fits r e rest →
      Fits r e (.object relation t.id children :: rest)
  | array : e.relation? relation.name = some relation → relation.kind.isToMany = true →
      r.entities.get? relation.target = some t → children ≠ [] → Fits r t children →
      relation.name ∉ rest.map FieldNode.name → Fits r e rest →
      Fits r e (.array relation t.id children :: rest)

theorem target_eq_ok {r : Registry} :
    r.target owner relation = .ok t ↔ r.entities.get? relation.target = some t := by
  unfold target
  split <;> simp_all [pure, Except.pure, throw, throwThe, MonadExceptOf.throw]

theorem target_eq_error {r : Registry} : r.target owner relation = .error problem ↔
    r.entities.get? relation.target = none ∧
      problem = .unresolvedRelation owner.id relation.name relation.target := by
  rw [target]
  cases r.entities.get? relation.target with
  | some t => simp [pure, Except.pure]
  | none => simp [throw, throwThe, MonadExceptOf.throw, eq_comm]

/-- What a resolved entry is: a column, a virtual field, or a relation with a resolved shape
of its target below it. -/
theorem resolveEntry_ok {r : Registry} {e : Entity}
    (resolved : r.resolveEntry e path ⟨name, terminal, children⟩ = .ok node) :
    (∃ scalar nullable length, e.column? name = some (scalar, nullable, length) ∧
      children = [] ∧ node = .column name scalar nullable length) ∨
    (e.field? name = some (.virtual name) ∧ children = [] ∧ node = .virtual name) ∨
    ∃ relation t nodes, e.relation? name = some relation ∧ terminal = false ∧ children ≠ [] ∧
      r.entities.get? relation.target = some t ∧
      r.resolveEntries t (path ++ [name]) children = .ok nodes ∧
      node = if relation.kind.isToOne then .object relation t.id nodes
        else .array relation t.id nodes := by
  rw [resolveEntry] at resolved
  cases found : e.field? name with
  | none =>
    simp only [found] at resolved
    obtain ⟨empty, resolved⟩ := unless_ok resolved
    split at resolved
    · rename_i isUuid
      cases resolved
      have column : e.column? name = some (.string, false, some 128) := by
        rw [Entity.column?, found]
        exact if_pos isUuid
      exact .inl ⟨_, _, _, column, List.isEmpty_iff.mp empty, by rw [isUuid]; rfl⟩
    · cases resolved
  | some f =>
    have named := Entity.name_of_field? found
    cases f with
    | plain f =>
      simp only [found] at resolved
      obtain ⟨empty, resolved⟩ := unless_ok resolved
      cases resolved
      subst named
      exact .inl ⟨_, _, _, by rw [Entity.column?, found], List.isEmpty_iff.mp empty, rfl⟩
    | virtual v =>
      simp only [found] at resolved
      obtain ⟨empty, resolved⟩ := unless_ok resolved
      cases resolved
      subst named
      exact .inr (.inl ⟨rfl, List.isEmpty_iff.mp empty, rfl⟩)
    | relation relation =>
      simp only [found] at resolved
      split at resolved
      · cases resolved
      · rename_i proper
        obtain ⟨t, registered, resolved⟩ := bind_eq_ok.mp resolved
        obtain ⟨nodes, below, resolved⟩ := bind_eq_ok.mp resolved
        simp only [Bool.or_eq_true, not_or, Bool.not_eq_true, List.isEmpty_eq_false_iff] at proper
        exact .inr (.inr ⟨relation, t, nodes, Entity.relation?_eq_some.mpr found, proper.1, proper.2,
          target_eq_ok.mp registered, below, (Except.ok.inj resolved).symm⟩)

theorem resolveEntry_column {r : Registry} {e : Entity}
    (column : e.column? name = some (scalar, nullable, length)) (path : FieldPath) (terminal : Bool) :
    r.resolveEntry e path ⟨name, terminal, []⟩ = .ok (.column name scalar nullable length) := by
  unfold Entity.column? at column
  rw [resolveEntry]
  split at column
  · rename_i f found
    cases column
    rw [found, ← Entity.name_of_field? found]
    rfl
  · contradiction
  · rename_i undeclared
    obtain ⟨isUuid, same⟩ := Option.ite_none_right_eq_some.mp column
    cases same
    rw [undeclared]
    simp [isUuid, FieldNode.uuid, pure, Except.pure]

theorem resolveEntry_virtual {r : Registry} {e : Entity} (virtual : e.field? name = some (.virtual name))
    (path : FieldPath) (terminal : Bool) :
    r.resolveEntry e path ⟨name, terminal, []⟩ = .ok (.virtual name) := by
  rw [resolveEntry, virtual]
  rfl

theorem resolveEntry_relation {r : Registry} {e : Entity} {children : List SelectionEntry}
    (declared : e.relation? name = some relation) (nonempty : children ≠ [])
    (registered : r.entities.get? relation.target = some t)
    (below : r.resolveEntries t (path ++ [name]) children = .ok nodes) :
    r.resolveEntry e path ⟨name, false, children⟩ =
      .ok (if relation.kind.isToOne then .object relation t.id nodes else .array relation t.id nodes) := by
  rw [resolveEntry, Entity.relation?_eq_some.mp declared]
  simp [nonempty, target_eq_ok.mpr registered, below, pure, Except.pure]

theorem resolveEntries_cons_ok {r : Registry} {e : Entity} {entries : List SelectionEntry} :
    r.resolveEntries e path (entry :: entries) = .ok nodes ↔
      ∃ node rest, r.resolveEntry e path entry = .ok node ∧
        r.resolveEntries e path entries = .ok rest ∧ nodes = node :: rest := by
  rw [resolveEntries, bind_eq_ok]
  simp only [bind_eq_ok, pure, Except.pure, Except.ok.injEq]
  grind

/-- Resolving keeps the names of a selection and the paths in it. -/
theorem resolveEntries_fits {r : Registry} (formed : Selection.WellFormed entries)
    (resolved : r.resolveEntries e path entries = .ok nodes) :
    r.Fits e nodes ∧ FieldNode.leaves nodes = Selection.fieldPaths entries ∧
      nodes.map FieldNode.name = entries.map SelectionEntry.name := by
  induction formed generalizing e path nodes with
  | nil =>
    cases resolved
    exact ⟨.nil, by simp [FieldNode.leaves, Selection.fieldPaths], rfl⟩
  | @cons entry rest proper formed fresh _ ihc ih =>
    obtain ⟨name, terminal, children⟩ := entry
    obtain ⟨node, others, first, remaining, rfl⟩ := resolveEntries_cons_ok.mp resolved
    obtain ⟨fits, leaves, names⟩ := ih remaining
    rw [← names] at fresh
    rcases resolveEntry_ok first with ⟨_, _, _, column, rfl, rfl⟩ | ⟨virtual, rfl, rfl⟩ |
      ⟨relation, t, inner, declared, rfl, nonempty, registered, below, rfl⟩
    · have ends : terminal = true := by simpa using proper
      exact ⟨.column column fresh fits, by simp [FieldNode.leaves, Selection.fieldPaths,
        SelectionEntry.fieldPaths, ends, leaves], by simp [FieldNode.name, names]⟩
    · have ends : terminal = true := by simpa using proper
      exact ⟨.virtual virtual fresh fits, by simp [FieldNode.leaves, Selection.fieldPaths,
        SelectionEntry.fieldPaths, ends, leaves], by simp [FieldNode.name, names]⟩
    · obtain ⟨innerFits, innerLeaves, innerNames⟩ := ihc below
      obtain rfl := Entity.name_of_relation? declared
      have inhabited : inner ≠ [] := by
        rintro rfl
        exact nonempty (List.map_eq_nil_iff.mp innerNames.symm)
      cases toOne : relation.kind.isToOne with
      | true => exact ⟨.object declared toOne registered inhabited innerFits fresh fits,
          by simp [FieldNode.leaves, Selection.fieldPaths, SelectionEntry.fieldPaths, innerLeaves, leaves],
          by simp [FieldNode.name, names]⟩
      | false => exact ⟨.array declared (by simp [RelationKind.isToMany, toOne]) registered inhabited
          innerFits fresh fits,
          by simp [FieldNode.leaves, Selection.fieldPaths, SelectionEntry.fieldPaths, innerLeaves, leaves],
          by simp [FieldNode.name, names]⟩

/-- Entries resolve to the same shape wherever the entity was reached. -/
theorem resolveEntries_elsewhere {r : Registry} (formed : Selection.WellFormed entries)
    (resolved : r.resolveEntries e path entries = .ok nodes) (elsewhere : FieldPath) :
    r.resolveEntries e elsewhere entries = .ok nodes := by
  induction formed generalizing e path elsewhere nodes with
  | nil => exact resolved
  | @cons entry rest _ _ _ _ ihc ih =>
    obtain ⟨name, terminal, children⟩ := entry
    obtain ⟨node, others, first, remaining, rfl⟩ := resolveEntries_cons_ok.mp resolved
    refine resolveEntries_cons_ok.mpr ⟨node, others, ?_, ih remaining elsewhere, rfl⟩
    rcases resolveEntry_ok first with ⟨_, _, _, column, rfl, rfl⟩ | ⟨virtual, rfl, rfl⟩ |
      ⟨relation, t, inner, declared, rfl, nonempty, registered, below, rfl⟩
    · exact resolveEntry_column column elsewhere terminal
    · exact resolveEntry_virtual virtual elsewhere terminal
    · exact resolveEntry_relation declared nonempty registered (ihc below (elsewhere ++ [name]))

/-- `nodes` is the shape of the paths `ps` on `e`. Where `e` itself was reached only matters for
the wording of errors. -/
def Shapes (r : Registry) (e : Entity) (ps : List FieldPath) (nodes : List FieldNode) : Prop :=
  ∃ path, r.resolveEntries e path (Selection.ofPaths ps) = .ok nodes

theorem resolvePaths_ok {r : Registry} (resolved : r.resolvePaths e paths = .ok nodes) :
    (∀ p ∈ requested paths, p.any Text.isBlankText = false) ∧
      r.Shapes e (requested paths) nodes := by
  obtain ⟨entries, parsed, resolved⟩ := bind_eq_ok.mp resolved
  obtain ⟨solid, rfl⟩ := Selection.parse_eq_ok_iff.mp parsed
  exact ⟨solid, [], resolved⟩

theorem Shapes.fits {r : Registry} (shapes : r.Shapes e ps nodes) : r.Fits e nodes := by
  obtain ⟨_, resolved⟩ := shapes
  exact (resolveEntries_fits (Selection.wellFormed_ofPaths ps) resolved).1

theorem Shapes.mem_leaves {r : Registry} (shapes : r.Shapes e ps nodes) :
    p ∈ FieldNode.leaves nodes ↔ p ∈ ps ∧ p ≠ [] := by
  obtain ⟨_, resolved⟩ := shapes
  rw [(resolveEntries_fits (Selection.wellFormed_ofPaths ps) resolved).2.1]
  exact Selection.mem_fieldPaths_ofPaths

theorem Shapes.names {r : Registry} (shapes : r.Shapes e ps nodes) :
    nodes.map FieldNode.name = distinct (ps.filterMap List.head?) := by
  obtain ⟨_, resolved⟩ := shapes
  rw [(resolveEntries_fits (Selection.wellFormed_ofPaths ps) resolved).2.2]
  exact Selection.names_ofPaths ps

theorem mem_of_resolveEntries {r : Registry} {entries : List SelectionEntry}
    (resolved : r.resolveEntries e path entries = .ok nodes) (member : node ∈ nodes) :
    ∃ entry ∈ entries, r.resolveEntry e path entry = .ok node := by
  induction entries generalizing nodes with
  | nil =>
    cases resolved
    contradiction
  | cons entry entries ih =>
    obtain ⟨first, rest, this, remaining, rfl⟩ := resolveEntries_cons_ok.mp resolved
    rcases List.mem_cons.mp member with rfl | member
    · exact ⟨entry, by simp, this⟩
    · obtain ⟨found, among, resolved⟩ := ih remaining member
      exact ⟨found, by simp [among], resolved⟩

/-- Below a relation stands the shape of what is left of the paths through it. -/
theorem Shapes.under {r : Registry} (shapes : r.Shapes e ps nodes)
    (member : .object relation targetId children ∈ nodes ∨ .array relation targetId children ∈ nodes) :
    ∃ t, r.entities.get? relation.target = some t ∧
      r.Shapes t (below [relation.name] ps) children := by
  obtain ⟨path, resolved⟩ := shapes
  obtain ⟨node, among, eq⟩ : ∃ node ∈ nodes,
      node = .object relation targetId children ∨ node = .array relation targetId children := by
    rcases member with member | member
    · exact ⟨_, member, .inl rfl⟩
    · exact ⟨_, member, .inr rfl⟩
  obtain ⟨entry, listed, this⟩ := mem_of_resolveEntries resolved among
  obtain ⟨name, _, _, rfl⟩ := Selection.exists_path_of_mem listed
  rcases resolveEntry_ok this with ⟨_, _, _, _, _, rfl⟩ | ⟨_, _, rfl⟩ |
    ⟨relation', t, inner, declared, _, _, registered, inside, rfl⟩
  · simp at eq
  · simp at eq
  · obtain ⟨rfl, rfl⟩ : relation' = relation ∧ inner = children := by
      split at eq <;> simp_all
    rw [Entity.name_of_relation? declared]
    exact ⟨t, registered, _, inside⟩

theorem Shapes.exists_rest {r : Registry} (shapes : r.Shapes e ps nodes) (member : node ∈ nodes) :
    ∃ rest, node.name :: rest ∈ ps := by
  apply mem_distinct_heads.mp
  rw [← shapes.names]
  exact List.mem_map_of_mem member

theorem Shapes.exists_node {r : Registry} (shapes : r.Shapes e ps nodes) (member : name :: p ∈ ps) :
    ∃ node ∈ nodes, node.name = name := by
  apply List.mem_map.mp
  rw [shapes.names]
  exact mem_distinct_heads.mpr ⟨p, member⟩

theorem Fits.of_mem {r : Registry} (fits : r.Fits e nodes) (member : node ∈ nodes) :
    (∃ name scalar nullable length, e.column? name = some (scalar, nullable, length) ∧
      node = .column name scalar nullable length) ∨
    (∃ name, e.field? name = some (.virtual name) ∧ node = .virtual name) ∨
    ∃ relation t children, e.relation? relation.name = some relation ∧
      r.entities.get? relation.target = some t ∧ children ≠ [] ∧
      (relation.kind.isToOne = true ∧ node = .object relation t.id children ∨
        relation.kind.isToMany = true ∧ node = .array relation t.id children) := by
  induction fits with
  | nil => contradiction
  | column column _ _ ih =>
    rcases List.mem_cons.mp member with rfl | member
    · exact .inl ⟨_, _, _, _, column, rfl⟩
    · exact ih member
  | virtual virtual _ _ ih =>
    rcases List.mem_cons.mp member with rfl | member
    · exact .inr (.inl ⟨_, virtual, rfl⟩)
    · exact ih member
  | object declared toOne registered nonempty _ _ _ _ ih =>
    rcases List.mem_cons.mp member with rfl | member
    · exact .inr (.inr ⟨_, _, _, declared, registered, nonempty, .inl ⟨toOne, rfl⟩⟩)
    · exact ih member
  | array declared toMany registered nonempty _ _ _ _ ih =>
    rcases List.mem_cons.mp member with rfl | member
    · exact .inr (.inr ⟨_, _, _, declared, registered, nonempty, .inr ⟨toMany, rfl⟩⟩)
    · exact ih member

theorem Fits.of_mem_object {r : Registry} (fits : r.Fits e nodes)
    (member : .object relation targetId children ∈ nodes) :
    e.relation? relation.name = some relation ∧ relation.kind.isToOne = true ∧ children ≠ [] := by
  rcases fits.of_mem member with ⟨_, _, _, _, _, eq⟩ | ⟨_, _, eq⟩ |
    ⟨_, _, _, declared, _, nonempty, ⟨toOne, eq⟩ | ⟨_, eq⟩⟩
  all_goals cases eq
  exact ⟨declared, toOne, nonempty⟩

theorem Fits.of_mem_array {r : Registry} (fits : r.Fits e nodes)
    (member : .array relation targetId children ∈ nodes) :
    e.relation? relation.name = some relation ∧ relation.kind.isToMany = true ∧ children ≠ [] := by
  rcases fits.of_mem member with ⟨_, _, _, _, _, eq⟩ | ⟨_, _, eq⟩ |
    ⟨_, _, _, declared, _, nonempty, ⟨_, eq⟩ | ⟨toMany, eq⟩⟩
  all_goals cases eq
  exact ⟨declared, toMany, nonempty⟩

theorem Fits.relation_of_mem {r : Registry} (fits : r.Fits e nodes) (member : node ∈ nodes)
    (declared : e.relation? node.name = some relation) :
    ∃ t children, r.entities.get? relation.target = some t ∧
      (relation.kind.isToOne = true ∧ node = .object relation t.id children ∨
        relation.kind.isToMany = true ∧ node = .array relation t.id children) := by
  rcases fits.of_mem member with ⟨_, _, _, _, column, rfl⟩ | ⟨_, virtual, rfl⟩ |
    ⟨relation', t, children, known, registered, _, stands⟩
  · cases column.symm.trans (Entity.column?_relation declared)
  · cases virtual.symm.trans (Entity.relation?_eq_some.mp declared)
  · have same : node.name = relation'.name := by
      rcases stands with ⟨_, rfl⟩ | ⟨_, rfl⟩ <;> rfl
    rw [same, known] at declared
    cases declared
    exact ⟨t, children, registered, stands⟩

end Registry

namespace FieldNode

def columnNames (nodes : List FieldNode) : List String :=
  nodes.filterMap fun
    | .column name .. => some name
    | _ => none

theorem columnNames_sublist (nodes : List FieldNode) : (columnNames nodes).Sublist (nodes.map name) := by
  induction nodes with
  | nil => exact .slnil
  | cons node rest ih =>
    cases node with
    | column => exact ih.cons_cons _
    | virtual | object | array => exact ih.cons _

theorem idOnly_iff : idOnly nodes = true ↔
    ∃ scalar nullable length, nodes = [.column "id" scalar nullable length] := by
  constructor
  · intro only
    unfold idOnly at only
    split at only
    · exact ⟨_, _, _, by rw [of_decide_eq_true only]⟩
    · contradiction
  · rintro ⟨_, _, _, rfl⟩
    rfl

end FieldNode

namespace Registry

theorem Shapes.nodup_names {r : Registry} (shapes : r.Shapes e ps nodes) :
    (nodes.map FieldNode.name).Nodup :=
  shapes.names ▸ nodup_distinct _

/-- The columns of a shape's own level are the requested paths of one segment that names a
column. -/
theorem Shapes.mem_columnNames {r : Registry} (shapes : r.Shapes e ps nodes) :
    c ∈ FieldNode.columnNames nodes ↔ [c] ∈ ps ∧ (e.column? c).isSome := by
  rw [FieldNode.columnNames, List.mem_filterMap]
  constructor
  · rintro ⟨node, member, isColumn⟩
    rcases shapes.fits.of_mem member with ⟨name, _, _, _, column, rfl⟩ | ⟨_, _, rfl⟩ |
      ⟨_, _, _, _, _, _, ⟨_, rfl⟩ | ⟨_, rfl⟩⟩
    · cases isColumn
      have leaf : [c] ∈ FieldNode.leaves nodes := FieldNode.mem_leaves.mpr ⟨_, member, by simp [FieldNode.leaves]⟩
      exact ⟨(shapes.mem_leaves.mp leaf).1, by rw [column]; rfl⟩
    all_goals cases isColumn
  · rintro ⟨asked, column⟩
    obtain ⟨node, member, rfl⟩ := shapes.exists_node asked
    rcases shapes.fits.of_mem member with ⟨_, _, _, _, _, rfl⟩ | ⟨_, virtual, rfl⟩ |
      ⟨_, _, _, declared, _, _, ⟨_, rfl⟩ | ⟨_, rfl⟩⟩
    · exact ⟨_, member, rfl⟩
    · simp [FieldNode.name, Entity.column?, virtual] at column
    · simp [FieldNode.name, Entity.column?_relation declared] at column
    · simp [FieldNode.name, Entity.column?_relation declared] at column

/-- A shape is the id alone exactly if every path asked for is the id, and the id is a column. -/
theorem Shapes.idOnly_iff {r : Registry} (shapes : r.Shapes e ps nodes) (nonempty : nodes ≠ []) :
    FieldNode.idOnly nodes = true ↔
      (e.column? "id").isSome ∧ ∀ p ∈ ps, p ≠ [] → p = ["id"] := by
  rw [FieldNode.idOnly_iff]
  constructor
  · rintro ⟨scalar, nullable, length, rfl⟩
    have column : "id" ∈ FieldNode.columnNames [.column "id" scalar nullable length] := by
      simp [FieldNode.columnNames]
    refine ⟨(shapes.mem_columnNames.mp column).2, fun p asked proper => ?_⟩
    have leaf := shapes.mem_leaves.mpr ⟨asked, proper⟩
    simpa [FieldNode.leaves] using leaf
  · rintro ⟨column, only⟩
    have named (node) (member : node ∈ nodes) : node.name = "id" := by
      obtain ⟨rest, asked⟩ := shapes.exists_rest member
      exact (List.cons.inj (only _ asked (by simp))).1
    have unique := shapes.nodup_names
    match nodes, nonempty with
    | first :: second :: rest, _ =>
      have same : first.name = second.name := (named first (by simp)).trans (named second (by simp)).symm
      simp [same] at unique
    | [node], _ =>
      obtain ⟨rest, asked⟩ := shapes.exists_rest (List.mem_singleton_self node)
      have isId := only _ asked (by simp)
      have held : "id" ∈ FieldNode.columnNames [node] :=
        shapes.mem_columnNames.mpr ⟨isId ▸ asked, column⟩
      cases node with
      | column name scalar nullable length =>
        obtain rfl : "id" = name := by simpa [FieldNode.columnNames] using held
        exact ⟨scalar, nullable, length, rfl⟩
      | virtual | object | array => simp [FieldNode.columnNames] at held

end Registry
end FetchPlan
