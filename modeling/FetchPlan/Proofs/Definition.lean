import FetchPlan.Definition.Reader
import FetchPlan.Proofs.Json.RoundTrip

/-! Definitions read from what was written for them. Members that were left out have their defaults
again, and every tag leads back to the case it was written for. -/
namespace FetchPlan

namespace Value

variable {test test' : Value → Bool}

mutual

theorem allLeaves_mono (weaker : ∀ v, test v = true → test' v = true) :
    ∀ v : Value, v.allLeaves test = true → v.allLeaves test' = true
  | .list items => by
    simpa only [allLeaves] using allLeavesOfItems_mono weaker items
  | .table members => by
    simpa only [allLeaves] using allLeavesOfMembers_mono weaker members
  | .null | .bool _ | .integer _ | .real _ | .text _ | .unreadable => by
    simpa only [allLeaves] using weaker _

theorem allLeavesOfItems_mono (weaker : ∀ v, test v = true → test' v = true) :
    ∀ items, allLeavesOfItems test items = true → allLeavesOfItems test' items = true
  | [] => fun _ => rfl
  | v :: rest => by
    simp only [allLeavesOfItems, Bool.and_eq_true]
    exact And.imp (allLeaves_mono weaker v) (allLeavesOfItems_mono weaker rest)

theorem allLeavesOfMembers_mono (weaker : ∀ v, test v = true → test' v = true) :
    ∀ members, allLeavesOfMembers test members = true → allLeavesOfMembers test' members = true
  | [] => fun _ => rfl
  | (_, v) :: rest => by
    simp only [allLeavesOfMembers, Bool.and_eq_true]
    exact And.imp (allLeaves_mono weaker v) (allLeavesOfMembers_mono weaker rest)

end

theorem isSound_of_isPlain {v : Value} (plain : v.isPlain = true) : v.isSound = true := by
  refine allLeaves_mono (fun v plain => ?_) v plain
  cases v with
  | real | unreadable => contradiction
  | _ => exact plain

@[simp] theorem depth_list (items : List Value) (n : Nat) :
    (list items).depth ≤ n + 1 ↔ ∀ v ∈ items, v.depth ≤ n := by
  have all : depthOfAll items ≤ n ↔ ∀ v ∈ items, v.depth ≤ n := by
    induction items with
    | nil => simp [depthOfAll]
    | cons v rest ih => rw [depthOfAll, Nat.max_le, ih, List.forall_mem_cons]
  rw [depth, Nat.add_le_add_iff_right, all]

@[simp] theorem depth_table (members : List (String × Value)) (n : Nat) :
    (table members).depth ≤ n + 1 ↔ ∀ m ∈ members, m.2.depth ≤ n := by
  have all : depthOfMembers members ≤ n ↔ ∀ m ∈ members, m.2.depth ≤ n := by
    induction members with
    | nil => simp [depthOfMembers]
    | cons m rest ih => rw [depthOfMembers, Nat.max_le, ih, List.forall_mem_cons]
  rw [depth, Nat.add_le_add_iff_right, all]

/-- Plain, and not deeper than a list of texts. -/
structure Shallow (v : Value) : Prop where
  plain : v.isPlain = true
  depth : v.depth ≤ 1

theorem shallow_text (s : String) : (text s).Shallow := ⟨rfl, Nat.zero_le 1⟩

theorem shallow_bool (b : Bool) : (bool b).Shallow := ⟨rfl, Nat.zero_le 1⟩

theorem shallow_ofTexts (l : List String) : (ofTexts l).Shallow where
  plain := isPlain_ofTexts l
  depth := by
    refine (depth_list _ 0).mpr fun v member => ?_
    obtain ⟨s, _, rfl⟩ := List.mem_map.mp member
    exact Nat.le_refl 0

theorem shallow_length (n : UInt32) : (integer n.toNat).Shallow where
  plain := by
    have small := n.toNat_lt
    simp only [isPlain, allLeaves, isPlainLeaf, UInt64.size, Bool.and_eq_true, decide_eq_true_eq,
      Int.ofNat_eq_natCast]
    omega
  depth := Nat.zero_le 1

theorem lookup_member (name key : String) (v : Value) (rest : List (String × Value)) :
    ((key, v) :: rest).lookup name = if name = key then some v else rest.lookup name := by
  by_cases same : name = key
  · simp [same]
  · simp [List.lookup_cons, beq_false_of_ne same, same]

theorem mem_optionalMember {write : α → Value} :
    m ∈ optionalMember key write o ↔ ∃ a, o = some a ∧ m = (key, write a) := by
  cases o <;> simp [optionalMember]

theorem keys_optionalMember (key : String) (write : α → Value) (o : Option α) :
    ((optionalMember key write o).map (·.1)).Sublist [key] := by
  cases o with
  | none => exact List.nil_sublist _
  | some a => exact .refl _

@[simp] theorem lookup_optionalMember (name key : String) (write : α → Value) (o : Option α) :
    (optionalMember key write o).lookup name = if name = key then o.map write else none := by
  cases o <;> simp [optionalMember, lookup_member]

end Value

namespace Record

variable {r : Record} {name : String}

theorem lookup_filter {names : List String} (known : name ∈ names) (members : List (String × Value)) :
    (members.filter (·.1 ∈ names)).lookup name = members.lookup name := by
  induction members with
  | nil => rfl
  | cons m rest ih =>
    obtain ⟨key, v⟩ := m
    rw [Value.lookup_member]
    by_cases same : name = key
    · rw [List.filter_cons_of_pos (by simpa [← same] using known), Value.lookup_member, if_pos same, if_pos same]
    · rw [List.filter_cons, if_neg same]
      split
      · rw [Value.lookup_member, if_neg same, ih]
      · exact ih

/-- From a table without repeated keys, a record takes the members it knows as they are. -/
theorem exists_ofMembers? {members : List (String × Value)} (distinct : (members.map (·.1)).Nodup)
    (names : List String) :
    ∃ r, ofMembers? names members = some r ∧ ∀ name ∈ names, r.lookup name = members.lookup name := by
  have kept : ((members.filter (·.1 ∈ names)).map (·.1)).Nodup := distinct.sublist (List.filter_sublist.map _)
  exact ⟨_, if_pos kept, fun name known => lookup_filter known members⟩

theorem required_of_lookup {read : Value → Option α} (found : r.lookup name = some v) :
    r.required name read = read v := by
  rw [required, found, Option.bind_some]

theorem withDefault_of_lookup {read : Value → Option α} (found : r.lookup name = some v) (default : α) :
    r.withDefault name default read = read v := by
  rw [withDefault, found]

/-- A member that was left out counts as nothing, and one that was not is read. -/
theorem optional_of_lookup {write : α → Value} {read : Value → Option α}
    (found : r.lookup name = o.map write) (reads : ∀ a, read (write a) = some a)
    (given : ∀ a, write a ≠ .null) : r.optional name read = some o := by
  cases o with
  | none =>
    rw [optional, found]
    rfl
  | some a =>
    rw [optional, found, Option.map_some]
    split
    · contradiction
    · rename_i null
      exact absurd (Option.some.inj null) (given a)
    · rename_i v _ same
      rw [← Option.some.inj same, reads, Option.map_some]

end Record

theorem Uniqueness.ofValue?_value (u : Uniqueness) : ofValue? u.value = some u := by
  cases u with
  | flag on => rfl
  | composite partners => exact congrArg (Option.map composite) (Value.texts?_ofTexts partners)

theorem Uniqueness.value_ne_null (u : Uniqueness) : u.value ≠ .null := by
  cases u <;> exact nofun

theorem Uniqueness.shallow_value (u : Uniqueness) : u.value.Shallow := by
  cases u with
  | flag on => exact Value.shallow_bool on
  | composite partners => exact Value.shallow_ofTexts partners

theorem ScalarKind.ofValue?_name (s : ScalarKind) : ofValue? (.text s.name) = some s := by
  cases s <;> rfl

theorem lengthOfValue?_toNat (n : UInt32) : lengthOfValue? (.integer n.toNat) = some n := by
  have small : (n.toNat : Int) < UInt32.size := Int.ofNat_lt.mpr n.toNat_lt
  rw [lengthOfValue?, Value.natBelow?, if_pos ⟨Int.natCast_nonneg _, small⟩]
  simp

namespace PlainField

theorem keys_members (f : PlainField) : (f.members.map (·.1)).Sublist names := by
  have optional := ((Value.keys_optionalMember "length" (fun n : UInt32 => .integer n.toNat) f.length).append
    (Value.keys_optionalMember "enum_id" .text f.enumId)).append
    (Value.keys_optionalMember "unique" Uniqueness.value f.unique)
  simpa [members, names] using optional

theorem shallow_members (f : PlainField) : ∀ m ∈ f.members, m.2.Shallow := by
  simp only [members, List.mem_append, List.mem_cons, List.not_mem_nil, or_false, Value.mem_optionalMember]
  rintro m ((((rfl | rfl | rfl) | ⟨n, _, rfl⟩) | ⟨id, _, rfl⟩) | ⟨u, _, rfl⟩)
  · exact Value.shallow_text _
  · exact Value.shallow_text _
  · exact Value.shallow_bool _
  · exact Value.shallow_length n
  · exact Value.shallow_text id
  · exact u.shallow_value

theorem ofRecord?_members (f : PlainField) {r : Record}
    (known : ∀ name ∈ names, r.lookup name = f.members.lookup name) : ofRecord? r = some f := by
  have name : r.lookup "name" = some (.text f.name) := by
    rw [known _ (by decide)]
    rfl
  have scalar : r.lookup "type" = some (.text f.scalar.name) := by
    rw [known _ (by decide)]
    rfl
  have nullable : r.lookup "nullable" = some (.bool f.nullable) := by
    rw [known _ (by decide)]
    rfl
  have length : r.lookup "length" = f.length.map fun n => .integer n.toNat := by
    rw [known _ (by decide)]
    simp [members, List.lookup_append, Value.lookup_member]
  have enumId : r.lookup "enum_id" = f.enumId.map .text := by
    rw [known _ (by decide)]
    simp [members, List.lookup_append, Value.lookup_member]
  have unique : r.lookup "unique" = f.unique.map Uniqueness.value := by
    rw [known _ (by decide)]
    simp [members, List.lookup_append, Value.lookup_member]
  rw [ofRecord?, Record.required_of_lookup name, Record.required_of_lookup scalar,
    Record.withDefault_of_lookup nullable, Record.optional_of_lookup length lengthOfValue?_toNat nofun,
    Record.optional_of_lookup enumId (fun _ => rfl) nofun,
    Record.optional_of_lookup unique Uniqueness.ofValue?_value Uniqueness.value_ne_null,
    ScalarKind.ofValue?_name]
  rfl

end PlainField

namespace RelationKind

/-- All members that kinds have. -/
def allNames : List String := ["relation", "has_join_column", "custom_join", "join_column", "join_table"]

theorem keys_members (k : RelationKind) : (k.members.map (·.1)).Sublist allNames := by
  have optional (join : Option String) := Value.keys_optionalMember "custom_join" .text join
  cases k with
  | belongsToOne join =>
    have own : ["custom_join"].Sublist ["has_join_column", "custom_join", "join_column", "join_table"] := by decide
    exact ((optional join).trans own).cons_cons _
  | oneToOne hasJoinColumn join =>
    have own : ["custom_join"].Sublist ["custom_join", "join_column", "join_table"] := by decide
    exact (((optional join).trans own).cons_cons _).cons_cons _
  | hasMany column => exact (by decide : ["relation", "join_column"].Sublist allNames)
  | manyToMany table => exact (by decide : ["relation", "join_table"].Sublist allNames)

theorem shallow_members (k : RelationKind) : ∀ m ∈ k.members, m.2.Shallow := by
  cases k with
  | belongsToOne join =>
    simp only [members, List.mem_cons, Value.mem_optionalMember]
    rintro m (rfl | ⟨text, _, rfl⟩) <;> exact Value.shallow_text _
  | oneToOne hasJoinColumn join =>
    simp only [members, List.mem_cons, Value.mem_optionalMember]
    rintro m (rfl | rfl | ⟨text, _, rfl⟩)
    · exact Value.shallow_text _
    · exact Value.shallow_bool _
    · exact Value.shallow_text _
  | hasMany column | manyToMany table =>
    simp only [members, List.mem_cons, List.not_mem_nil, or_false]
    rintro m (rfl | rfl) <;> exact Value.shallow_text _

/-- The members a kind has of its own. -/
def own : RelationKind → List String
  | .belongsToOne _ => ["custom_join"]
  | .oneToOne .. => ["has_join_column", "custom_join"]
  | .hasMany _ => ["join_column"]
  | .manyToMany _ => ["join_table"]

theorem shape?_name (numbered : Bool) (k : RelationKind) : shape? numbered (.text k.name) = some (k.name, k.own) := by
  cases k <;> rfl

theorem ofRecord?_members (k : RelationKind) {r : Record}
    (known : ∀ name ∈ k.own, r.lookup name = k.members.lookup name) : ofRecord? k.name r = some k := by
  have written (s : String) : Value.text s ≠ .null := by simp
  cases k with
  | belongsToOne join =>
    have joined : r.lookup "custom_join" = join.map .text := by
      rw [known _ (by simp [own])]
      simp [members, Value.lookup_member]
    rw [name, ofRecord?, Record.optional_of_lookup joined (fun _ => rfl) written]
    rfl
  | oneToOne hasJoinColumn join =>
    have owning : r.lookup "has_join_column" = some (.bool hasJoinColumn) := by
      rw [known _ (by simp [own])]
      simp [members, Value.lookup_member]
    have joined : r.lookup "custom_join" = join.map .text := by
      rw [known _ (by simp [own])]
      simp [members, Value.lookup_member]
    rw [name, ofRecord?, Record.withDefault_of_lookup owning, Record.optional_of_lookup joined (fun _ => rfl) written]
    rfl
  | hasMany column =>
    have joined : r.lookup "join_column" = some (.text column) := by
      rw [known _ (by simp [own])]
      simp [members, Value.lookup_member]
    rw [name, ofRecord?, Record.required_of_lookup joined]
    rfl
  | manyToMany table =>
    have joined : r.lookup "join_table" = some (.text table) := by
      rw [known _ (by simp [own])]
      simp [members, Value.lookup_member]
    rw [name, ofRecord?, Record.required_of_lookup joined]
    rfl

/-- A kind is read from its members, wherever they stand among others. -/
theorem ofMembers?_of_lookup (numbered : Bool) (k : RelationKind) {members : List (String × Value)}
    (distinct : (members.map (·.1)).Nodup)
    (known : ∀ name ∈ allNames, members.lookup name = k.members.lookup name) :
    ofMembers? numbered members = some k := by
  obtain ⟨tag, tagged, kept⟩ := Record.exists_ofMembers? distinct ["relation"]
  obtain ⟨r, read, same⟩ := Record.exists_ofMembers? distinct k.own
  have relation : tag.lookup "relation" = some (.text k.name) := by
    rw [kept _ (by decide), known _ (by decide)]
    exact (Value.lookup_member ..).trans (if_pos rfl)
  have own_known : k.own ⊆ allNames := by
    cases k <;> simp [own, allNames]
  have record := k.ofRecord?_members fun name own => (same name own).trans (known name (own_known own))
  simp only [ofMembers?, tagged, Option.bind_eq_bind, Option.bind_some, Record.required_of_lookup relation,
    shape?_name, read, record]

end RelationKind

namespace RelationField

def allNames : List String := ["name", "with"] ++ (RelationKind.allNames ++ ["nullable", "unique"])

theorem keys_members (f : RelationField) : (f.members.map (·.1)).Sublist allNames := by
  have behind := f.kind.keys_members.append
    ((Value.keys_optionalMember "unique" Uniqueness.value f.unique).cons_cons "nullable")
  simpa [members, allNames] using behind

theorem shallow_members (f : RelationField) : ∀ m ∈ f.members, m.2.Shallow := by
  simp only [members, List.mem_append, List.mem_cons, List.not_mem_nil, or_false, Value.mem_optionalMember]
  rintro m ((((rfl | rfl) | kind) | rfl) | ⟨u, _, rfl⟩)
  · exact Value.shallow_text _
  · exact Value.shallow_text _
  · exact f.kind.shallow_members m kind
  · exact Value.shallow_bool _
  · exact u.shallow_value

/-- The kind has no member named as one of the relation's. -/
theorem lookup_kind_eq_none (k : RelationKind) {name : String} (apart : name ∉ RelationKind.allNames) :
    k.members.lookup name = none := by
  rw [List.lookup_eq_none_iff]
  intro m member
  have among : m.1 ∈ RelationKind.allNames := k.keys_members.subset (List.mem_map_of_mem member)
  exact bne_iff_ne.mpr (ne_of_mem_of_not_mem among apart).symm

/-- The kind's members are found among those of the relation. -/
theorem lookup_members_kind (f : RelationField) {name : String} (among : name ∈ RelationKind.allNames) :
    f.members.lookup name = f.kind.members.lookup name := by
  have apart : name ≠ "name" ∧ name ≠ "with" ∧ name ≠ "nullable" ∧ name ≠ "unique" := by
    refine ⟨?_, ?_, ?_, ?_⟩ <;> rintro rfl <;> exact absurd among (by decide)
  simp [members, List.lookup_append, Value.lookup_member, apart]

theorem ofMembers?_of_lookup (numbered : Bool) (f : RelationField) {all : List (String × Value)}
    (distinct : (all.map (·.1)).Nodup) (known : ∀ name ∈ allNames, all.lookup name = f.members.lookup name) :
    ofMembers? numbered all = some f := by
  obtain ⟨r, read, same⟩ := Record.exists_ofMembers? distinct names
  have name : r.lookup "name" = some (.text f.name) := by
    rw [same _ (by decide), known _ (by decide)]
    rfl
  have target : r.lookup "with" = some (.text f.target) := by
    rw [same _ (by decide), known _ (by decide)]
    rfl
  have nullable : r.lookup "nullable" = some (.bool f.nullable) := by
    have none_before : f.kind.members.lookup "nullable" = none := lookup_kind_eq_none f.kind (by decide)
    rw [same _ (by decide), known _ (by decide)]
    simp [members, List.lookup_append, Value.lookup_member, none_before]
  have unique : r.lookup "unique" = f.unique.map Uniqueness.value := by
    have none_before : f.kind.members.lookup "unique" = none := lookup_kind_eq_none f.kind (by decide)
    rw [same _ (by decide), known _ (by decide)]
    simp [members, List.lookup_append, Value.lookup_member, none_before]
  have kind : RelationKind.ofMembers? numbered all = some f.kind := by
    refine f.kind.ofMembers?_of_lookup numbered distinct fun name among => ?_
    rw [known name (by simp [allNames, among]), lookup_members_kind f among]
  rw [ofMembers?, read, Option.bind_eq_bind, Option.bind_some, Record.required_of_lookup name,
    Record.required_of_lookup target, Record.withDefault_of_lookup nullable,
    Record.optional_of_lookup unique Uniqueness.ofValue?_value Uniqueness.value_ne_null, kind]
  rfl

end RelationField

namespace Field

/-- The members of the table that a field is written as. -/
def members : Field → List (String × Value)
  | .plain f => ("kind", .text "plain") :: f.members
  | .virtual name => [("kind", .text "virtual"), ("name", .text name)]
  | .relation f => ("kind", .text "relation") :: f.members

theorem value_eq (f : Field) : f.value = .table f.members := by
  cases f <;> rfl

theorem nodup_keys_members (f : Field) : (f.members.map (·.1)).Nodup := by
  cases f with
  | plain f => exact List.Nodup.sublist (f.keys_members.cons_cons "kind") (by decide)
  | virtual name => exact (by decide : ["kind", "name"].Nodup)
  | relation f => exact List.Nodup.sublist (f.keys_members.cons_cons "kind") (by decide)

theorem shallow_members (f : Field) : ∀ m ∈ f.members, m.2.Shallow := by
  cases f with
  | plain f => exact List.forall_mem_cons.mpr ⟨Value.shallow_text _, f.shallow_members⟩
  | virtual name => simp [members, Value.shallow_text]
  | relation f => exact List.forall_mem_cons.mpr ⟨Value.shallow_text _, f.shallow_members⟩

@[simp] theorem isPlain_value (f : Field) : f.value.isPlain = true := by
  rw [value_eq, Value.isPlain_table]
  exact fun m member => (f.shallow_members m member).plain

/-- No field is nested too deep to be kept until its kind is known. -/
theorem admits_value (f : Field) : DefinitionFormat.json.admits f.value = true := by
  have shallow : f.value.depth ≤ 2 := by
    rw [value_eq, Value.depth_table]
    exact fun m member => (f.shallow_members m member).depth
  have within : f.value.depth ≤ 123 := by omega
  simp [DefinitionFormat.admits, DefinitionFormat.json, Value.isSound_of_isPlain f.isPlain_value, within]

/-- Behind the kind, a field's members are found as they were written. -/
theorem lookup_behind {name : String} (other : name ≠ "kind") (kind : String) (rest : List (String × Value)) :
    (("kind", .text kind) :: rest).lookup name = rest.lookup name := by
  rw [Value.lookup_member, if_neg other]

theorem ofMembers?_members (numbered : Bool) (f : Field) : ofMembers? numbered f.members = some f := by
  obtain ⟨tag, tagged, kept⟩ := Record.exists_ofMembers? f.nodup_keys_members ["kind"]
  have kind := kept "kind" (by decide)
  cases f with
  | plain f =>
    obtain ⟨r, read, same⟩ := Record.exists_ofMembers? (Field.plain f).nodup_keys_members PlainField.names
    have field : PlainField.ofRecord? r = some f := f.ofRecord?_members fun name known =>
      (same name known).trans (lookup_behind (ne_of_mem_of_not_mem known (by decide)) _ _)
    have plain : tag.required "kind" Value.text? = some "plain" := Record.required_of_lookup kind
    simp only [ofMembers?, tagged, plain, read, field, Option.bind_eq_bind, Option.bind_some, Option.map_some]
  | virtual name =>
    obtain ⟨r, read, same⟩ := Record.exists_ofMembers? (Field.virtual name).nodup_keys_members ["name"]
    have field : r.required "name" Value.text? = some name := Record.required_of_lookup (same "name" (by decide))
    have virtual : tag.required "kind" Value.text? = some "virtual" := Record.required_of_lookup kind
    simp only [ofMembers?, tagged, virtual, read, field, Option.bind_eq_bind, Option.bind_some, Option.map_some]
  | relation f =>
    have field : RelationField.ofMembers? numbered (Field.relation f).members = some f :=
      f.ofMembers?_of_lookup numbered (Field.relation f).nodup_keys_members fun name known =>
        lookup_behind (ne_of_mem_of_not_mem known (by decide)) _ _
    have relation : tag.required "kind" Value.text? = some "relation" := Record.required_of_lookup kind
    simp only [ofMembers?, tagged, relation, field, Option.bind_eq_bind, Option.bind_some, Option.map_some]

theorem ofValue?_value (f : Field) : ofValue? .json f.value = some f := by
  have admitted := f.admits_value
  rw [value_eq] at admitted ⊢
  rw [ofValue?, admitted]
  exact ofMembers?_members true f

end Field

theorem subsetsOfValue?_entries (m : SortedMap (List String)) :
    subsetsOfValue? (.table (m.entries.map fun s => (s.1, .ofTexts s.2))) = some m := by
  have read : (m.entries.map fun s => (s.1, Value.ofTexts s.2)).mapM
      (fun (e : String × Value) => e.2.texts?.map fun paths => (e.1, paths)) = some m.entries := by
    have entry : (fun s : String × List String => (Value.ofTexts s.2).texts?.map fun paths => (s.1, paths)) = pure :=
      funext fun s => by rw [Value.texts?_ofTexts]; rfl
    rw [List.mapM_map]
    exact (congrArg (m.entries.mapM ·) entry).trans (List.mapM_pure.trans (congrArg some (List.map_id _)))
  rw [subsetsOfValue?, read, Option.map_some, SortedMap.ofList_entries]

namespace Entity

/-- The members of the table that an entity is written as. -/
def members (e : Entity) : List (String × Value) :=
  [("id", .text e.id), ("table", .text e.table), ("fields", .list (e.fields.map Field.value)),
    ("subsets", .table (e.subsets.entries.map fun s => (s.1, .ofTexts s.2)))]

theorem ofValue?_value (e : Entity) : ofValue? .json e.value = some e := by
  have distinct : (e.members.map (·.1)).Nodup := (by decide : ["id", "table", "fields", "subsets"].Nodup)
  obtain ⟨r, read, same⟩ := Record.exists_ofMembers? distinct ["id", "table", "fields", "subsets"]
  have record : Record.ofValue? DefinitionFormat.json.tolerance ["id", "table", "fields", "subsets"] e.value = some r := read
  rw [ofValue?, record, Option.bind_eq_bind, Option.bind_some, Record.required_of_lookup (same "id" (by decide)),
    Record.required_of_lookup (same "table" (by decide)), Record.withDefault_of_lookup (same "fields" (by decide)),
    Record.withDefault_of_lookup (same "subsets" (by decide)), Value.listOf?_map Field.ofValue?_value,
    subsetsOfValue?_entries]
  rfl

@[simp] theorem isPlain_value (e : Entity) : e.value.isPlain = true := by
  have subsets : (Value.table (e.subsets.entries.map fun s => (s.1, Value.ofTexts s.2))).isPlain = true := by
    rw [Value.isPlain_table, List.forall_mem_map]
    exact fun s _ => Value.isPlain_ofTexts s.2
  rw [value, Value.isPlain_table]
  simp [subsets]

end Entity

namespace DefinitionFile

theorem ofValue?_value (f : DefinitionFile) : ofValue? .json f.value = some f := by
  have distinct : ([("entities", Value.list (f.entities.map Entity.value))].map (·.1)).Nodup := by simp
  obtain ⟨r, read, same⟩ := Record.exists_ofMembers? distinct ["entities"]
  have record : Record.ofValue? DefinitionFormat.json.tolerance ["entities"] f.value = some r := read
  rw [ofValue?, record, Option.bind_eq_bind, Option.bind_some,
    Record.withDefault_of_lookup (same "entities" (by decide)), Value.listOf?_map Entity.ofValue?_value]
  rfl

theorem isPlain_value (f : DefinitionFile) : f.value.isPlain = true := by
  simp [value]

/-- Definitions are read again from the JSON that was written for them, whether it is indented or not. -/
theorem ofJson?_json (f : DefinitionFile) :
    ofJson? f.json = some f ∧ ofJson? (Json.indented f.value) = some f := by
  constructor
  · rw [ofJson?, json, Json.read_compact f.isPlain_value, Option.bind_some, ofValue?_value]
  · rw [ofJson?, Json.read_indented f.isPlain_value, Option.bind_some, ofValue?_value]

end DefinitionFile
end FetchPlan
