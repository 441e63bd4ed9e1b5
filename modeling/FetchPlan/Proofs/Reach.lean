import FetchPlan.Proofs.Registry
import FetchPlan.Proofs.Text
import FetchPlan.Reach

/-! What the walk over the entity graph lists. It takes every route that meets no entity twice and
is not longer than allowed, and lists what it finds at the end of each, everything once. -/
namespace FetchPlan

/-- A relation taken on the way, and the entity it leads to. -/
structure Hop where
  relation : RelationField
  target : Entity

/-- Where hops from `e` end. -/
def arrival (e : Entity) (hops : List Hop) : Entity := (hops.getLast?.map Hop.target).getD e

/-- The entities that hops from `e` meet, `e` itself first. -/
def met (e : Entity) (hops : List Hop) : List Entity := e :: hops.map Hop.target

def hopNames (hops : List Hop) : FieldPath := hops.map fun hop => hop.relation.name

/-- The ids of the entities met, the last one first. -/
def metIds (e : Entity) (hops : List Hop) : List String := ((met e hops).map Entity.id).reverse

/-- A query starts at the root and behind every to-many relation. -/
def startsQuery (hops : List Hop) : Bool := hops.getLast?.all fun hop => hop.relation.kind.isToMany

section Hops

variable (e : Entity) (hops : List Hop) (hop : Hop)

@[simp] theorem arrival_nil : arrival e [] = e := rfl

@[simp] theorem arrival_cons : arrival e (hop :: hops) = arrival hop.target hops := by
  cases hops <;> simp [arrival, List.getLast?_cons]

@[simp] theorem arrival_concat : arrival e (hops ++ [hop]) = hop.target := by simp [arrival]

@[simp] theorem met_concat : met e (hops ++ [hop]) = met e hops ++ [hop.target] := by simp [met]

@[simp] theorem metIds_concat : metIds e (hops ++ [hop]) = hop.target.id :: metIds e hops := by
  simp [metIds]

@[simp] theorem hopNames_concat :
    hopNames (hops ++ [hop]) = hopNames hops ++ [hop.relation.name] := by simp [hopNames]

@[simp] theorem startsQuery_concat :
    startsQuery (hops ++ [hop]) = hop.relation.kind.isToMany := by simp [startsQuery]

end Hops

namespace Registry

/-- Every hop takes a relation of the entity before it to its target. -/
def Follows (r : Registry) : Entity → List Hop → Prop
  | _, [] => True
  | e, hop :: hops => .relation hop.relation ∈ e.fields ∧
      r.entities.get? hop.relation.target = some hop.target ∧ r.Follows hop.target hops

/-- Hops from `e` that are not more than `depth` and meet no entity twice. -/
structure Route (r : Registry) (e : Entity) (depth : Nat) (hops : List Hop) : Prop where
  follows : r.Follows e hops
  short : hops.length ≤ depth
  simple : (met e hops).Nodup

/-- The paths that are listed for the end of a route: its columns, the virtual fields where a query
starts, and the foreign keys of the relations that the route cannot go on with. -/
inductive Ends (r : Registry) (e : Entity) (depth : Nat) (hops : List Hop) : FieldPath → Prop where
  | plain : .plain f ∈ (arrival e hops).fields → Ends r e depth hops (hopNames hops ++ [f.name])
  | virtual : .virtual name ∈ (arrival e hops).fields → startsQuery hops = true →
      Ends r e depth hops (hopNames hops ++ [name])
  | foreignKey : .relation relation ∈ (arrival e hops).fields → relation.kind.ownsForeignKey = true →
      (hops.length = depth ∨ ∃ t ∈ met e hops, r.entities.get? relation.target = some t) →
      Ends r e depth hops (hopNames hops ++ [relation.name, "id"])

theorem follows_append {r : Registry} : r.Follows e (hops ++ more) ↔
    r.Follows e hops ∧ r.Follows (arrival e hops) more := by
  induction hops generalizing e with
  | nil => simp [Follows]
  | cons hop hops ih => simp [Follows, ih, and_assoc]

/-- What the walk does about relations: entered or not, and the walk behind those that are. -/
def entering (r : Registry) (path : FieldPath) (visited : List String) (depth : Nat)
    (relation : RelationField) (t : Entity) : Option (Except SchemaError (List FieldPath)) :=
  match depth with
  | 0 => none
  | depth + 1 => if t.id ∈ visited then none
    else some (r.reach relation.kind.isToMany (path ++ [relation.name]) (t.id :: visited) t depth)

theorem reach_eq (r : Registry) (queryRoot : Bool) (path : FieldPath) (visited : List String)
    (e : Entity) (depth : Nat) : r.reach queryRoot path visited e depth =
      (e.fields.mapM (r.reachField queryRoot path e (r.entering path visited depth)) >>= fun parts =>
        pure parts.flatten) := by
  cases depth <;> rfl

/-- The walk lists what the fields of the entity give, in turn. -/
theorem reach_ok {r : Registry} (walked : r.reach queryRoot path visited e depth = .ok ps) :
    ∃ part : Field → List FieldPath, ps = e.fields.flatMap part ∧ ∀ f ∈ e.fields,
      r.reachField queryRoot path e (r.entering path visited depth) f = .ok (part f) := by
  rw [reach_eq] at walked
  obtain ⟨parts, fields, done⟩ := bind_eq_ok.mp walked
  cases done
  obtain ⟨part, each, rfl⟩ := mapM_ok fields
  exact ⟨part, rfl, each⟩

theorem exists_reach_iff {r : Registry} {path : FieldPath} :
    (∃ ps, r.reach queryRoot path visited e depth = .ok ps) ↔
      ∀ f ∈ e.fields, ∃ part, r.reachField queryRoot path e (r.entering path visited depth) f = .ok part := by
  rw [reach_eq, ← exists_mapM_iff]
  simp [bind_eq_ok, pure, Except.pure]

/-- What one field gives. -/
theorem reachField_ok {r : Registry}
    (done : r.reachField queryRoot path e (r.entering path visited depth) f = .ok part) :
    (∃ plain, f = .plain plain ∧ part = [path ++ [plain.name]]) ∨
    (∃ name, f = .virtual name ∧ part = if queryRoot then [path ++ [name]] else []) ∨
    ∃ relation t, f = .relation relation ∧ r.entities.get? relation.target = some t ∧
      ((depth = 0 ∨ t.id ∈ visited) ∧
          (part = if relation.kind.ownsForeignKey then [path ++ [relation.name, "id"]] else []) ∨
        ∃ left, depth = left + 1 ∧ t.id ∉ visited ∧
          r.reach relation.kind.isToMany (path ++ [relation.name]) (t.id :: visited) t left = .ok part) := by
  cases f with
  | plain plain =>
    cases done
    exact .inl ⟨plain, rfl, rfl⟩
  | virtual name =>
    cases done
    exact .inr (.inl ⟨name, rfl, rfl⟩)
  | relation relation =>
    obtain ⟨t, registered, done⟩ := bind_eq_ok.mp done
    refine .inr (.inr ⟨relation, t, rfl, target_eq_ok.mp registered, ?_⟩)
    cases depth with
    | zero =>
      cases done
      exact .inl ⟨.inl rfl, rfl⟩
    | succ left =>
      rw [entering] at done
      split at done
      · rename_i inside entered
        split at entered
        · contradiction
        · rename_i fresh
          cases entered
          exact .inr ⟨left, rfl, fresh, done⟩
      · rename_i entered
        split at entered
        · rename_i seen
          cases done
          exact .inl ⟨.inr seen, rfl⟩
        · contradiction

/-- Whatever a field gives begins with the way to the field. -/
theorem reachField_prefix {r : Registry}
    (done : r.reachField queryRoot path e (r.entering path visited depth) f = .ok part)
    (member : p ∈ part) : path ++ [f.name] <+: p := by
  induction depth using Nat.strongRecOn generalizing queryRoot path visited e f part with
  | ind depth ih =>
    rcases reachField_ok done with ⟨plain, rfl, rfl⟩ | ⟨name, rfl, rfl⟩ |
      ⟨relation, t, rfl, _, ⟨_, rfl⟩ | ⟨left, rfl, _, inside⟩⟩
    · rw [List.mem_singleton.mp member]
      exact List.prefix_rfl
    · rw [List.mem_singleton.mp (List.mem_ite_nil_right.mp member).2]
      exact List.prefix_rfl
    · rw [List.mem_singleton.mp (List.mem_ite_nil_right.mp member).2]
      exact ⟨["id"], by simp [Field.name]⟩
    · obtain ⟨parts, rfl, each⟩ := reach_ok inside
      obtain ⟨g, declared, member⟩ := List.mem_flatMap.mp member
      exact (List.prefix_append _ [g.name]).trans (ih left (by omega) (each g declared) member)

/-- Nothing is listed twice, since the fields of one entity have different names. -/
theorem reach_nodup {r : Registry} (valid : r.Valid) (named : e.WellNamed)
    (walked : r.reach queryRoot path visited e depth = .ok ps) : ps.Nodup := by
  induction depth using Nat.strongRecOn generalizing queryRoot path visited e ps with
  | ind depth ih =>
    obtain ⟨part, rfl, each⟩ := reach_ok walked
    refine List.nodup_flatMap.mpr ⟨fun f declared => ?_, ?_⟩
    · rcases reachField_ok (each f declared) with ⟨_, _, eq⟩ | ⟨_, _, eq⟩ |
        ⟨_, _, _, registered, ⟨_, eq⟩ | ⟨left, rfl, _, inside⟩⟩
      · simp [eq]
      · rw [eq]
        split <;> simp
      · rw [eq]
        split <;> simp
      · exact ih left (by omega) (valid.wellNamed registered) inside
    · refine (List.pairwise_map.mp named.distinct).imp_of_mem fun first second apart p here there => apart ?_
      obtain ⟨rest, rfl⟩ := reachField_prefix (each _ first) here
      obtain ⟨rest', same⟩ := reachField_prefix (each _ second) there
      simp only [List.append_assoc, List.append_cancel_left_eq] at same
      exact (List.cons.inj same).1.symm

theorem Route.concat {r : Registry} (route : r.Route e depth hops) (room : hops.length < depth)
    (declared : .relation relation ∈ (arrival e hops).fields)
    (registered : r.entities.get? relation.target = some t) (fresh : t ∉ met e hops) :
    r.Route e depth (hops ++ [⟨relation, t⟩]) where
  follows := follows_append.mpr ⟨route.follows, declared, registered, trivial⟩
  short := by
    rw [List.length_append]
    exact room
  simple := by
    rw [met_concat]
    exact List.nodup_append.mpr ⟨route.simple, by simp, by simp only [List.mem_singleton]; grind⟩

theorem Follows.registered {r : Registry} (follows : r.Follows e hops) (member : hop ∈ hops) :
    r.entities.get? hop.relation.target = some hop.target := by
  induction hops generalizing e with
  | nil => contradiction
  | cons first hops ih =>
    obtain ⟨_, registered, later⟩ := follows
    rcases List.mem_cons.mp member with rfl | member
    · exact registered
    · exact ih later member

theorem Follows.arrives {r : Registry} (root : r.entities.get? key = some e) (follows : r.Follows e hops) :
    ∃ key, r.entities.get? key = some (arrival e hops) := by
  cases last : hops.getLast? with
  | none => exact ⟨key, by rwa [arrival, last]⟩
  | some hop =>
    have registered := follows.registered (List.mem_of_getLast? last)
    exact ⟨hop.relation.target, by rwa [arrival, last]⟩

/-- An entity was met on a route exactly if its id was. -/
theorem Route.mem_metIds {r : Registry} (valid : r.Valid) (root : r.entities.get? e.id = some e)
    (route : r.Route e depth hops) (registered : r.entities.get? key = some t) :
    t.id ∈ metIds e hops ↔ t ∈ met e hops := by
  have known (t' : Entity) (member : t' ∈ met e hops) : r.entities.get? t'.id = some t' := by
    rcases List.mem_cons.mp member with rfl | member
    · exact root
    · obtain ⟨hop, taken, rfl⟩ := List.mem_map.mp member
      have found := route.follows.registered taken
      rwa [valid.keyed found]
  rw [metIds, List.mem_reverse, List.mem_map]
  constructor
  · rintro ⟨t', member, same⟩
    have found := known t' member
    rw [same, valid.keyed registered, registered] at found
    exact Option.some.inj found ▸ member
  · exact fun member => ⟨t, member, rfl⟩

/-- Whatever the walk lists stands at the end of a route that goes on from where the walk is. -/
theorem ends_of_mem_reach {r : Registry} (valid : r.Valid) (root : r.entities.get? e.id = some e)
    (route : r.Route e depth hops)
    (counted : hops.length + left = depth)
    (walked : r.reach (startsQuery hops) (hopNames hops) (metIds e hops) (arrival e hops) left = .ok ps)
    (member : p ∈ ps) :
    ∃ more, r.Route e depth (hops ++ more) ∧ r.Ends e depth (hops ++ more) p := by
  induction left using Nat.strongRecOn generalizing hops ps with
  | ind left ih =>
    obtain ⟨part, rfl, each⟩ := reach_ok walked
    obtain ⟨f, declared, member⟩ := List.mem_flatMap.mp member
    rcases reachField_ok (each f declared) with ⟨plain, rfl, eq⟩ | ⟨name, rfl, eq⟩ |
      ⟨relation, t, rfl, registered, ⟨stops, eq⟩ | ⟨left', rfl, fresh, inside⟩⟩
    · rw [eq, List.mem_singleton] at member
      refine ⟨[], by rwa [List.append_nil], ?_⟩
      rw [List.append_nil, member]
      exact .plain declared
    · rw [eq, List.mem_ite_nil_right, List.mem_singleton] at member
      refine ⟨[], by rwa [List.append_nil], ?_⟩
      rw [List.append_nil, member.2]
      exact .virtual declared member.1
    · rw [eq, List.mem_ite_nil_right, List.mem_singleton] at member
      refine ⟨[], by rwa [List.append_nil], ?_⟩
      rw [List.append_nil, member.2]
      refine .foreignKey declared member.1 (stops.imp (by omega) fun seen => ?_)
      exact ⟨t, (route.mem_metIds valid root registered).mp seen, registered⟩
    · have room : hops.length < depth := by omega
      have unmet : t ∉ met e hops := mt (route.mem_metIds valid root registered).mpr fresh
      have onward := route.concat room declared registered unmet
      obtain ⟨more, whole, ends⟩ := ih left' (by omega) onward (by simp; omega) (by simpa using inside) member
      exact ⟨⟨relation, t⟩ :: more, by simpa using whole, by simpa using ends⟩

theorem Route.of_append {r : Registry} (route : r.Route e depth (hops ++ more)) :
    r.Route e depth hops where
  follows := (follows_append.mp route.follows).1
  short := by
    have short := route.short
    rw [List.length_append] at short
    omega
  simple := by
    have simple := route.simple
    rw [met, List.map_append, ← List.cons_append] at simple
    exact (List.nodup_append.mp simple).1

/-- The walk goes on along every route, and lists what stands at its end. -/
theorem mem_reach_of_ends {r : Registry} (valid : r.Valid) (root : r.entities.get? e.id = some e)
    (route : r.Route e depth (hops ++ more)) (ends : r.Ends e depth (hops ++ more) p)
    (counted : hops.length + left = depth)
    (walked : r.reach (startsQuery hops) (hopNames hops) (metIds e hops) (arrival e hops) left = .ok ps) :
    p ∈ ps := by
  induction more generalizing hops left ps with
  | nil =>
    rw [List.append_nil] at route ends
    obtain ⟨part, rfl, each⟩ := reach_ok walked
    cases ends with
    | plain declared =>
      refine List.mem_flatMap.mpr ⟨_, declared, ?_⟩
      rcases reachField_ok (each _ declared) with ⟨_, ⟨⟩, eq⟩ | ⟨_, ⟨⟩, _⟩ | ⟨_, _, ⟨⟩, _⟩
      simp [eq]
    | virtual declared starts =>
      refine List.mem_flatMap.mpr ⟨_, declared, ?_⟩
      rcases reachField_ok (each _ declared) with ⟨_, ⟨⟩, _⟩ | ⟨_, ⟨⟩, eq⟩ | ⟨_, _, ⟨⟩, _⟩
      simp [eq, starts]
    | foreignKey declared owns stops =>
      refine List.mem_flatMap.mpr ⟨_, declared, ?_⟩
      rcases reachField_ok (each _ declared) with ⟨_, ⟨⟩, _⟩ | ⟨_, ⟨⟩, _⟩ |
        ⟨_, t, ⟨⟩, registered, ⟨_, eq⟩ | ⟨left', rfl, fresh, _⟩⟩
      · simp [eq, owns]
      · -- The walk does not enter a relation that the route cannot go on with.
        rcases stops with full | ⟨t', seen, found⟩
        · omega
        · cases registered.symm.trans found
          exact absurd ((route.mem_metIds valid root registered).mpr seen) fresh
  | cons hop more ih =>
    have through : hops ++ hop :: more = hops ++ [hop] ++ more := by simp
    rw [through] at route ends
    have onward := route.of_append
    obtain ⟨_, declared, registered, _⟩ := follows_append.mp onward.follows
    have unmet : hop.target ∉ met e hops := by
      have simple := onward.simple
      rw [met_concat] at simple
      exact fun again => (List.nodup_append.mp simple).2.2 _ again _ (by simp) rfl
    have room := onward.short
    rw [List.length_append] at room
    obtain ⟨part, rfl, each⟩ := reach_ok walked
    refine List.mem_flatMap.mpr ⟨_, declared, ?_⟩
    rcases reachField_ok (each _ declared) with ⟨_, ⟨⟩, _⟩ | ⟨_, ⟨⟩, _⟩ |
      ⟨_, t, ⟨⟩, found, ⟨stops, _⟩ | ⟨left', rfl, _, inside⟩⟩
    all_goals cases found.symm.trans registered
    · rcases stops with rfl | seen
      · simp at room
        omega
      · exact absurd ((onward.of_append.mem_metIds valid root registered).mp seen) unmet
    · have counted' : (hops ++ [hop]).length + left' = depth := by
        rw [List.length_append, List.length_singleton]
        omega
      exact ih route ends counted' (by simpa using inside)

theorem Follows.dotless {r : Registry} (valid : r.Valid) (named : e.WellNamed) (follows : r.Follows e hops) :
    (arrival e hops).WellNamed ∧ ∀ name ∈ hopNames hops, '.' ∉ name.toList := by
  induction hops generalizing e with
  | nil => exact ⟨named, nofun⟩
  | cons hop hops ih =>
    obtain ⟨declared, registered, later⟩ := follows
    obtain ⟨last, names⟩ := ih (valid.wellNamed registered) later
    exact ⟨by simpa using last, List.forall_mem_cons.mpr ⟨named.dotless _ declared, names⟩⟩

/-- A listed path can be told from its text. -/
theorem Ends.split_dotted {r : Registry} (valid : r.Valid) (named : e.WellNamed)
    (route : r.Route e depth hops) (ends : r.Ends e depth hops p) : Text.split '.' p.dotted = p := by
  obtain ⟨last, names⟩ := route.follows.dotless valid named
  cases ends with
  | plain declared | virtual declared | foreignKey declared =>
    have dotless := last.dotless _ declared
    refine FieldPath.split_dotted (by simp) (List.forall_mem_append.mpr ⟨names, ?_⟩)
    simpa [Field.name] using dotless

theorem reachable_ok {r : Registry} {id : String} (root : r.get id = .ok e)
    (walked : r.reachable id depth = .ok ps) : r.reach true [] [e.id] e depth = .ok ps := by
  rwa [reachable, root] at walked

theorem mem_reachable {r : Registry} {id : String} (valid : r.Valid) (root : r.get id = .ok e)
    (walked : r.reachable id depth = .ok ps) :
    p ∈ ps ↔ ∃ hops, r.Route e depth hops ∧ r.Ends e depth hops p := by
  have walked := reachable_ok root walked
  have found := get_eq_ok.mp root
  rw [← valid.keyed found] at found
  constructor
  · intro member
    have start : r.Route e depth [] := ⟨trivial, Nat.zero_le _, List.nodup_singleton e⟩
    exact ends_of_mem_reach valid found start (Nat.zero_add depth) walked member
  · rintro ⟨hops, route, ends⟩
    rw [← List.nil_append hops] at route ends
    exact mem_reach_of_ends valid found route ends (Nat.zero_add depth) walked

/-- The walk lists the paths at the ends of all routes that are short enough, each path once. -/
theorem reachable_exact {r : Registry} {id : String} (built : ofEntities es = .ok r)
    (root : r.get id = .ok e) (walked : r.reachable id depth = .ok ps) :
    (ps.map FieldPath.dotted).Nodup ∧ ∀ text, text ∈ ps.map FieldPath.dotted ↔
      ∃ hops p, r.Route e depth hops ∧ r.Ends e depth hops p ∧ p.dotted = text := by
  have valid := ofEntities_valid built
  have named := valid.wellNamed (get_eq_ok.mp root)
  constructor
  · refine (reach_nodup valid named (reachable_ok root walked)).map_on fun p listed q listed' same => ?_
    obtain ⟨_, route, ends⟩ := (mem_reachable valid root walked).mp listed
    obtain ⟨_, route', ends'⟩ := (mem_reachable valid root walked).mp listed'
    rw [← ends.split_dotted valid named route, same, ends'.split_dotted valid named route']
  · intro text
    simp only [List.mem_map, mem_reachable valid root walked]
    constructor
    · rintro ⟨p, ⟨hops, route, ends⟩, same⟩
      exact ⟨hops, p, route, ends, same⟩
    · rintro ⟨hops, p, route, ends, same⟩
      exact ⟨p, ⟨hops, route, ends⟩, same⟩

end Registry

namespace Sample

/-- A folder in a folder; the walk does not enter it again. -/
def folder : Entity :=
  { id := "Folder", table := "folders"
    fields := [.plain ⟨"id", .integer, false, none, none, none⟩,
      .plain ⟨"name", .string, false, none, none, none⟩, .virtual "path",
      .relation ⟨"parent", "Folder", .belongsToOne none, true, none⟩,
      .relation ⟨"files", "File", .hasMany "folder_id", false, none⟩] }

def file : Entity :=
  { id := "File", table := "files"
    fields := [.plain ⟨"id", .integer, false, none, none, none⟩, .virtual "url",
      .relation ⟨"folder", "Folder", .belongsToOne none, false, none⟩] }

def cabinet : Registry := ⟨(SortedMap.empty.insert "Folder" folder).insert "File" file⟩

theorem cabinet_built : Registry.ofEntities [folder, file] = .ok cabinet := by decide +kernel

end Sample

theorem Registry.reachable_exact_sample : ∃ ps, ofEntities [Sample.folder, Sample.file] = .ok Sample.cabinet ∧
    Sample.cabinet.get "Folder" = .ok Sample.folder ∧ Sample.cabinet.reachable "Folder" 1 = .ok ps ∧
      ps.map FieldPath.dotted =
        ["id", "name", "path", "parent.id", "files.id", "files.url", "files.folder.id"] ∧
      (ps.map FieldPath.dotted).Nodup ∧ ∀ text, text ∈ ps.map FieldPath.dotted ↔
        ∃ hops p, Sample.cabinet.Route Sample.folder 1 hops ∧
          Sample.cabinet.Ends Sample.folder 1 hops p ∧ p.dotted = text := by
  have root : Sample.cabinet.get "Folder" = .ok Sample.folder := by decide +kernel
  have walked : Sample.cabinet.reachable "Folder" 1 = .ok [["id"], ["name"], ["path"], ["parent", "id"],
      ["files", "id"], ["files", "url"], ["files", "folder", "id"]] := by
    decide +kernel
  exact ⟨_, Sample.cabinet_built, root, walked, by decide +kernel,
    reachable_exact Sample.cabinet_built root walked⟩

end FetchPlan
