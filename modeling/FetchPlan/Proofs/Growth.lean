import FetchPlan.Plan.Compile
import FetchPlan.Proofs.Registry
import FetchPlan.Reach

/-! Answers of a growing registry. Entities are looked up only as an answer needs them, and what a
lookup found stays found. So an answer that did not fail for want of an entity is final. -/
namespace FetchPlan

/-- No entity of some id is registered; another call may change that. -/
def SchemaError.isMissing : SchemaError → Bool
  | .unknownEntity _ | .unresolvedRelation .. => true
  | _ => false

/-- What `x` says, `y` says as well, unless `x` failed for want of an entity. -/
structure Settles (x y : Except SchemaError α) : Prop where
  ok : ∀ a, x = .ok a → y = .ok a
  error : ∀ problem, x = .error problem → problem.isMissing = false → y = .error problem

namespace Settles

theorem refl (x : Except SchemaError α) : Settles x x := ⟨fun _ => id, fun _ failed _ => failed⟩

theorem of_missing (missing : problem.isMissing = true) (y : Except SchemaError α) :
    Settles (.error problem) y := by
  constructor
  · exact nofun
  · intro other same final
    cases same
    simp [missing] at final

/-- One step after another: a later step is only reached where the earlier ones are settled. -/
theorem bind {x y : Except SchemaError α} {f g : α → Except SchemaError β} (first : Settles x y)
    (later : ∀ a, Settles (f a) (g a)) : Settles (x >>= f) (y >>= g) := by
  cases found : x with
  | ok a =>
    rw [first.ok a found]
    exact later a
  | error problem =>
    cases missing : problem.isMissing with
    | true => exact .of_missing missing _
    | false =>
      rw [first.error problem found missing]
      exact .refl _

theorem mapM {f g : α → Except SchemaError β} (each : ∀ a, Settles (f a) (g a)) (l : List α) :
    Settles (l.mapM f) (l.mapM g) := by
  induction l with
  | nil => exact .refl _
  | cons a rest ih =>
    rw [List.mapM_cons, List.mapM_cons]
    exact (each a).bind fun b => ih.bind fun bs => .refl _

end Settles

namespace Registry

variable {r r' : Registry}

theorem Extends.get (grown : r.Extends r') (id : String) : Settles (r.get id) (r'.get id) := by
  cases found : r.entities.get? id with
  | some e => rw [get_eq_ok.mpr found, get_eq_ok.mpr (grown id e found)]; exact .refl _
  | none =>
    rw [Registry.get, found]
    exact .of_missing rfl _

theorem Extends.target (grown : r.Extends r') (owner : Entity) (relation : RelationField) :
    Settles (r.target owner relation) (r'.target owner relation) := by
  cases found : r.entities.get? relation.target with
  | some t => rw [target_eq_ok.mpr found, target_eq_ok.mpr (grown _ t found)]; exact .refl _
  | none =>
    rw [Registry.target, found]
    exact .of_missing rfl _

mutual

theorem Extends.resolveEntry (grown : r.Extends r') (e : Entity) (path : FieldPath) :
    ∀ entry, Settles (r.resolveEntry e path entry) (r'.resolveEntry e path entry)
  | ⟨name, terminal, children⟩ => by
    rw [Registry.resolveEntry, Registry.resolveEntry]
    split
    · exact .refl _
    · exact .refl _
    · exact .refl _
    · split
      · exact .refl _
      · exact (grown.target e _).bind fun t =>
          (Extends.resolveEntries grown t (path ++ [name]) children).bind fun nodes => .refl _

theorem Extends.resolveEntries (grown : r.Extends r') (e : Entity) (path : FieldPath) :
    ∀ entries, Settles (r.resolveEntries e path entries) (r'.resolveEntries e path entries)
  | [] => by
    rw [Registry.resolveEntries, Registry.resolveEntries]
    exact .refl _
  | entry :: rest => by
    rw [Registry.resolveEntries, Registry.resolveEntries]
    exact (Extends.resolveEntry grown e path entry).bind fun node =>
      (Extends.resolveEntries grown e path rest).bind fun nodes => .refl _

end

mutual

theorem Extends.compileRelation (grown : r.Extends r') (e : Entity) (path : FieldPath) :
    ∀ node, Settles (r.compileRelation e path node) (r'.compileRelation e path node)
  | .column .. => by
    rw [Registry.compileRelation, Registry.compileRelation]
    exact .refl _
  | .virtual _ => by
    rw [Registry.compileRelation, Registry.compileRelation]
    exact .refl _
  | .object relation _ children => by
    rw [Registry.compileRelation, Registry.compileRelation]
    refine (grown.target e relation).bind fun t => ?_
    split
    · exact .refl _
    · exact (Extends.compileRelations grown t (path ++ [relation.name]) children).bind fun below => .refl _
  | .array relation _ children => by
    rw [Registry.compileRelation, Registry.compileRelation]
    exact (grown.target e relation).bind fun t =>
      (Extends.compileRelations grown t [] children).bind fun below => .refl _

theorem Extends.compileRelations (grown : r.Extends r') (e : Entity) (path : FieldPath) :
    ∀ nodes, Settles (r.compileRelations e path nodes) (r'.compileRelations e path nodes)
  | [] => by
    rw [Registry.compileRelations, Registry.compileRelations]
    exact .refl _
  | node :: rest => by
    rw [Registry.compileRelations, Registry.compileRelations]
    exact (Extends.compileRelation grown e path node).bind fun first =>
      (Extends.compileRelations grown e path rest).bind fun others => .refl _

end

theorem Extends.resolvePaths (grown : r.Extends r') (e : Entity) (paths : List String) :
    Settles (r.resolvePaths e paths) (r'.resolvePaths e paths) :=
  (Settles.refl _).bind fun selection => grown.resolveEntries e [] selection

theorem Extends.compilePaths (grown : r.Extends r') (e : Entity) (paths : List String) :
    Settles (r.compilePaths e paths) (r'.compilePaths e paths) :=
  (grown.resolvePaths e paths).bind fun nodes =>
    (grown.compileRelations e [] nodes).bind fun _ => .refl _

theorem Extends.reachField (grown : r.Extends r') {enter enter' : RelationField → Entity →
      Option (Except SchemaError (List FieldPath))}
    (agree : ∀ relation t, Option.Rel Settles (enter relation t) (enter' relation t))
    (queryRoot : Bool) (path : FieldPath) (e : Entity) (f : Field) :
    Settles (r.reachField queryRoot path e enter f) (r'.reachField queryRoot path e enter' f) := by
  cases f with
  | plain | virtual => exact .refl _
  | relation relation =>
    refine (grown.target e relation).bind fun t => ?_
    have related := agree relation t
    generalize enter relation t = entered, enter' relation t = entered' at related ⊢
    cases related with
    | none => exact .refl _
    | some inside => exact inside

theorem Extends.reach (grown : r.Extends r') (queryRoot : Bool) (path : FieldPath)
    (visited : List String) (e : Entity) (depth : Nat) :
    Settles (r.reach queryRoot path visited e depth) (r'.reach queryRoot path visited e depth) := by
  induction depth generalizing queryRoot path visited e with
  | zero =>
    rw [Registry.reach, Registry.reach]
    exact (Settles.mapM (grown.reachField (fun _ _ => .none) queryRoot path e) _).bind fun parts => .refl _
  | succ depth ih =>
    rw [Registry.reach, Registry.reach]
    refine (Settles.mapM (grown.reachField (fun relation t => ?_) queryRoot path e) _).bind
      fun parts => .refl _
    split
    · exact .none
    · exact .some (ih _ _ _ _)

/-- `r'` settles whatever `r` is asked. -/
structure Keeps (r r' : Registry) : Prop where
  subset : ∀ id key, Settles (r.compileSubset id key) (r'.compileSubset id key)
  plan : ∀ id paths, Settles (r.compileFieldPaths id paths) (r'.compileFieldPaths id paths)
  shape : ∀ id paths, Settles (r.resolve id paths) (r'.resolve id paths)
  reach : ∀ id depth, Settles (r.reachable id depth) (r'.reachable id depth)

theorem Extends.keeps (grown : r.Extends r') : r.Keeps r' where
  subset id key := (grown.get id).bind fun e => by
    split
    · exact grown.compilePaths e _
    · exact .refl _
  plan id paths := (grown.get id).bind fun e => grown.compilePaths e paths
  shape id paths := (grown.get id).bind fun e => grown.resolvePaths e paths
  reach id depth := (grown.get id).bind fun e => grown.reach true [] [e.id] e depth

/-- Registering more entities, some of them in vain perhaps, keeps every answer but those that fail
for want of an entity. -/
theorem registerEach_keeps (r : Registry) (es : List Entity) : r.Keeps (r.registerEach es) :=
  (registerEach_extends r es).keeps

end Registry
end FetchPlan
