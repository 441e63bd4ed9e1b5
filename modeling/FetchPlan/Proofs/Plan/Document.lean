import FetchPlan.Plan.Document
import FetchPlan.Proofs.Json.RoundTrip

/-! Documents read from JSON. Every part of a plan has its reader, which knows exactly what is written for
it; no two documents are written alike. -/
namespace FetchPlan

def JoinPredicate.ofValue? : Value → Option JoinPredicate
  | .table [("columns", .table [("from", .text left), ("to", .text right)])] => some (.columns left right)
  | .table [("custom", .text text)] => some (.custom text)
  | _ => none

def Join.ofValue? : Value → Option Join
  | .table [("alias", .text name), ("join_type", .text "left_outer"), ("table", .text table),
      ("predicate", predicate)] => (JoinPredicate.ofValue? predicate).map fun p => ⟨name, table, p⟩
  | _ => none

def Through.ofValue? : Value → Option Through
  | .table [("table", .text table), ("from_col", .text fromColumn), ("to_col", .text toColumn)] =>
    some ⟨table, fromColumn, toColumn⟩
  | _ => none

def ManyJoin.ofValue? : Value → Option ManyJoin
  | .table [("type", .text "has_many"), ("from_table", .text fromTable), ("from_col", .text fromColumn),
      ("id_field", .text idField), ("to_table", .text toTable), ("to_col", .text toColumn)] =>
    some ⟨fromTable, fromColumn, idField, none, toTable, toColumn⟩
  | .table [("type", .text "many_to_many"), ("from_table", .text fromTable), ("from_col", .text fromColumn),
      ("id_field", .text idField), ("through", through), ("to_table", .text toTable),
      ("to_col", .text toColumn)] =>
    (Through.ofValue? through).map fun t => ⟨fromTable, fromColumn, idField, some t, toTable, toColumn⟩
  | _ => none

mutual

def Loader.ofValue? : Value → Option Loader
  | .table [("alias", .text name), ("table", .text table), ("many_join", manyJoin), ("one_joins", joins),
      ("select", select), ("virtual", virtuals), ("loaders", .list loaders)] => do
    pure ⟨name, table, ← ManyJoin.ofValue? manyJoin, ← joins.listOf? Join.ofValue?, ← select.texts?,
      ← virtuals.texts?, ← Loader.ofValues? loaders⟩
  | _ => none

def Loader.ofValues? : List Value → Option (List Loader)
  | [] => some []
  | v :: rest => do pure ((← Loader.ofValue? v) :: (← Loader.ofValues? rest))

end

def QueryPlan.ofValue? : Value → Option QueryPlan
  | .table [("select", select), ("virtual", virtuals), ("joins", joins), ("loaders", .list loaders)] => do
    pure ⟨← select.texts?, ← virtuals.texts?, ← joins.listOf? Join.ofValue?, ← Loader.ofValues? loaders⟩
  | _ => none

namespace PlanDocument

def ofValue? : Value → Option PlanDocument
  | .table [("entity", .text entity), ("subset", .text subset), ("plan", plan)] =>
    (QueryPlan.ofValue? plan).map fun p => ⟨entity, some subset, p⟩
  | .table [("entity", .text entity), ("plan", plan)] =>
    (QueryPlan.ofValue? plan).map fun p => ⟨entity, none, p⟩
  | _ => none

def ofJson? (s : String) : Option PlanDocument := (Json.read s).bind ofValue?

end PlanDocument

theorem JoinPredicate.ofValue?_value (p : JoinPredicate) : ofValue? p.value = some p := by
  cases p <;> rfl

@[simp] theorem JoinPredicate.isPlain_value (p : JoinPredicate) : p.value.isPlain = true := by
  cases p <;> rfl

theorem Join.ofValue?_value (j : Join) : ofValue? j.value = some j := by
  simp only [value, ofValue?, JoinPredicate.ofValue?_value, Option.map_some]

@[simp] theorem Join.isPlain_value (j : Join) : j.value.isPlain = true := by
  simp [value]

theorem ManyJoin.ofValue?_value (m : ManyJoin) : ofValue? m.value = some m := by
  obtain ⟨fromTable, fromColumn, idField, through, toTable, toColumn⟩ := m
  cases through with
  | none => rfl
  | some t => rfl

@[simp] theorem ManyJoin.isPlain_value (m : ManyJoin) : m.value.isPlain = true := by
  obtain ⟨fromTable, fromColumn, idField, through, toTable, toColumn⟩ := m
  cases through <;> rfl

mutual

theorem Loader.ofValue?_value : ∀ l : Loader, ofValue? l.value = some l
  | ⟨name, table, manyJoin, joins, select, virtuals, loaders⟩ => by
    have below := Loader.ofValues?_values loaders
    have joined := Value.listOf?_map Join.ofValue?_value joins
    simp [value, ofValue?, ManyJoin.ofValue?_value, joined, Value.texts?_ofTexts, below]

theorem Loader.ofValues?_values : ∀ loaders : List Loader, ofValues? (Loader.values loaders) = some loaders
  | [] => rfl
  | l :: rest => by
    simp [Loader.values, ofValues?, Loader.ofValue?_value l, Loader.ofValues?_values rest]

end

mutual

theorem Loader.isPlain_value : ∀ l : Loader, l.value.isPlain = true
  | ⟨name, table, manyJoin, joins, select, virtuals, loaders⟩ => by
    simpa [value] using Loader.isPlain_values loaders

theorem Loader.isPlain_values : ∀ loaders : List Loader, ∀ v ∈ Loader.values loaders, v.isPlain = true
  | [] => nofun
  | l :: rest => List.forall_mem_cons.mpr ⟨Loader.isPlain_value l, Loader.isPlain_values rest⟩

end

namespace QueryPlan

theorem ofValue?_value (p : QueryPlan) : ofValue? p.value = some p := by
  have joined := Value.listOf?_map Join.ofValue?_value p.joins
  simp [value, ofValue?, joined, Value.texts?_ofTexts, Loader.ofValues?_values]

theorem isPlain_value (p : QueryPlan) : p.value.isPlain = true := by
  simpa [value] using Loader.isPlain_values p.loaders

end QueryPlan

namespace PlanDocument

theorem ofValue?_value (d : PlanDocument) : ofValue? d.value = some d := by
  obtain ⟨entity, subset, plan⟩ := d
  cases subset with
  | none => simp [value, Value.optionalMember, ofValue?, QueryPlan.ofValue?_value]
  | some subset => simp [value, Value.optionalMember, ofValue?, QueryPlan.ofValue?_value]

theorem isPlain_value (d : PlanDocument) : d.value.isPlain = true := by
  obtain ⟨entity, subset, plan⟩ := d
  cases subset with
  | none => simp [value, Value.optionalMember, QueryPlan.isPlain_value]
  | some subset => simp [value, Value.optionalMember, QueryPlan.isPlain_value]

/-- A document is read again from the JSON that was written for it, and no other document is written so. -/
theorem render_json_lossless (d e : PlanDocument) :
    ofJson? (d.render .json) = some d ∧ (d.render .json = e.render .json ↔ d = e) := by
  have reads (d : PlanDocument) : ofJson? (d.render .json) = some d := by
    rw [ofJson?, render, Json.read_indented d.isPlain_value, Option.bind_some, ofValue?_value]
  refine ⟨reads d, fun same => ?_, fun same => same ▸ rfl⟩
  have both := congrArg ofJson? same
  rw [reads, reads] at both
  exact Option.some.inj both

end PlanDocument
end FetchPlan
