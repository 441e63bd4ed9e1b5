import FetchPlan.Plan.Document
import FetchPlan.Proofs.Text.Lines
import Mathlib.Algebra.BigOperators.Group.List.Basic
import Mathlib.Algebra.GroupWithZero.Nat

/-! The text of a plan against its entries. Every entry is written on a line of its own, behind the indentation
of its query, but what it prints is taken over as it stands. So the entries are the lines exactly if no
newline is printed. -/
namespace FetchPlan

/-- What a line of a plan's text is written for. -/
inductive PlanEntry where
  | select (column : String)
  | virtual (name : String)
  | join (join : Join)
  | loader (name : String) (manyJoin : ManyJoin)

def JoinPredicate.texts : JoinPredicate → List String
  | .columns left right => [left, right]
  | .custom text => [text]

def ManyJoin.texts (m : ManyJoin) : List String :=
  let through := match m.through with
    | none => []
    | some t => [t.table, t.fromColumn, t.table, t.toColumn]
  [m.fromTable, m.fromColumn] ++ through ++ [m.toTable, m.toColumn, m.idField]

namespace PlanEntry

/-- The words that tell the kind of an entry. -/
def marker : PlanEntry → String
  | select _ => "select "
  | virtual _ => "virtual "
  | join _ => "LEFT OUTER JOIN "
  | loader .. => "loader "

def text : PlanEntry → String
  | select column => column
  | virtual name => name
  | join j => j.table ++ " AS " ++ j.name ++ " ON " ++ j.predicate.text
  | loader name manyJoin => name ++ " via " ++ manyJoin.text

/-- The names, tables, columns and predicates that an entry prints. -/
def texts : PlanEntry → List String
  | select column => [column]
  | virtual name => [name]
  | join j => j.table :: j.name :: j.predicate.texts
  | loader name manyJoin => name :: manyJoin.texts

/-- No newline is printed. -/
def OneLine (x : PlanEntry) : Prop := ∀ s ∈ x.texts, Text.OneLine s

theorem oneLine_marker (x : PlanEntry) : Text.OneLine x.marker := by
  cases x <;> simp only [marker] <;> decide

theorem oneLine_predicate {p : JoinPredicate} : Text.OneLine p.text ↔ ∀ s ∈ p.texts, Text.OneLine s := by
  have equals : Text.OneLine " = " := by decide
  cases p <;> simp [JoinPredicate.text, JoinPredicate.texts, equals]

theorem oneLine_manyJoin {m : ManyJoin} : Text.OneLine m.text ↔ ∀ s ∈ m.texts, Text.OneLine s := by
  have signs : Text.OneLine "." ∧ Text.OneLine " = " ∧ Text.OneLine ", " ∧ Text.OneLine " [" ∧
      Text.OneLine "]" ∧ Text.OneLine "" := by decide
  obtain ⟨fromTable, fromColumn, idField, through, toTable, toColumn⟩ := m
  cases through <;> simp [ManyJoin.text, ManyJoin.texts, toString, signs, and_assoc]

theorem oneLine_text {x : PlanEntry} : Text.OneLine x.text ↔ x.OneLine := by
  have words : Text.OneLine " AS " ∧ Text.OneLine " ON " ∧ Text.OneLine " via " := by decide
  cases x with
  | select | virtual => simp [text, OneLine, texts]
  | join j => simp [text, OneLine, texts, words, oneLine_predicate, and_assoc]
  | loader name manyJoin => simp [text, OneLine, texts, words, oneLine_manyJoin]

end PlanEntry

/-- An entry and the number of loaders it is inside. -/
structure PlacedEntry where
  depth : Nat
  entry : PlanEntry

namespace PlacedEntry

/-- The entry seen from outside of some more loaders. -/
def under (around : Nat) (x : PlacedEntry) : PlacedEntry := { x with depth := around + x.depth }

/-- Two spaces for each loader around the entry, its kind, and what it prints. -/
def line (x : PlacedEntry) : String := indent x.depth ++ x.entry.marker ++ x.entry.text

theorem oneLine_line {x : PlacedEntry} : Text.OneLine x.line ↔ x.entry.OneLine := by
  have spaces : Text.OneLine (indent x.depth) := by simp [Text.OneLine, indent]
  rw [line, Text.oneLine_append, Text.oneLine_append, PlanEntry.oneLine_text]
  exact and_iff_right ⟨spaces, x.entry.oneLine_marker⟩

end PlacedEntry

/-- The select entries, virtual fields and joins of a query. -/
def QueryPlan.ownEntries (p : QueryPlan) : List PlanEntry :=
  p.select.map .select ++ p.virtuals.map .virtual ++ p.joins.map .join

mutual

/-- The entry of a loader and, directly behind it, those of its query. -/
def Loader.entries : Loader → List PlacedEntry
  | ⟨name, _, manyJoin, joins, select, virtuals, loaders⟩ =>
    let own := QueryPlan.ownEntries { select, virtuals, joins }
    ⟨0, .loader name manyJoin⟩ ::
      (own.map (PlacedEntry.mk 0) ++ Loader.entriesAll loaders).map (PlacedEntry.under 1)

def Loader.entriesAll : List Loader → List PlacedEntry
  | [] => []
  | l :: rest => l.entries ++ Loader.entriesAll rest

end

mutual

/-- The queries of a loader and of the loaders inside it. -/
def Loader.queries : Loader → List QueryPlan
  | ⟨_, _, _, joins, select, virtuals, loaders⟩ =>
    { select, virtuals, joins, loaders } :: Loader.queriesAll loaders

def Loader.queriesAll : List Loader → List QueryPlan
  | [] => []
  | l :: rest => l.queries ++ Loader.queriesAll rest

end

namespace QueryPlan

/-- All entries: select entries, virtual fields, joins and loaders in this order, and directly behind each
loader the entries inside it. -/
def entries (p : QueryPlan) : List PlacedEntry :=
  p.ownEntries.map (PlacedEntry.mk 0) ++ Loader.entriesAll p.loaders

/-- The query of the plan and those of its loaders at any depth. -/
def queries (p : QueryPlan) : List QueryPlan := p :: Loader.queriesAll p.loaders

/-- The number of select entries, virtual fields, joins and loaders in all queries. -/
def size (p : QueryPlan) : Nat :=
  (p.queries.map fun q => q.select.length + q.virtuals.length + q.joins.length + q.loaders.length).sum

/-- No entry prints a newline. -/
def OneLined (p : QueryPlan) : Prop := ∀ x ∈ p.entries, x.entry.OneLine

end QueryPlan

theorem Loader.entries_eq (l : Loader) :
    l.entries = ⟨0, .loader l.name l.manyJoin⟩ :: l.plan.entries.map (PlacedEntry.under 1) := by
  cases l
  rw [entries]
  rfl

theorem Loader.entriesAll_eq (loaders : List Loader) : entriesAll loaders = loaders.flatMap entries := by
  induction loaders with
  | nil => rfl
  | cons l rest ih => rw [entriesAll, ih, List.flatMap_cons]

theorem Loader.queries_eq (l : Loader) : l.queries = l.plan.queries := by
  cases l
  rw [queries]
  rfl

theorem Loader.queriesAll_eq (loaders : List Loader) : queriesAll loaders = loaders.flatMap queries := by
  induction loaders with
  | nil => rfl
  | cons l rest ih => rw [queriesAll, ih, List.flatMap_cons]

theorem Loader.linesAll_eq (depth : Nat) (loaders : List Loader) :
    linesAll depth loaders = loaders.flatMap (lines depth) := by
  induction loaders with
  | nil => rfl
  | cons l rest ih => rw [linesAll, ih, List.flatMap_cons]

namespace QueryPlan

theorem entries_eq (p : QueryPlan) : p.entries = p.ownEntries.map (PlacedEntry.mk 0) ++
    p.loaders.flatMap fun l =>
      ⟨0, .loader l.name l.manyJoin⟩ :: l.plan.entries.map (PlacedEntry.under 1) := by
  rw [entries, Loader.entriesAll_eq]
  exact congrArg _ (List.flatMap_congr fun l _ => l.entries_eq)

theorem size_eq (p : QueryPlan) : p.size = p.select.length + p.virtuals.length + p.joins.length +
    p.loaders.length + (p.loaders.map fun l => l.plan.size).sum := by
  rw [size, queries, Loader.queriesAll_eq, List.map_cons, List.sum_cons, List.map_flatMap, List.flatMap_def,
    List.sum_flatten, List.map_map]
  simp only [Function.comp_def, Loader.queries_eq, size]

/-- The lines of a query that is itself inside `depth` loaders. -/
def linesAt (depth : Nat) (p : QueryPlan) : List String :=
  entryLines depth p.select p.virtuals p.joins ++ Loader.linesAll depth p.loaders

theorem entryLines_eq (depth : Nat) (p : QueryPlan) : entryLines depth p.select p.virtuals p.joins =
    (p.ownEntries.map (PlacedEntry.mk 0)).map fun x => (x.under depth).line := by
  have joined (j : Join) : j.text = (PlanEntry.join j).marker ++ (PlanEntry.join j).text := by
    unfold Join.text
    simp only [PlanEntry.marker, PlanEntry.text, toString, String.append_assoc]
  simp [entryLines, ownEntries, joined, Function.comp_def, PlacedEntry.under, PlacedEntry.line,
    PlanEntry.marker, PlanEntry.text, String.append_assoc]

end QueryPlan

theorem Loader.lines_eq (depth : Nat) (l : Loader) :
    l.lines depth = (PlacedEntry.mk depth (.loader l.name l.manyJoin)).line :: l.plan.linesAt (depth + 1) := by
  cases l
  rw [lines]
  congr 1
  simp [PlacedEntry.line, PlanEntry.marker, PlanEntry.text, toString, String.append_assoc]

namespace QueryPlan

/-- A query writes its entries one after another, each as many loaders deeper as are around the query. -/
theorem linesAt_eq (depth : Nat) (p : QueryPlan) :
    p.linesAt depth = p.entries.map fun x => (x.under depth).line := by
  -- The loaders' queries are written one level deeper, so the depth varies in the induction.
  induction p using QueryPlan.induction generalizing depth with
  | step p inside =>
    rw [linesAt, entries_eq, List.map_append, entryLines_eq, Loader.linesAll_eq, List.map_flatMap]
    congr 1
    refine List.flatMap_congr fun l member => ?_
    rw [Loader.lines_eq, inside l member, List.map_cons, List.map_map]
    simp [Function.comp_def, PlacedEntry.under, Nat.add_assoc]

theorem explain_eq (p : QueryPlan) : p.explain = Text.ofLines (p.entries.map PlacedEntry.line) := by
  have written := p.linesAt_eq 0
  simp only [PlacedEntry.under, Nat.zero_add] at written
  exact congrArg Text.ofLines written

/-- There is one entry for everything that is counted. -/
theorem length_entries (p : QueryPlan) : p.entries.length = p.size := by
  induction p using QueryPlan.induction with
  | step p inside =>
    have each : p.loaders.map (fun l => l.plan.entries.length + 1) = p.loaders.map fun l => l.plan.size + 1 :=
      List.map_congr_left fun l member => congrArg (· + 1) (inside l member)
    rw [size_eq, entries_eq, List.length_append, List.length_flatMap]
    simp only [List.length_cons, List.length_map, each, List.sum_map_add, ownEntries, List.length_append,
      List.map_const', List.sum_replicate_nat, Nat.mul_one]
    omega

/-- A plan is looked through query by query. -/
theorem oneLined_iff {p : QueryPlan} : p.OneLined ↔
    (∀ column ∈ p.select, Text.OneLine column) ∧ (∀ name ∈ p.virtuals, Text.OneLine name) ∧
      (∀ j ∈ p.joins, (PlanEntry.join j).OneLine) ∧
      ∀ l ∈ p.loaders, (PlanEntry.loader l.name l.manyJoin).OneLine ∧ l.plan.OneLined := by
  have own : (∀ x ∈ p.ownEntries, x.OneLine) ↔ (∀ column ∈ p.select, Text.OneLine column) ∧
      (∀ name ∈ p.virtuals, Text.OneLine name) ∧ ∀ j ∈ p.joins, (PlanEntry.join j).OneLine := by
    simp only [ownEntries, List.forall_mem_append, List.forall_mem_map, and_assoc]
    simp only [PlanEntry.OneLine, PlanEntry.texts, List.forall_mem_singleton]
  rw [OneLined, entries_eq, List.forall_mem_append, List.forall_mem_map, own, List.forall_mem_flatMap,
    and_assoc, and_assoc]
  simp only [List.forall_mem_cons, List.forall_mem_map]
  rfl

section Lines

variable {p : QueryPlan}

theorem oneLine_lines_iff : (∀ l ∈ p.entries.map PlacedEntry.line, Text.OneLine l) ↔ p.OneLined := by
  rw [List.forall_mem_map]
  exact forall₂_congr fun x _ => PlacedEntry.oneLine_line

theorem lines_explain_iff : Text.lines p.explain = p.entries.map PlacedEntry.line ↔ p.OneLined := by
  rw [explain_eq, Text.lines_ofLines_iff, oneLine_lines_iff]

theorem length_lines_explain_iff : (Text.lines p.explain).length = p.size ↔ p.OneLined := by
  rw [← length_entries, ← List.length_map PlacedEntry.line, explain_eq, Text.length_lines_ofLines_iff,
    oneLine_lines_iff]

end Lines

/-- The text of a plan and its entries. -/
structure TextExact (p : QueryPlan) : Prop where
  /-- Select entries, virtual fields, joins and loaders, and behind each loader what is inside it. -/
  ordered : p.entries = p.ownEntries.map (PlacedEntry.mk 0) ++
    p.loaders.flatMap fun l => ⟨0, .loader l.name l.manyJoin⟩ :: l.plan.entries.map (PlacedEntry.under 1)
  counted : p.entries.length = p.size
  written : p.explain = Text.ofLines (p.entries.map PlacedEntry.line)
  rendered : ∀ entity subset, PlanDocument.render ⟨entity, subset, p⟩ .text = p.explain
  lines : Text.lines p.explain = p.entries.map PlacedEntry.line ↔ p.OneLined
  number : (Text.lines p.explain).length = p.size ↔ p.OneLined

theorem textExact (p : QueryPlan) : p.TextExact where
  ordered := p.entries_eq
  counted := p.length_entries
  written := p.explain_eq
  rendered _ _ := rfl
  lines := lines_explain_iff
  number := length_lines_explain_iff

end QueryPlan
end FetchPlan
