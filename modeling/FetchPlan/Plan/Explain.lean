import FetchPlan.Plan.Basic

/-! Plans as text, one line for each entry and two spaces for each loader around it. -/
namespace FetchPlan

def JoinPredicate.text : JoinPredicate → String
  | .columns left right => left ++ " = " ++ right
  | .custom text => text

def Join.text (j : Join) : String :=
  s!"LEFT OUTER JOIN {j.table} AS {j.name} ON " ++ j.predicate.text

def ManyJoin.text (m : ManyJoin) : String :=
  let source := m.fromTable ++ "." ++ m.fromColumn
  let target := m.toTable ++ "." ++ m.toColumn
  let path := match m.through with
    | none => s!"{source} = {target}"
    | some t => s!"{source} = {t.table}.{t.fromColumn}, {t.table}.{t.toColumn} = {target}"
  s!"{path} [{m.idField}]"

def indent (depth : Nat) : String := String.ofList (List.replicate (2 * depth) ' ')

def entryLines (depth : Nat) (select virtuals : List String) (joins : List Join) : List String :=
  select.map (fun column => indent depth ++ "select " ++ column) ++
    virtuals.map (fun name => indent depth ++ "virtual " ++ name) ++
    joins.map (fun join => indent depth ++ join.text)

mutual

def Loader.lines (depth : Nat) : Loader → List String
  | ⟨name, _, manyJoin, joins, select, virtuals, loaders⟩ =>
    (indent depth ++ s!"loader {name} via " ++ manyJoin.text) ::
      (entryLines (depth + 1) select virtuals joins ++ Loader.linesAll (depth + 1) loaders)

def Loader.linesAll (depth : Nat) : List Loader → List String
  | [] => []
  | l :: rest => l.lines depth ++ Loader.linesAll depth rest

end

def QueryPlan.lines (p : QueryPlan) : List String :=
  entryLines 0 p.select p.virtuals p.joins ++ Loader.linesAll 0 p.loaders

def QueryPlan.explain (p : QueryPlan) : String := String.join (p.lines.map (· ++ "\n"))

end FetchPlan
