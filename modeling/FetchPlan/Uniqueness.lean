import FetchPlan.Entity

/-! The columns an entity declares unique, one by one and as constraints. -/
namespace FetchPlan

/-- The declared column and its partners, for a declaration that is in force. -/
def Field.uniqueColumns? (f : Field) : Option (List String) :=
  match f.unique with
  | some u => if u.inForce then some (f.ownColumn :: u.partners) else none
  | none => none

/-- The list with later repetitions left out. -/
def distinct [DecidableEq α] (l : List α) : List α :=
  l.foldl (fun kept a => if a ∈ kept then kept else kept ++ [a]) []

def sortedDistinct (l : List String) : List String :=
  (SortedMap.ofList (l.map fun a => (a, ()))).keys

namespace Entity

def declaredUnique (e : Entity) : List (List String) := e.fields.filterMap Field.uniqueColumns?

/-- Columns under any uniqueness declaration, in declaration order. -/
def uniqueColumns (e : Entity) : List String := distinct e.declaredUnique.flatten

/-- The column sets that must be unique. The same set declared twice is one constraint. -/
def uniqueConstraints (e : Entity) : List (List String) :=
  distinct (e.declaredUnique.map sortedDistinct)

end Entity
end FetchPlan
