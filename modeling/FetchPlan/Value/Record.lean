import FetchPlan.Value

/-! Records: values with a fixed set of named members. A record is written as a table, or as the
list of its members in order. -/
namespace FetchPlan

/-- The known members that were given, each once. -/
abbrev Record := List (String × Value)

/-- How a format treats what a record does not know. -/
structure Tolerance where
  /-- Items behind the last member are not looked at. Otherwise they are refused. -/
  surplusItems : Bool
  /-- Unknown members may be unreadable. -/
  unreadableMembers : Bool
  deriving DecidableEq, Repr

namespace Tolerance

def json : Tolerance := ⟨false, true⟩

def toml : Tolerance := ⟨true, false⟩

end Tolerance

namespace Record

/-- Keeps the known members of a table. One that is given twice is refused, others are ignored. -/
def ofMembers? (names : List String) (members : List (String × Value)) : Option Record :=
  let known := members.filter (·.1 ∈ names)
  if (known.map (·.1)).Nodup then some known else none

/-- Names the members of a list. Those missing at its end are left out, and more items than
names are refused. -/
def ofItems? (names : List String) (items : List Value) : Option Record :=
  if items.length ≤ names.length then some (names.zip items) else none

def ofValue? (tolerance : Tolerance) (names : List String) : Value → Option Record
  | .table members =>
    if tolerance.unreadableMembers || members.all fun m => m.1 ∈ names || m.2.isReadable then
      ofMembers? names members
    else none
  | .list items =>
    ofItems? names (if tolerance.surplusItems then items.take names.length else items)
  | _ => none

def required (r : Record) (name : String) (read : Value → Option α) : Option α :=
  (r.lookup name).bind read

def withDefault (r : Record) (name : String) (default : α) (read : Value → Option α) : Option α :=
  match r.lookup name with
  | none => some default
  | some v => read v

def optional (r : Record) (name : String) (read : Value → Option α) : Option (Option α) :=
  match r.lookup name with
  | none | some .null => some none
  | some v => (read v).map some

end Record
end FetchPlan
