import FetchPlan.Json.Token

/-! JSON values from their tokens. The reader keeps the lists and tables that are still open, so
that nesting has no limit. -/
namespace FetchPlan.Json

/-- An open list or table and what it holds so far, latest first. -/
inductive Frame where
  | list (items : List Value)
  /-- The table waits for the value of `key`. -/
  | table (members : List (Option String × Value)) (key : Option String)
  deriving Repr, BEq

/-- What may come next, and the open lists and tables, innermost first. -/
inductive Stage where
  | value (frames : List Frame)
  | firstItem (frames : List Frame)
  | firstKey (frames : List Frame)
  | key (members : List (Option String × Value)) (frames : List Frame)
  | colon (members : List (Option String × Value)) (key : Option String) (frames : List Frame)
  | complete (v : Value) (frames : List Frame)
  deriving Repr, BEq

def textValue : Option String → Value
  | some s => .text s
  | none => .unreadable

/-- A table with a key that is no text cannot be read. -/
def tableValue (members : List (Option String × Value)) : Value :=
  match members.mapM fun m => m.1.map fun key => (key, m.2) with
  | some members => .table members
  | none => .unreadable

namespace Stage

def start (frames : List Frame) : Token → Option Stage
  | .beginList => some (.firstItem frames)
  | .beginTable => some (.firstKey frames)
  | .text s => some (.complete (textValue s) frames)
  | .scalar v => some (.complete v frames)
  | .endList | .endTable | .comma | .colon => none

def step : Stage → Token → Option Stage
  | .value frames, t => start frames t
  | .firstItem frames, .endList => some (.complete (.list []) frames)
  | .firstItem frames, t => start (.list [] :: frames) t
  | .firstKey frames, .endTable => some (.complete (.table []) frames)
  | .firstKey frames, .text name => some (.colon [] name frames)
  | .key members frames, .text name => some (.colon members name frames)
  | .colon members name frames, .colon => some (.value (.table members name :: frames))
  | .complete v (.list items :: frames), .comma => some (.value (.list (v :: items) :: frames))
  | .complete v (.list items :: frames), .endList =>
    some (.complete (.list (v :: items).reverse) frames)
  | .complete v (.table members name :: frames), .comma => some (.key ((name, v) :: members) frames)
  | .complete v (.table members name :: frames), .endTable =>
    some (.complete (tableValue ((name, v) :: members).reverse) frames)
  | _, _ => none

end Stage

/-- The value that a text writes. Repeated keys are kept. -/
def read (s : String) : Option Value := do
  let tokens ← tokens? s.toList
  match ← tokens.foldlM Stage.step (.value []) with
  | .complete v [] => pure v
  | _ => none

end FetchPlan.Json
