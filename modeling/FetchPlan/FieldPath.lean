import FetchPlan.Text.Split

/-! Dotted field paths. A path is the list of its segments; the empty list is the
root of a query. -/
namespace FetchPlan

abbrev FieldPath := List String

/-- The segments of a dotted text. The empty text names the root. -/
def FieldPath.ofDotted (s : String) : FieldPath :=
  if s = "" then [] else Text.split '.' s

def FieldPath.dotted (p : FieldPath) : String := Text.join "." p

end FetchPlan
