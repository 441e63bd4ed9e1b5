/-! Sorting by a key. -/
namespace FetchPlan

/-- Puts a value before the first one whose key is not smaller. -/
def insertOn [LT κ] [DecidableLT κ] (key : α → κ) (a : α) : List α → List α
  | [] => [a]
  | b :: rest => if key b < key a then b :: insertOn key a rest else a :: b :: rest

/-- Sorts by a key; values of equal keys keep their order. -/
def sortOn [LT κ] [DecidableLT κ] (key : α → κ) : List α → List α
  | [] => []
  | a :: rest => insertOn key a (sortOn key rest)

end FetchPlan
