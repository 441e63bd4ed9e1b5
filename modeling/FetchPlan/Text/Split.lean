/-! Cutting text at a separator and joining it again. Everything is stated on lists
of characters; the `String` forms only wrap them. -/
namespace FetchPlan.Text

/-- The stretches between separators. There is always one more than there are separators. -/
def pieces [DecidableEq α] (sep : α) : List α → List (List α)
  | [] => [[]]
  | a :: rest =>
    if a = sep then [] :: pieces sep rest
    else match pieces sep rest with
      | [] => [[a]]
      | p :: ps => (a :: p) :: ps

def split (sep : Char) (s : String) : List String :=
  (pieces sep s.toList).map String.ofList

def join (sep : String) : List String → String
  | [] => ""
  | [s] => s
  | s :: t :: rest => s ++ sep ++ join sep (t :: rest)

/-- What stands before and after the first occurrence of a word. -/
def cut (word : List Char) : List Char → Option (List Char × List Char)
  | [] => if word.isEmpty then some ([], []) else none
  | c :: rest =>
    if word.isPrefixOf (c :: rest) then some ([], (c :: rest).drop word.length)
    else (cut word rest).map fun (before, after) => (c :: before, after)

def cutOnce (word s : String) : Option (String × String) :=
  (cut word.toList s.toList).map fun (before, after) => (String.ofList before, String.ofList after)

/-- The part before the last occurrence of a character, and the part after it. -/
def cutLast (sep : Char) (s : String) : Option (String × String) :=
  let reversed := s.toList.reverse
  match reversed.dropWhile (· ≠ sep) with
  | [] => none
  | _ :: before =>
    some (String.ofList before.reverse, String.ofList (reversed.takeWhile (· ≠ sep)).reverse)

end FetchPlan.Text
