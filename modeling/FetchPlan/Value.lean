/-! Values as the file formats write them, before they are read as definitions or settings. -/
namespace FetchPlan

inductive Value where
  | null
  | bool (b : Bool)
  | integer (n : Int)
  /-- Any other number, as it was written. -/
  | real (literal : String)
  | text (s : String)
  | list (items : List Value)
  /-- Members in the order written. A key may be repeated. -/
  | table (members : List (String × Value))
  /-- Correctly written, but not a value: text with half a character in it, a table with such a
  key, or a number without digits or out of all range. It may be skipped and nothing else. -/
  | unreadable
  deriving Repr, BEq, Inhabited

namespace Value

mutual

/-- Whether a test holds of every value that is neither list nor table and lies in a value. -/
def allLeaves (test : Value → Bool) : Value → Bool
  | .list items => allLeavesOfItems test items
  | .table members => allLeavesOfMembers test members
  | v => test v

def allLeavesOfItems (test : Value → Bool) : List Value → Bool
  | [] => true
  | v :: rest => v.allLeaves test && allLeavesOfItems test rest

def allLeavesOfMembers (test : Value → Bool) : List (String × Value) → Bool
  | [] => true
  | (_, v) :: rest => v.allLeaves test && allLeavesOfMembers test rest

end

/-- Whether no part of a value is unreadable. -/
def isReadable (v : Value) : Bool :=
  v.allLeaves fun
    | .unreadable => false
    | _ => true

/-- Whether a value can be kept as it is: no part is unreadable, and every integer fits 64 bits,
with a sign or without. -/
def isSound (v : Value) : Bool :=
  v.allLeaves fun
    | .unreadable => false
    | .integer n => -Int.ofNat (Nat.pow 2 63) ≤ n && n < Int.ofNat UInt64.size
    | _ => true

mutual

/-- How many lists and tables are nested in a value, itself among them. -/
def depth : Value → Nat
  | .list items => depthOfAll items + 1
  | .table members => depthOfMembers members + 1
  | _ => 0

def depthOfAll : List Value → Nat
  | [] => 0
  | v :: rest => max v.depth (depthOfAll rest)

def depthOfMembers : List (String × Value) → Nat
  | [] => 0
  | (_, v) :: rest => max v.depth (depthOfMembers rest)

end

def ofTexts (l : List String) : Value := .list (l.map .text)

/-- A member that is left out when there is nothing to write. -/
def optionalMember (key : String) (write : α → Value) : Option α → List (String × Value)
  | none => []
  | some a => [(key, write a)]

def text? : Value → Option String
  | .text s => some s
  | _ => none

def bool? : Value → Option Bool
  | .bool b => some b
  | _ => none

/-- An integer from zero up to and without the bound. -/
def natBelow? (bound : Nat) : Value → Option Nat
  | .integer n => if 0 ≤ n ∧ n < bound then some n.toNat else none
  | _ => none

def listOf? (item : Value → Option α) : Value → Option (List α)
  | .list items => items.mapM item
  | _ => none

def texts? : Value → Option (List String) := listOf? text?

/-- A name, or a table with the name as its only key and nothing behind it. What counts as
nothing depends on the format. -/
def choice? (nothing : Value → Bool) : Value → Option String
  | .text name => some name
  | .table [(name, v)] => if nothing v then some name else none
  | _ => none

end Value
end FetchPlan
