import FetchPlan.Value

/-! JSON text of values. Only quotes, backslashes and the characters below the space are escaped. -/
namespace FetchPlan.Json

def hexDigit (n : Nat) : Char := Char.ofNat (if n < 10 then '0'.toNat + n else 'a'.toNat + (n - 10))

def escapeChar (c : Char) : List Char :=
  if c = '"' then ['\\', '"']
  else if c = '\\' then ['\\', '\\']
  else if c = '\x08' then ['\\', 'b']
  else if c = '\x0c' then ['\\', 'f']
  else if c = '\n' then ['\\', 'n']
  else if c = '\r' then ['\\', 'r']
  else if c = '\t' then ['\\', 't']
  else if c.toNat < 0x20 then
    ['\\', 'u', '0', '0', hexDigit (c.toNat / 16), hexDigit (c.toNat % 16)]
  else [c]

def quoted (s : String) : List Char := '"' :: (s.toList.flatMap escapeChar ++ ['"'])

/-- Where white space goes: before an item or a closing bracket at some depth, and after a colon. -/
structure Layout where
  line : Nat → List Char
  gap : List Char

def Layout.compact : Layout := ⟨fun _ => [], []⟩

def Layout.indented : Layout := ⟨fun depth => '\n' :: List.replicate (2 * depth) ' ', [' ']⟩

mutual

def Layout.print (l : Layout) (depth : Nat) : Value → List Char
  | .null => ['n', 'u', 'l', 'l']
  | .bool true => ['t', 'r', 'u', 'e']
  | .bool false => ['f', 'a', 'l', 's', 'e']
  | .integer n => (toString n).toList
  | .real literal => literal.toList
  | .text s => quoted s
  | .list [] => ['[', ']']
  | .list (v :: rest) =>
    '[' :: (l.line (depth + 1) ++ l.print (depth + 1) v ++ l.printItems (depth + 1) rest ++
      l.line depth ++ [']'])
  | .table [] => ['\x7b', '\x7d']
  | .table ((key, v) :: rest) =>
    '\x7b' :: (l.line (depth + 1) ++ quoted key ++ [':'] ++ l.gap ++ l.print (depth + 1) v ++
      l.printMembers (depth + 1) rest ++ l.line depth ++ ['\x7d'])
  | .unreadable => ['"', '\\', 'u', 'd', '8', '0', '0', '"']

/-- The items after the first, each behind a comma. -/
def Layout.printItems (l : Layout) (depth : Nat) : List Value → List Char
  | [] => []
  | v :: rest => ',' :: (l.line depth ++ l.print depth v ++ l.printItems depth rest)

def Layout.printMembers (l : Layout) (depth : Nat) : List (String × Value) → List Char
  | [] => []
  | (key, v) :: rest =>
    ',' :: (l.line depth ++ quoted key ++ [':'] ++ l.gap ++ l.print depth v ++
      l.printMembers depth rest)

end

def compact (v : Value) : String := String.ofList (Layout.compact.print 0 v)

def indented (v : Value) : String := String.ofList (Layout.indented.print 0 v)

end FetchPlan.Json
