import FetchPlan.Text.Double
import FetchPlan.Text.Split
import FetchPlan.Toml.Moment
import FetchPlan.Value

/-! TOML values outside of quotes: truth values, numbers, dates and times. The first characters of a
number tell which kind it is. One that is written as its kind demands and still has no value
is unreadable. -/
namespace FetchPlan.Toml

def startsWith (test : Char → Bool) (s : List Char) : Bool := s.head?.any test

def endsWith (test : Char → Bool) (s : List Char) : Bool := s.getLast?.any test

/-- Leaves out underscores, each of which must have a digit on both sides. What else stands between
them is not looked at. -/
def ungrouped? (isDigit : Char → Bool) (s : List Char) : Option (List Char) :=
  let groups := Text.pieces '_' s
  if groups.all (startsWith isDigit) && groups.dropLast.all (endsWith isDigit) then
    some groups.flatten
  else none

def isHexadecimal (c : Char) : Bool := (Text.digit? 16 c).isSome

/-- An integer fits 128 bits, with a sign or without. -/
def integerValue (n : Int) : Value :=
  if -Int.ofNat (Nat.pow 2 127) ≤ n ∧ n < Int.ofNat (Nat.pow 2 128) then .integer n else .unreadable

/-- A decimal integer behind its sign has no leading zeros. Between its underscores may be
hexadecimal digits, although it has no value then. -/
def integer? (sign : Option Char) (s : List Char) : Option Value :=
  if s.head? = some '0' && s.length > 1 then none
  else (ungrouped? isHexadecimal s).map fun digits =>
    match Text.number? 10 digits with
    | none => .unreadable
    | some n => integerValue (if sign = some '-' then -Int.ofNat n else n)

/-- A real number behind its sign begins with a digit and has no leading zeros. -/
def real? (s : List Char) : Option Value := do
  let digits ← ungrouped? Text.isDecimal s
  let whole := digits.takeWhile Text.isDecimal
  if whole.isEmpty || (whole.head? = some '0' && whole.length > 1) then none
  let (fraction, rest) ← Text.fraction? (digits.dropWhile Text.isDecimal)
  let exponent ← Text.exponent? rest
  if Text.fitsDouble (whole ++ fraction) (exponent - fraction.length) then
    pure (.real (String.ofList digits))
  else pure .unreadable

/-- A date or time counts as a table with one member that no record knows. -/
def momentValue (s : List Char) : Value := .table [("date-time", .text (String.ofList s))]

/-- A number behind its sign, or a date or time, which has no sign. What follows the first digits
decides. -/
def number? (sign : Option Char) (s : List Char) : Option Value :=
  if s = ['i', 'n', 'f'] || s = ['n', 'a', 'n'] then some (.real (String.ofList s))
  else match s.dropWhile Text.isDecimal with
    | [] => integer? sign s
    | c :: rest =>
      if c = '-' || c = ':' then
        if sign.isNone && isMoment s then some (momentValue s) else none
      else if ' ' ∈ rest then none
      else if (c :: rest).any (· ∈ ['.', 'e', 'E']) then real? s
      else if c = '_' then integer? sign s
      else none

/-- An integer to a base other than ten, behind a zero and a letter. Without any digits it has no
value. -/
def based? (base : Nat) (s : List Char) : Option Value :=
  if s.isEmpty then some .unreadable
  else do
    let digits ← ungrouped? (fun c => (Text.digit? base c).isSome) s
    let n ← Text.number? base digits
    pure (integerValue n)

def scalar? : List Char → Option Value
  | ['t', 'r', 'u', 'e'] => some (.bool true)
  | ['f', 'a', 'l', 's', 'e'] => some (.bool false)
  | '0' :: 'x' :: rest => based? 16 rest
  | '0' :: 'o' :: rest => based? 8 rest
  | '0' :: 'b' :: rest => based? 2 rest
  | '+' :: rest => number? (some '+') rest
  | '-' :: rest => number? (some '-') rest
  | word => number? none word

end FetchPlan.Toml
