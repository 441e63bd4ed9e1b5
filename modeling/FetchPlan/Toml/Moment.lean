import FetchPlan.Text.Digits

/-! Dates and times as TOML writes them: a date, a time of day, or both with or without an offset
from universal time. -/
namespace FetchPlan.Toml

def isLeapYear (year : Nat) : Bool := (year % 4 = 0 && year % 100 ≠ 0) || year % 400 = 0

def daysInMonth (year month : Nat) : Nat :=
  if month = 2 then if isLeapYear year then 29 else 28
  else if month ∈ [4, 6, 9, 11] then 30
  else 31

/-- A number of two digits, up to a limit, and what follows. -/
def twoDigits? (limit : Nat) : List Char → Option (Nat × List Char)
  | a :: b :: rest => do
    let n ← Text.number? 10 [a, b]
    if n ≤ limit then pure (n, rest) else none
  | _ => none

def afterDate? : List Char → Option (List Char)
  | a :: b :: c :: d :: '-' :: rest => do
    let year ← Text.number? 10 [a, b, c, d]
    let (month, rest) ← twoDigits? 12 rest
    match rest with
    | '-' :: rest => do
      let (day, rest) ← twoDigits? (daysInMonth year month) rest
      if month = 0 || day = 0 then none else pure rest
    | _ => none
  | _ => none

/-- What follows the fraction of a second, if there is one. -/
def afterFraction? : List Char → Option (List Char)
  | '.' :: rest =>
    if (rest.takeWhile Text.isDecimal).isEmpty then none else some (rest.dropWhile Text.isDecimal)
  | rest => some rest

/-- What follows the seconds, if there are some. The sixtieth is a leap second. -/
def afterSeconds? : List Char → Option (List Char)
  | ':' :: rest => do
    let (_, rest) ← twoDigits? 60 rest
    afterFraction? rest
  | rest => some rest

def afterClock? (s : List Char) : Option (List Char) := do
  let (_, rest) ← twoDigits? 23 s
  match rest with
  | ':' :: rest => do
    let (_, rest) ← twoDigits? 59 rest
    pure rest
  | _ => none

def afterTime? (s : List Char) : Option (List Char) := do
  let rest ← afterClock? s
  afterSeconds? rest

def afterOffset? : List Char → Option (List Char)
  | [] => some []
  | c :: rest =>
    if c = 'Z' || c = 'z' then some rest
    else if c = '+' || c = '-' then afterClock? rest
    else none

/-- Between date and time stands the letter T or a space. -/
def isMoment (s : List Char) : Bool :=
  afterTime? s = some [] || match afterDate? s with
    | none => false
    | some [] => true
    | some (delimiter :: rest) =>
      (delimiter = 'T' || delimiter = 't' || delimiter = ' ') &&
        ((afterTime? rest).bind afterOffset?) = some []

end FetchPlan.Toml
