/-! Digits and the numbers they write, with fractions and exponents. -/
namespace FetchPlan.Text

/-- The value of a digit, up to and without the base. Letters of both cases follow nine. -/
def digit? (base : Nat) (c : Char) : Option Nat :=
  let d :=
    if '0' ≤ c ∧ c ≤ '9' then c.toNat - '0'.toNat
    else if 'a' ≤ c ∧ c ≤ 'z' then c.toNat - 'a'.toNat + 10
    else if 'A' ≤ c ∧ c ≤ 'Z' then c.toNat - 'A'.toNat + 10
    else base
  if d < base then some d else none

def number? (base : Nat) (digits : List Char) : Option Nat :=
  if digits.isEmpty then none
  else digits.foldlM (fun n c => (digit? base c).map (base * n + ·)) 0

def isDecimal (c : Char) : Bool := (digit? 10 c).isSome

/-- The number that decimal digits write; other characters are passed over. -/
def decimal (digits : List Char) : Nat :=
  digits.foldl (fun n c => match digit? 10 c with | some d => 10 * n + d | none => n) 0

def exponent? : List Char → Option Int
  | [] => some 0
  | mark :: rest =>
    if mark ≠ 'e' ∧ mark ≠ 'E' then none
    else match rest with
      | '-' :: digits => (number? 10 digits).map fun n => -Int.ofNat n
      | '+' :: digits => (number? 10 digits).map Int.ofNat
      | digits => (number? 10 digits).map Int.ofNat

/-- The digits of a fraction with its point, or nothing, and what follows. -/
def fraction? : List Char → Option (List Char × List Char)
  | '.' :: rest =>
    let digits := rest.takeWhile isDecimal
    if digits.isEmpty then none else some (digits, rest.dropWhile isDecimal)
  | rest => some ([], rest)

end FetchPlan.Text
