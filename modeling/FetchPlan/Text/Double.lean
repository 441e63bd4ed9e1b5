import FetchPlan.Text.Digits

/-! Which decimal numbers stay finite as binary numbers of double precision. A number that is
rounded once may do so where one that is rounded in steps does not. -/
namespace FetchPlan.Text

/-- From here on numbers round to infinity. -/
def doubleBound : Nat := Nat.pow 2 1024 - Nat.pow 2 970

/-- Whether `digits · 10^exponent`, rounded once, is finite. -/
def fitsDouble (digits : List Char) (exponent : Int) : Bool :=
  let significant := digits.dropWhile (· = '0')
  let magnitude := significant.length + exponent
  if significant.isEmpty || magnitude < 309 then true
  else if magnitude > 309 then false
  else decimal significant * Nat.pow 10 (309 - significant.length) <
    doubleBound * Nat.pow 10 (significant.length - 309)

/-- The nearest number with 53 binary digits, and of two the even one. -/
def roundToDouble (n : Nat) : Nat :=
  let unit := Nat.pow 2 (n.log2 - 52)
  let low := n / unit
  let rest := 2 * (n % unit)
  if unit < rest || (rest = unit && low % 2 = 1) then (low + 1) * unit else low * unit

/-- Writes digits behind a number as long as it fits 64 bits, and gives the digits left over. -/
def appendDigits (n : Nat) : List Char → Nat × List Char
  | [] => (n, [])
  | c :: rest =>
    match digit? 10 c with
    | none => (n, c :: rest)
    | some d => if 10 * n + d < UInt64.size then appendDigits (10 * n + d) rest else (n, c :: rest)

/-- Whether `whole.fraction · 10^exponent` is finite as the product of its first digits, as many
as fit 64 bits, and a power of ten, all three rounded. -/
def fitsDoubleInSteps (whole fraction : List Char) (exponent : Int) : Bool :=
  let (n, left) := appendDigits 0 whole
  let (n, skipped) := appendDigits n fraction
  let exponent := exponent + left.length - fraction.length + skipped.length
  n = 0 || exponent < 0 ||
    (exponent ≤ 308 && roundToDouble n * roundToDouble (Nat.pow 10 exponent.toNat) < doubleBound)

end FetchPlan.Text
