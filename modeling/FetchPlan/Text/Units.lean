/-! Text given in units of 16 bits. Two units, a lead and a trail, stand for one character
beyond the first 65536. -/
namespace FetchPlan.Text

def isLead (unit : Nat) : Bool := 0xD800 ≤ unit && unit < 0xDC00

def isTrail (unit : Nat) : Bool := 0xDC00 ≤ unit && unit < 0xE000

def paired (lead trail : Nat) : Char :=
  Char.ofNat (0x10000 + (lead - 0xD800) * 0x400 + (trail - 0xDC00))

/-- The characters of some units. Numbers beyond the units stand for themselves; a lead or a
trail without the other has no character. -/
def charsOfUnits : List Nat → Option (List Char)
  | [] => some []
  | [u] => if isLead u || isTrail u then none else some [Char.ofNat u]
  | u :: t :: rest =>
    if isLead u then
      if isTrail t then (charsOfUnits rest).map (paired u t :: ·) else none
    else if isTrail u then none
    else (charsOfUnits (t :: rest)).map (Char.ofNat u :: ·)

end FetchPlan.Text
