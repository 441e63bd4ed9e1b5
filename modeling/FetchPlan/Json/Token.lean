import FetchPlan.Text.Double
import FetchPlan.Text.Units
import FetchPlan.Value

/-! The tokens of JSON, read one character at a time. -/
namespace FetchPlan.Json

inductive Token where
  | beginList | endList | beginTable | endTable | comma | colon
  /-- Quoted text, or none if an escape in it is half a character. -/
  | text (s : Option String)
  | scalar (v : Value)
  deriving Repr, BEq

def punctuation? : Char → Option Token
  | '[' => some .beginList
  | ']' => some .endList
  | '\x7b' => some .beginTable
  | '\x7d' => some .endTable
  | ',' => some .comma
  | ':' => some .colon
  | _ => none

def isGap (c : Char) : Bool := c = ' ' || c = '\n' || c = '\r' || c = '\t'

/-- An integer must fit 64 bits, with a sign or without, to be kept as one; minus zero and all
that is larger counts as a real number. -/
def numberValue (negative : Bool) (whole fraction : List Char) (exponent : Int) (isWhole : Bool)
    (literal : String) : Value :=
  let n := Text.decimal whole
  if isWhole && negative && 0 < n && n ≤ Nat.pow 2 63 then .integer (-Int.ofNat n)
  else if isWhole && !negative && n < UInt64.size then .integer n
  else if Text.fitsDoubleInSteps whole fraction exponent then .real literal
  else .unreadable

/-- A number has no leading zeros, and a digit on each side of its point. -/
def number? (word : List Char) : Option Value := do
  let negative := word.head? = some '-'
  let unsigned := if negative then word.tail else word
  let whole := unsigned.takeWhile Text.isDecimal
  if whole.isEmpty || (whole.head? = some '0' && whole.length > 1) then none
  let rest := unsigned.dropWhile Text.isDecimal
  let (fraction, mark) ← Text.fraction? rest
  let exponent ← Text.exponent? mark
  pure (numberValue negative whole fraction exponent rest.isEmpty (String.ofList word))

def word? (word : List Char) : Option Value :=
  if word = ['n', 'u', 'l', 'l'] then some .null
  else if word = ['t', 'r', 'u', 'e'] then some (.bool true)
  else if word = ['f', 'a', 'l', 's', 'e'] then some (.bool false)
  else number? word

def escaped? : Char → Option Char
  | '"' => some '"'
  | '\\' => some '\\'
  | '/' => some '/'
  | 'b' => some '\x08'
  | 'f' => some '\x0c'
  | 'n' => some '\n'
  | 'r' => some '\r'
  | 't' => some '\t'
  | _ => none

/-- What has been read of a token. Characters and units stand latest first. -/
inductive Pending where
  | nothing
  | word (read : List Char)
  | text (units : List Nat)
  | escape (units : List Nat)
  /-- An escaped unit of which some digits are missing. -/
  | unit (units : List Nat) (missing : Nat) (read : Nat)
  deriving Repr, BEq

/-- The tokens read so far, latest first. -/
structure Scanner where
  tokens : List Token := []
  pending : Pending := .nothing
  deriving Repr, BEq

namespace Scanner

/-- The tokens once a word has ended. Text must be closed. -/
def finish (s : Scanner) : Option (List Token) :=
  match s.pending with
  | .nothing => some s.tokens
  | .word read => (word? read.reverse).map fun v => .scalar v :: s.tokens
  | .text _ | .escape _ | .unit .. => none

def stepText (tokens : List Token) (units : List Nat) (c : Char) : Option Scanner :=
  if c = '"' then
    some { tokens := .text ((Text.charsOfUnits units.reverse).map String.ofList) :: tokens }
  else if c = '\\' then some { tokens, pending := .escape units }
  else if c.toNat < 0x20 then none
  else some { tokens, pending := .text (c.toNat :: units) }

def stepEscape (tokens : List Token) (units : List Nat) (c : Char) : Option Scanner :=
  if c = 'u' then some { tokens, pending := .unit units 4 0 }
  else (escaped? c).map fun e => { tokens, pending := .text (e.toNat :: units) }

def stepUnit (tokens : List Token) (units : List Nat) (missing read : Nat) (c : Char) :
    Option Scanner :=
  (Text.digit? 16 c).map fun d =>
    if missing ≤ 1 then { tokens, pending := .text ((16 * read + d) :: units) }
    else { tokens, pending := .unit units (missing - 1) (16 * read + d) }

/-- A character outside of text ends the word before it, unless it belongs to it. -/
def stepOutside (s : Scanner) (read : List Char) (c : Char) : Option Scanner :=
  if c = '"' then s.finish.map fun tokens => { tokens, pending := .text [] }
  else if isGap c then s.finish.map fun tokens => { tokens }
  else match punctuation? c with
    | some t => s.finish.map fun tokens => { tokens := t :: tokens }
    | none => some { s with pending := .word (c :: read) }

def step (s : Scanner) (c : Char) : Option Scanner :=
  match s.pending with
  | .nothing => s.stepOutside [] c
  | .word read => s.stepOutside read c
  | .text units => stepText s.tokens units c
  | .escape units => stepEscape s.tokens units c
  | .unit units missing read => stepUnit s.tokens units missing read c

end Scanner

def tokens? (s : List Char) : Option (List Token) := do
  let scanner ← s.foldlM Scanner.step {}
  let tokens ← scanner.finish
  pure tokens.reverse

end FetchPlan.Json
