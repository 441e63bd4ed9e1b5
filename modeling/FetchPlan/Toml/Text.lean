import FetchPlan.Text.Digits

/-! Quoted text in TOML. Each reader starts behind the opening quotes and gives what follows the
closing ones. Where there is fuel, one unit is used for a character at most. -/
namespace FetchPlan.Toml

/-- Characters that stand nowhere in a document except as line ends. -/
def isControl (c : Char) : Bool := (c.toNat < 0x20 && c ≠ '\t') || c.toNat = 0x7F

/-- The character with a code point, unless that is half a character or beyond all. -/
def charOfCode? (code : Nat) : Option Char :=
  if code.isValidChar then some (Char.ofNat code) else none

def codeOf? (digits : List Char) : Option Char := (Text.number? 16 digits).bind charOfCode?

/-- The character that an escape stands for, and what follows it. -/
def escape? : List Char → Option (Char × List Char)
  | 'b' :: rest => some ('\x08', rest)
  | 't' :: rest => some ('\t', rest)
  | 'n' :: rest => some ('\n', rest)
  | 'f' :: rest => some ('\x0c', rest)
  | 'r' :: rest => some ('\r', rest)
  | 'e' :: rest => some ('\x1b', rest)
  | '"' :: rest => some ('"', rest)
  | '\\' :: rest => some ('\\', rest)
  | 'x' :: a :: b :: rest => (codeOf? [a, b]).map (·, rest)
  | 'u' :: a :: b :: c :: d :: rest => (codeOf? [a, b, c, d]).map (·, rest)
  | 'U' :: a :: b :: c :: d :: e :: f :: g :: h :: rest =>
    (codeOf? [a, b, c, d, e, f, g, h]).map (·, rest)
  | _ => none

def readLiteral : List Char → Option (List Char × List Char)
  | [] => none
  | c :: rest =>
    if c = '\'' then some ([], rest)
    else if isControl c then none
    else (readLiteral rest).map fun (text, rest) => (c :: text, rest)

/-- Text between double quotes, on one line. -/
def readBasic : Nat → List Char → Option (List Char × List Char)
  | 0, _ | _, [] => none
  | fuel + 1, c :: rest =>
    if c = '"' then some ([], rest)
    else if c = '\\' then do
      let (e, rest) ← escape? rest
      let (text, rest) ← readBasic fuel rest
      pure (e :: text, rest)
    else if isControl c then none
    else (readBasic fuel rest).map fun (text, rest) => (c :: text, rest)

/-- A line end, which is a line feed with or without a carriage return before it. -/
def lineEnd? : List Char → Option (List Char × List Char)
  | '\n' :: rest => some (['\n'], rest)
  | '\r' :: '\n' :: rest => some (['\r', '\n'], rest)
  | _ => none

def isGap (c : Char) : Bool := c = ' ' || c = '\t'

def dropGap (s : List Char) : List Char := s.dropWhile isGap

def dropLastGap (s : List Char) : List Char := (dropGap s.reverse).reverse

def isQuote (c : Char) : Bool := c = '"' || c = '\''

/-- A block of text may start on the line after its quotes. -/
def dropLineEnd (s : List Char) : List Char := ((lineEnd? s).map (·.2)).getD s

/-- The text that closing quotes end. Up to two quotes before the closing three belong to it. -/
def closeBlock? (quote : Char) (s : List Char) : Option (List Char × List Char) :=
  let quotes := s.takeWhile (· = quote)
  if quotes.length < 3 then none
  else
    let kept := min (quotes.length - 3) 2
    some (List.replicate kept quote, s.drop (kept + 3))

def readLiteralBlock : Nat → List Char → Option (List Char × List Char)
  | 0, _ | _, [] => none
  | fuel + 1, c :: rest =>
    match closeBlock? '\'' (c :: rest) with
    | some closed => some closed
    | none => match lineEnd? (c :: rest) with
      | some (ended, rest) => (readLiteralBlock fuel rest).map fun (text, rest) => (ended ++ text, rest)
      | none =>
        if isControl c then none
        else (readLiteralBlock fuel rest).map fun (text, rest) => (c :: text, rest)

def dropBlank : Nat → List Char → List Char
  | 0, s => s
  | fuel + 1, s =>
    let s := dropGap s
    match lineEnd? s with
    | some (_, rest) => dropBlank fuel rest
    | none => s

/-- Text between three double quotes. A backslash at the end of a line joins it with the next
text. -/
def readBasicBlock : Nat → List Char → Option (List Char × List Char)
  | 0, _ | _, [] => none
  | fuel + 1, c :: rest =>
    match closeBlock? '"' (c :: rest) with
    | some closed => some closed
    | none =>
      if c = '\\' then
        match lineEnd? (dropGap rest) with
        | some (_, next) => readBasicBlock fuel (dropBlank fuel next)
        | none => do
          let (e, rest) ← escape? rest
          let (text, rest) ← readBasicBlock fuel rest
          pure (e :: text, rest)
      else match lineEnd? (c :: rest) with
        | some (ended, rest) => (readBasicBlock fuel rest).map fun (text, rest) => (ended ++ text, rest)
        | none =>
          if isControl c then none
          else (readBasicBlock fuel rest).map fun (text, rest) => (c :: text, rest)

def readText (fuel : Nat) : List Char → Option (List Char × List Char)
  | '"' :: '"' :: '"' :: rest => readBasicBlock fuel (dropLineEnd rest)
  | '"' :: rest => readBasic fuel rest
  | '\'' :: '\'' :: '\'' :: rest => readLiteralBlock fuel (dropLineEnd rest)
  | '\'' :: rest => readLiteral rest
  | _ => none

end FetchPlan.Toml
