import FetchPlan.Toml.Document
import FetchPlan.Toml.Scalar
import FetchPlan.Toml.Text

/-! TOML values and documents from text. Readers give what they have read and what follows it. Their
fuel bounds how deep calls are nested; twice the length of the text is enough, because no more than
two of them are entered for each character that is read. -/
namespace FetchPlan.Toml

def skipBlank (comment : Bool) : List Char → Option (List Char)
  | [] => some []
  | '\n' :: rest => skipBlank false rest
  | '\r' :: '\n' :: rest => skipBlank false rest
  | c :: rest =>
    if comment then if isControl c then none else skipBlank true rest
    else if isGap c then skipBlank false rest
    else if c = '#' then skipBlank true rest
    else some (c :: rest)

def isBareKey (c : Char) : Bool := c.isAlphanum || c = '_' || c = '-'

def readKey (fuel : Nat) (s : List Char) : Option (String × List Char) :=
  match s with
  | '"' :: rest => (readBasic fuel rest).map fun (key, rest) => (String.ofList key, rest)
  | '\'' :: rest => (readLiteral rest).map fun (key, rest) => (String.ofList key, rest)
  | s =>
    let key := s.takeWhile isBareKey
    if key.isEmpty then none else some (String.ofList key, s.dropWhile isBareKey)

def readKeys : Nat → List Char → Option (List String × List Char)
  | 0, _ => none
  | fuel + 1, s => do
    let (key, rest) ← readKey (fuel + 1) (dropGap s)
    match dropGap rest with
    | '.' :: rest => do
      let (keys, rest) ← readKeys fuel rest
      pure (key :: keys, rest)
    | rest => pure ([key], rest)

def pathLimit : Nat := 80

def readPath (fuel : Nat) (s : List Char) : Option (List String × List Char) :=
  (readKeys fuel s).filter fun (path, _) => path.length ≤ pathLimit

def endsWords (c : Char) : Bool := c ∈ ['\n', '\r', ',', '=', '#', '[', ']', '\x7b', '\x7d']

/-- Words with gaps between them, and what follows. A quote is part of a word unless it stands
behind a gap, which `spaced` tells. -/
def readWords (spaced : Bool) : List Char → List Char × List Char
  | [] => ([], [])
  | c :: rest =>
    if endsWords c || (spaced && isQuote c) then ([], c :: rest)
    else
      let (words, rest) := readWords (isGap c) rest
      (c :: words, rest)

mutual

/-- A value with at most `depth` lists and inline tables nested in it. -/
def readValue : Nat → Nat → List Char → Option (Value × List Char)
  | 0, _, _ => none
  | fuel + 1, depth, s =>
    match s with
    | '[' :: rest =>
      if depth = 0 then none
      else (readItems fuel (depth - 1) rest).map fun (items, rest) => (.list items, rest)
    | '\x7b' :: rest =>
      if depth = 0 then none
      else (readMembers fuel (depth - 1) [] rest).map fun (members, rest) =>
        (.table (memberValues members), rest)
    | s =>
      if s.head?.any isQuote then
        (readText (fuel + 1) s).map fun (text, rest) => (.text (String.ofList text), rest)
      else
        let (words, rest) := readWords false s
        (scalar? (dropLastGap words)).map (·, rest)

def readItems : Nat → Nat → List Char → Option (List Value × List Char)
  | 0, _, _ => none
  | fuel + 1, depth, s => do
    match ← skipBlank false s with
    | ']' :: rest => pure ([], rest)
    | s => do
      let (v, rest) ← readValue fuel depth s
      match ← skipBlank false rest with
      | ',' :: rest => do
        let (items, rest) ← readItems fuel depth rest
        pure (v :: items, rest)
      | ']' :: rest => pure ([v], rest)
      | _ => none

def readMembers : Nat → Nat → Members → List Char → Option (Members × List Char)
  | 0, _, _, _ => none
  | fuel + 1, depth, members, s => do
    match ← skipBlank false s with
    | '\x7d' :: rest => pure (members, rest)
    | s => do
      let (path, v, rest) ← readMember fuel depth s
      let (way, key) ← Document.split? path
      let members ← Members.insert way key v .header members
      match ← skipBlank false rest with
      | ',' :: rest => readMembers fuel depth members rest
      | '\x7d' :: rest => pure (members, rest)
      | _ => none

/-- A path, an equals sign and a value. The sign may stand on a line of its own. -/
def readMember : Nat → Nat → List Char → Option (List String × Value × List Char)
  | 0, _, _ => none
  | fuel + 1, depth, s => do
    let (path, rest) ← readPath fuel s
    match ← skipBlank false rest with
    | '=' :: rest => do
      let (v, rest) ← readValue fuel depth (← skipBlank false rest)
      pure (path, v, rest)
    | _ => none

end

def depthLimit : Nat := 80

/-- A path, an equals sign and a value, all of which begin on one line. -/
def readLine (fuel : Nat) (s : List Char) : Option (List String × Value × List Char) := do
  match ← readPath fuel s with
  | (path, '=' :: rest) => do
    let (v, rest) ← readValue fuel depthLimit (dropGap rest)
    pure (path, v, rest)
  | _ => none

/-- A header or a line, added to the document. -/
def readStatement (fuel : Nat) (d : Document) : List Char → Option (Document × List Char)
  | '[' :: '[' :: rest => do
    match ← readPath fuel rest with
    | (path, ']' :: ']' :: rest) => (d.openItem path).map (·, rest)
    | _ => none
  | '[' :: rest => do
    match ← readPath fuel rest with
    | (path, ']' :: rest) => (d.openTable path).map (·, rest)
    | _ => none
  | s => do
    let (path, v, rest) ← readLine fuel s
    (d.addLine path v).map (·, rest)

/-- Whether the rest of a line holds nothing but a comment. -/
def endsLine (s : List Char) : Bool :=
  match dropGap s with
  | [] | '#' :: _ => true
  | rest => (lineEnd? rest).isSome

def readStatements : Nat → Document → List Char → Option Document
  | 0, _, _ => none
  | fuel + 1, d, s => do
    match ← skipBlank false s with
    | [] => pure d
    | s => do
      let (d, rest) ← readStatement (fuel + 1) d s
      if endsLine rest then readStatements fuel d rest else none

/-- The table that a document writes. A byte order mark before it is skipped. -/
def read (text : String) : Option Value := do
  let s := match text.toList with
    | '\ufeff' :: s => s
    | s => s
  let d ← readStatements (2 * s.length + 4) {} s
  pure (.table (memberValues d.root))

end FetchPlan.Toml
