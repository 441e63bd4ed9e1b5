import FetchPlan.Text.CharClass

/-! Environment variables and the references to them in text, `$NAME` and `${NAME}`. A reference is
replaced once: what a variable holds is not looked through again. -/
namespace FetchPlan

inductive Fragment where
  | char (c : Char)
  /-- A dollar sign that begins no reference. -/
  | dollar
  | bare (name : List Char)
  | braced (name : List Char)
  /-- A reference whose closing brace is missing; the rest of the text is its name. -/
  | unclosed (name : List Char)
  deriving DecidableEq, Repr

namespace Fragment

def isNameChar (c : Char) : Bool := Text.isAlphanumeric c || c = '_'

def ofText : List Char → List Fragment
  | [] => []
  | '$' :: '\x7b' :: rest =>
    match _found : rest.dropWhile (· ≠ '\x7d') with
    | [] => [.unclosed rest]
    | _ :: after => .braced (rest.takeWhile (· ≠ '\x7d')) :: ofText after
  | '$' :: rest =>
    if (rest.takeWhile isNameChar).isEmpty then .dollar :: ofText rest
    else .bare (rest.takeWhile isNameChar) :: ofText (rest.dropWhile isNameChar)
  | c :: rest => .char c :: ofText rest
termination_by s => s.length
decreasing_by
  · have shorter := (List.dropWhile_sublist (· ≠ '\x7d') (l := rest)).length_le
    simp_all only [List.length_cons]
    omega
  · simp
  · have shorter := (List.dropWhile_sublist isNameChar (l := rest)).length_le
    simp only [List.length_cons]
    omega
  · simp

def name? : Fragment → Option String
  | .char _ | .dollar => none
  | .bare name | .braced name | .unclosed name => some (String.ofList name)

end Fragment

/-- What a variable is set to, character by character. It need not be text: a byte that is no part of a
character is there as `none`. -/
abbrev RawText := List (Option Char)

namespace RawText

def ofText (s : String) : RawText := s.toList.map some

instance : Coe String RawText := ⟨ofText⟩

/-- The text, unless some byte is no part of a character. -/
def text? (raw : RawText) : Option String :=
  if none ∈ raw then none else some (String.ofList (raw.filterMap id))

end RawText

structure Environment where
  bindings : List (String × RawText) := []
  deriving DecidableEq, Repr

/-- Variables that are set to text. -/
instance : Coe (List (String × String)) (List (String × RawText)) :=
  ⟨List.map fun (name, value) => (name, RawText.ofText value)⟩

namespace Environment

/-- A name, an equals sign and what follows. -/
def line (name : String) (held : RawText) : RawText := RawText.ofText name ++ some '=' :: held

def lines (env : Environment) : List RawText := env.bindings.map fun (name, held) => line name held

/-- What follows a name and an equals sign at the start of the first line that has them there. So
a name with an equals sign in it is looked for beyond the first one of a line. An empty name, or
one with a null character in it, is never found. -/
def lookup (env : Environment) (name : String) : Option RawText :=
  let start := line name []
  if name = "" ∨ '\x00' ∈ name.toList then none
  else (env.lines.find? start.isPrefixOf).map (·.drop start.length)

/-- What is found for a name, if it is text. -/
def text? (env : Environment) (name : String) : Option String := (env.lookup name).bind RawText.text?

/-- What a part stands for, or else the name that no text is found for. -/
def valueOf (env : Environment) : Fragment → Except String String
  | .char c => pure (String.singleton c)
  | .dollar => pure "$"
  | .bare name | .braced name | .unclosed name =>
    match env.text? (String.ofList name) with
    | some value => pure value
    | none => throw (String.ofList name)

def references (s : String) : List String := (Fragment.ofText s.toList).filterMap Fragment.name?

/-- Replaces every reference in a text, or else gives the first name that no text is found for. -/
def expand (env : Environment) (s : String) : Except String String := do
  let values ← (Fragment.ofText s.toList).mapM env.valueOf
  pure (String.join values)

end Environment
end FetchPlan
