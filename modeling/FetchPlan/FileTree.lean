import FetchPlan.Sorting
import FetchPlan.Text.Split

/-! Files and directories, and the paths that lead to them. -/
namespace FetchPlan

inductive FileTree where
  /-- A file with its text, unless its bytes write none. -/
  | file (text : Option String)
  /-- A directory with its entries in any order. -/
  | directory (entries : List (String × FileTree))
  deriving Repr

inductive ReadProblem where
  | isDirectory
  | notText
  | pathTooLong
  deriving DecidableEq, Repr

def ReadProblem.message : ReadProblem → String
  | .isDirectory => "Is a directory (os error 21)"
  | .notText => "stream did not contain valid UTF-8"
  | .pathTooLong => "File name too long (os error 36)"

/-- From this many bytes on, a path leads nowhere. -/
def pathBound : Nat := 4096

def isTooLong (path : String) : Bool := pathBound ≤ path.utf8ByteSize

def extendPath (path : String) (names : List String) : String :=
  path ++ (if path.toList.getLast? = some '/' then "" else "/") ++ Text.join "/" names

/-- What stands behind the last point of a file's name. A point at the beginning does not count. -/
def fileExtension? (name : String) : Option String :=
  match Text.cutLast '.' name with
  | some (stem, extension) => if stem = "" then none else some extension
  | none => none

def isDefinitionFile (name : String) : Bool :=
  fileExtension? name = some "toml" || fileExtension? name = some "json"

namespace FileTree

def read : FileTree → Except ReadProblem String
  | .file (some text) => pure text
  | .file none => throw .notText
  | .directory _ => throw .isDirectory

/-- What is read at a path that was built while directories were listed. -/
def readAt (path : String) (t : FileTree) : Except ReadProblem String :=
  if isTooLong path then throw .pathTooLong else t.read

mutual

/-- How many files and directories a tree has. -/
def size : FileTree → Nat
  | .file _ => 1
  | .directory entries => sizeAmong entries + 1

def sizeAmong : List (String × FileTree) → Nat
  | [] => 0
  | (_, t) :: rest => t.size + sizeAmong rest

end

/-- The entries of what shows itself to be a directory. At too long a path nothing does. -/
def entriesAt? (path : String) : FileTree → Option (List (String × FileTree))
  | .file _ => none
  | .directory entries => if isTooLong path then none else some entries

theorem sizeAmong_of_entriesAt? {t : FileTree} (shown : t.entriesAt? path = some entries) :
    sizeAmong entries + 1 = t.size := by
  cases t with
  | file => contradiction
  | directory inner =>
    rw [entriesAt?] at shown
    split at shown
    · contradiction
    · cases shown
      rw [size]

/-- A search for definition files below a directory: those found so far, latest first, and the
directories still to be listed, each with the names that lead to it. -/
structure Search where
  found : List (List String × FileTree) := []
  pending : List (List String × List (String × FileTree))

namespace Search

/-- Looks at an entry of the directory that some names lead to. Directories wait for their turn,
whatever they are called; of anything else the name decides. -/
def visit (path : String) (names : List String) (s : Search) (entry : String × FileTree) : Search :=
  let here := names ++ [entry.1]
  match entry.2.entriesAt? (extendPath path here) with
  | some entries => { s with pending := (here, entries) :: s.pending }
  | none => if isDefinitionFile entry.1 then { s with found := (here, entry.2) :: s.found } else s

def visitAll (path : String) (names : List String) (s : Search) (entries : List (String × FileTree)) : Search :=
  entries.foldl (visit path names) s

def size (s : Search) : Nat := s.pending.foldr (fun d n => sizeAmong d.2 + 1 + n) 0

theorem size_visit (path : String) (names : List String) (s : Search) (entry : String × FileTree) :
    (s.visit path names entry).size ≤ s.size + entry.2.size := by
  rw [visit]
  split
  · rename_i entries shown
    have same := sizeAmong_of_entriesAt? shown
    simp only [size, List.foldr_cons]
    omega
  · split <;> exact Nat.le_add_right s.size _

theorem size_visitAll (path : String) (names : List String) (s : Search) (entries : List (String × FileTree)) :
    (s.visitAll path names entries).size ≤ s.size + sizeAmong entries := by
  induction entries generalizing s with
  | nil => exact Nat.le_refl s.size
  | cons entry rest ih =>
    have first := size_visit path names s entry
    have later := ih (s.visit path names entry)
    rw [visitAll, List.foldl_cons, ← visitAll, sizeAmong]
    omega

/-- Lists one directory after another, the latest first, until none is left. -/
def run (path : String) (s : Search) : List (List String × FileTree) :=
  match _waiting : s.pending with
  | [] => s.found
  | (names, entries) :: pending => run path ({ s with pending }.visitAll path names entries)
termination_by s.size
decreasing_by
  have smaller := size_visitAll path names { s with pending } entries
  simp only [size, _waiting, List.foldr_cons] at smaller ⊢
  omega

end Search

/-- The definition files below a directory with these entries, in the order of the names that lead to them. -/
def definitionFiles (path : String) (entries : List (String × FileTree)) : List (List String × FileTree) :=
  sortOn (·.1) (Search.run path { pending := [([], entries)] })

/-- Goes from a place along some names. The first list holds the place itself and then the
directories around it; all but the last name must lead to a directory. -/
def follow : List FileTree → List String → Option FileTree
  | place, [] => place.head?
  | .directory entries :: around, name :: rest =>
    if name = "" ∨ name = "." then follow (.directory entries :: around) rest
    else if name = ".." then
      follow (if around.isEmpty then [.directory entries] else around) rest
    else match entries.lookup name with
      | some t => follow (t :: .directory entries :: around) rest
      | none => none
  | _, _ :: _ => none

mutual

/-- Puts a file or directory where some names lead, with the directories on the way. A directory
that is there already stays. -/
def put (new : FileTree) : List String → FileTree → FileTree
  | [], .directory entries =>
    match new with
    | .directory [] => .directory entries
    | new => new
  | [], .file _ => new
  | name :: rest, .directory entries => .directory (putAmong new name rest entries)
  | name :: rest, .file _ => .directory (putAmong new name rest [])

def putAmong (new : FileTree) (name : String) (rest : List String) :
    List (String × FileTree) → List (String × FileTree)
  | [] => [(name, put new rest (.directory []))]
  | (n, t) :: others =>
    if n = name then (n, put new rest t) :: others else (n, t) :: putAmong new name rest others

end

end FileTree

abbrev Files := String → Option FileTree

/-- All files, and the names that lead to the current directory. -/
structure FileSystem where
  root : FileTree
  current : List String
  deriving Repr

namespace FileSystem

def isAbsolute (path : String) : Bool := path.toList.head? = some '/'

/-- What a path leads to. It begins at the root if it is absolute and at the current directory
otherwise. An empty path leads nowhere, and neither does one that is too long. -/
def files (fs : FileSystem) : Files := fun path =>
  let names := Text.split '/' path
  if path = "" || isTooLong path then none
  else FileTree.follow [fs.root] (if isAbsolute path then names else fs.current ++ names)

end FileSystem

def pathName (path : String) : String := ((Text.split '/' path).getLast?).getD ""

end FetchPlan
