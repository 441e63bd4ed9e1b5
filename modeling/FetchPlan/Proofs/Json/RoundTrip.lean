import FetchPlan.Json.Reader
import FetchPlan.Proofs.Json.Tokens

/-! Printed JSON is read as the value it was printed from, in every layout that adds white space only. -/
namespace FetchPlan

namespace Value

def isPlainLeaf : Value → Bool
  | .real _ | .unreadable => false
  | .integer n => -Int.ofNat (Nat.pow 2 63) ≤ n && n < Int.ofNat UInt64.size
  | _ => true

/-- Whether a value has neither real numbers nor unreadable parts, and every integer fits 64 bits, with a
sign or without. -/
def isPlain (v : Value) : Bool := v.allLeaves isPlainLeaf

@[simp] theorem isPlain_text (s : String) : (text s).isPlain = true := rfl

@[simp] theorem isPlain_list (items : List Value) :
    (list items).isPlain = true ↔ ∀ v ∈ items, v.isPlain = true := by
  rw [isPlain, allLeaves]
  induction items with
  | nil => simp [allLeavesOfItems]
  | cons v rest ih => simp [allLeavesOfItems, ih, isPlain]

@[simp] theorem isPlain_table (members : List (String × Value)) :
    (table members).isPlain = true ↔ ∀ m ∈ members, m.2.isPlain = true := by
  rw [isPlain, allLeaves]
  induction members with
  | nil => simp [allLeavesOfMembers]
  | cons m rest ih => simp [allLeavesOfMembers, ih, isPlain]

@[simp] theorem isPlain_ofTexts (l : List String) : (ofTexts l).isPlain = true := by
  simp [ofTexts]

/-- Lists are read item by item. -/
theorem listOf?_map {write : α → Value} {read : Value → Option α} (reads : ∀ a, read (write a) = some a)
    (l : List α) : listOf? read (.list (l.map write)) = some l := by
  have item : (fun a => read (write a)) = pure := funext reads
  rw [listOf?, List.mapM_map]
  exact (congrArg (l.mapM ·) item).trans (List.mapM_pure.trans (congrArg some (List.map_id l)))

theorem texts?_ofTexts (l : List String) : texts? (.ofTexts l) = some l := by
  have reads (s : String) : text? (text s) = some s := rfl
  exact listOf?_map reads l

end Value

namespace Json

mutual

/-- The tokens of a printed value, which are the same in every layout. -/
def tokensOf : Value → List Token
  | .text s => [.text (some s)]
  | .list [] => [.beginList, .endList]
  | .list (v :: rest) => .beginList :: (tokensOf v ++ tokensOfItems rest ++ [.endList])
  | .table [] => [.beginTable, .endTable]
  | .table ((key, v) :: rest) =>
    .beginTable :: .text (some key) :: .colon :: (tokensOf v ++ tokensOfMembers rest ++ [.endTable])
  | .unreadable => [.text none]
  | v => [.scalar v]

/-- Of the items after the first. -/
def tokensOfItems : List Value → List Token
  | [] => []
  | v :: rest => .comma :: (tokensOf v ++ tokensOfItems rest)

def tokensOfMembers : List (String × Value) → List Token
  | [] => []
  | (key, v) :: rest => .comma :: .text (some key) :: .colon :: (tokensOf v ++ tokensOfMembers rest)

end

/-- A layout of white space only. -/
structure Layout.Blank (l : Layout) : Prop where
  line : ∀ depth, ∀ c ∈ l.line depth, isGap c = true
  gap : ∀ c ∈ l.gap, isGap c = true

theorem Layout.compact_blank : Layout.compact.Blank where
  line := by simp [Layout.compact]
  gap := by simp [Layout.compact]

theorem Layout.indented_blank : Layout.indented.Blank where
  line depth c member := by
    rcases List.mem_cons.mp member with rfl | space
    · decide
    · rw [List.eq_of_mem_replicate space]
      decide
  gap := by simp [Layout.indented, isGap]

section Printing

variable {l : Layout} (blank : l.Blank)

include blank

-- A printed number ends only where white space or punctuation follows. So what comes behind the first item
-- is always taken together with all that stands before it.

/-- An opening bracket or a comma begins a line. -/
theorem Makes.line (makes : Makes cs ts) (mark : punctuation? c = some t) (depth : Nat) :
    Closes (cs ++ [c] ++ l.line depth) (ts ++ [t]) :=
  (makes.punctuation mark).gaps (blank.line depth)

theorem Makes.member (makes : Makes cs ts) (key : String) :
    Makes (quoted key ++ [':'] ++ l.gap ++ cs) (.text (some key) :: .colon :: ts) := by
  have colon := (closes_quoted key).makes.punctuation (c := ':') rfl
  exact (colon.gaps blank.gap).then_makes makes

mutual

theorem makes_print (depth : Nat) : ∀ v : Value, v.isPlain = true → Makes (l.print depth v) (tokensOf v)
  | .null, _ => by
    rw [Layout.print]
    exact makes_word (by decide) (by simp [InWord, isGap, punctuation?]) rfl
  | .bool true, _ => by
    rw [Layout.print]
    exact makes_word (by decide) (by simp [InWord, isGap, punctuation?]) rfl
  | .bool false, _ => by
    rw [Layout.print]
    exact makes_word (by decide) (by simp [InWord, isGap, punctuation?]) rfl
  | .integer n, plain => by
    obtain ⟨low, high⟩ := Bool.and_eq_true_iff.mp plain
    have value := word?_toString (of_decide_eq_true low) (of_decide_eq_true high)
    rw [Layout.print]
    exact makes_word (toString_ne_nil n) (fun _ => inWord_of_mem_toString) value
  | .text s, _ => by
    rw [Layout.print]
    exact (closes_quoted s).makes
  | .list [], _ => by
    rw [Layout.print]
    exact ((Makes.nil.punctuation rfl).makes.punctuation rfl).makes
  | .list (v :: rest), plain => by
    rw [Value.isPlain, Value.allLeaves, Value.allLeavesOfItems, Bool.and_eq_true_iff] at plain
    have opened := Makes.nil.line blank (c := '[') rfl (depth + 1)
    have first := opened.then_makes (makes_print (depth + 1) v plain.1)
    have items := makes_printItems (depth + 1) rest plain.2 first
    have closed := (items.gaps (blank.line depth)).punctuation (c := ']') rfl
    simpa [Layout.print, tokensOf] using closed.makes
  | .table [], _ => by
    rw [Layout.print]
    exact ((Makes.nil.punctuation rfl).makes.punctuation rfl).makes
  | .table ((key, v) :: rest), plain => by
    rw [Value.isPlain, Value.allLeaves, Value.allLeavesOfMembers, Bool.and_eq_true_iff] at plain
    have opened := Makes.nil.line blank (c := '\x7b') rfl (depth + 1)
    have first := opened.then_makes ((makes_print (depth + 1) v plain.1).member blank key)
    have members := makes_printMembers (depth + 1) rest plain.2 first
    have closed := (members.gaps (blank.line depth)).punctuation (c := '\x7d') rfl
    simpa [Layout.print, tokensOf] using closed.makes

theorem makes_printItems (depth : Nat) : ∀ rest : List Value,
    Value.allLeavesOfItems Value.isPlainLeaf rest = true → ∀ {cs ts}, Makes cs ts →
      Makes (cs ++ l.printItems depth rest) (ts ++ tokensOfItems rest)
  | [], _, cs, ts, makes => by
    simpa [Layout.printItems, tokensOfItems] using makes
  | v :: rest, plain, cs, ts, makes => by
    rw [Value.allLeavesOfItems, Bool.and_eq_true_iff] at plain
    have comma := makes.line blank (c := ',') rfl depth
    have item := comma.then_makes (makes_print depth v plain.1)
    simpa [Layout.printItems, tokensOfItems] using makes_printItems depth rest plain.2 item

theorem makes_printMembers (depth : Nat) : ∀ rest : List (String × Value),
    Value.allLeavesOfMembers Value.isPlainLeaf rest = true → ∀ {cs ts}, Makes cs ts →
      Makes (cs ++ l.printMembers depth rest) (ts ++ tokensOfMembers rest)
  | [], _, cs, ts, makes => by
    simpa [Layout.printMembers, tokensOfMembers] using makes
  | (key, v) :: rest, plain, cs, ts, makes => by
    rw [Value.allLeavesOfMembers, Bool.and_eq_true_iff] at plain
    have comma := makes.line blank (c := ',') rfl depth
    have member := comma.then_makes ((makes_print depth v plain.1).member blank key)
    simpa [Layout.printMembers, tokensOfMembers] using makes_printMembers depth rest plain.2 member

end

theorem tokens?_print (depth : Nat) {v : Value} (plain : v.isPlain = true) :
    tokens? (l.print depth v) = some (tokensOf v) := by
  obtain ⟨s, read, finish⟩ := makes_print blank depth v plain []
  simp [tokens?, read, finish]

end Printing

/-- The members of a table as they are kept while it is open. -/
def readMembers (members : List (String × Value)) : List (Option String × Value) :=
  members.map fun m => (some m.1, m.2)

theorem tableValue_readMembers (members : List (String × Value)) :
    tableValue (readMembers members) = .table members := by
  have named : (readMembers members).mapM (fun m => m.1.map fun key => (key, m.2)) = some members := by
    rw [readMembers, List.mapM_map]
    exact List.mapM_pure.trans (congrArg some (List.map_id members))
  rw [tableValue, named]

theorem Stage.step_firstItem (other : t ≠ .endList) (frames : List Frame) :
    Stage.step (.firstItem frames) t = Stage.step (.value (.list [] :: frames)) t := by
  cases t with
  | endList => contradiction
  | _ => rfl

theorem tokensOf_eq_cons (v : Value) : ∃ t rest, tokensOf v = t :: rest ∧ t ≠ .endList := by
  unfold tokensOf
  split <;> exact ⟨_, _, rfl, nofun⟩

/-- The first item of a list is read as any later one. -/
theorem foldlM_firstItem (v : Value) (frames : List Frame) :
    (tokensOf v).foldlM Stage.step (.firstItem frames) =
      (tokensOf v).foldlM Stage.step (.value (.list [] :: frames)) := by
  obtain ⟨t, rest, same, other⟩ := tokensOf_eq_cons v
  rw [same, List.foldlM_cons, List.foldlM_cons, Stage.step_firstItem other]

/-- A key, its colon and its value. -/
theorem foldlM_member (start : Stage) (members : List (Option String × Value)) (key : String) (v : Value)
    (tokens : List Token) (frames : List Frame)
    (opened : start.step (.text (some key)) = some (.colon members (some key) frames))
    (value : ∀ frames, (tokensOf v).foldlM Stage.step (.value frames) = some (.complete v frames)) :
    (Token.text (some key) :: .colon :: (tokensOf v ++ tokens)).foldlM Stage.step start =
      tokens.foldlM Stage.step (.complete v (.table members (some key) :: frames)) := by
  have colon : Stage.step (.colon members (some key) frames) .colon =
    some (.value (.table members (some key) :: frames)) := rfl
  simp [opened, colon, value]

mutual

/-- The tokens of a value are read as the value, whatever is open around it. -/
theorem foldlM_tokensOf : ∀ (v : Value) (frames : List Frame),
    (tokensOf v).foldlM Stage.step (.value frames) = some (.complete v frames)
  | .null, _ | .bool _, _ | .integer _, _ | .real _, _ | .text _, _ | .unreadable, _ => rfl
  | .list [], _ => rfl
  | .list (v :: rest), frames => by
    have opened : Stage.step (.value frames) .beginList = some (.firstItem frames) := rfl
    have items := foldlM_tokensOfItems rest v [] frames
    simpa [tokensOf, opened, foldlM_firstItem, foldlM_tokensOf v] using items
  | .table [], _ => rfl
  | .table ((key, v) :: rest), frames => by
    have opened : Stage.step (.value frames) .beginTable = some (.firstKey frames) := rfl
    have members := foldlM_tokensOfMembers rest v [] (some key) frames
    have table := tableValue_readMembers ((key, v) :: rest)
    rw [tokensOf, List.append_assoc, List.foldlM_cons, opened, Option.bind_eq_bind, Option.bind_some,
      foldlM_member (.firstKey frames) [] key v _ frames rfl (foldlM_tokensOf v), members, ← table]
    rfl

theorem foldlM_tokensOfItems : ∀ (rest : List Value) (v : Value) (items : List Value) (frames : List Frame),
    (tokensOfItems rest ++ [Token.endList]).foldlM Stage.step (.complete v (.list items :: frames)) =
      some (.complete (.list (items.reverse ++ v :: rest)) frames)
  | [], v, items, frames => by
    simp [tokensOfItems, Stage.step]
  | next :: rest, v, items, frames => by
    have comma : Stage.step (.complete v (.list items :: frames)) .comma =
      some (.value (.list (v :: items) :: frames)) := rfl
    have later := foldlM_tokensOfItems rest next (v :: items) frames
    simpa [tokensOfItems, comma, foldlM_tokensOf next] using later

theorem foldlM_tokensOfMembers : ∀ (rest : List (String × Value)) (v : Value)
    (members : List (Option String × Value)) (name : Option String) (frames : List Frame),
    (tokensOfMembers rest ++ [Token.endTable]).foldlM Stage.step (.complete v (.table members name :: frames)) =
      some (.complete (tableValue (members.reverse ++ (name, v) :: readMembers rest)) frames)
  | [], v, members, name, frames => by
    simp [tokensOfMembers, Stage.step, readMembers]
  | (key, next) :: rest, v, members, name, frames => by
    have comma : Stage.step (.complete v (.table members name :: frames)) .comma =
      some (.key ((name, v) :: members) frames) := rfl
    have later := foldlM_tokensOfMembers rest next ((name, v) :: members) (some key) frames
    rw [tokensOfMembers, List.cons_append, List.cons_append, List.cons_append, List.append_assoc,
      List.foldlM_cons, comma, Option.bind_eq_bind, Option.bind_some,
      foldlM_member (.key ((name, v) :: members) frames) _ key next _ frames rfl (foldlM_tokensOf next), later]
    simp [readMembers]

end

/-- Whatever is printed is read again, unless it holds numbers or text that no value keeps as they are. -/
theorem read_print {l : Layout} (blank : l.Blank) (depth : Nat) {v : Value} (plain : v.isPlain = true) :
    read (String.ofList (l.print depth v)) = some v := by
  simp [read, tokens?_print blank depth plain, foldlM_tokensOf]

theorem read_compact {v : Value} (plain : v.isPlain = true) : read (compact v) = some v :=
  read_print Layout.compact_blank 0 plain

theorem read_indented {v : Value} (plain : v.isPlain = true) : read (indented v) = some v :=
  read_print Layout.indented_blank 0 plain

end Json
end FetchPlan
