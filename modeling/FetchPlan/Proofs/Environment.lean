import FetchPlan.Proofs.Stepwise
import FetchPlan.Settings.Load
import Mathlib.Data.List.TakeWhile

/-! References to variables in text. Every text is a sequence of parts in exactly one way, and replacing is
one pass over these parts: what is put in for one is not looked at again. A name stands for what the first
line that begins with it goes on with, if that is text. -/
namespace FetchPlan

/-- The longest stretch in front that passes a test ends where the first value fails it. -/
theorem takeWhile_append_exact {p : α → Bool} {front rest : List α} (all : ∀ a ∈ front, p a = true)
    (ends : ∀ a ∈ rest.head?, p a = false) :
    (front ++ rest).takeWhile p = front ∧ (front ++ rest).dropWhile p = rest := by
  rw [List.takeWhile_append_of_pos all, List.dropWhile_append_of_pos all]
  cases rest with
  | nil => simp
  | cons a rest =>
    have stops : p a = false := ends a rfl
    simp [stops]

namespace Fragment

/-- How a part is written. -/
def text : Fragment → List Char
  | .char c => [c]
  | .dollar => ['$']
  | .bare name => '$' :: name
  | .braced name => '$' :: '\x7b' :: (name ++ ['\x7d'])
  | .unclosed name => '$' :: '\x7b' :: name

/-- What a part may be, and what may follow it. Only an unclosed reference must stand at the end. -/
inductive Fits : Fragment → List Char → Prop
  | char : c ≠ '$' → Fits (.char c) rest
  | dollar : (∀ c ∈ rest.head?, c ≠ '\x7b' ∧ isNameChar c = false) → Fits .dollar rest
  | bare : name ≠ [] → (∀ c ∈ name, isNameChar c = true) → (∀ c ∈ rest.head?, isNameChar c = false) →
      Fits (.bare name) rest
  | braced : '\x7d' ∉ name → Fits (.braced name) rest
  | unclosed : '\x7d' ∉ name → Fits (.unclosed name) []

/-- A text is these parts, one after another. -/
inductive Spells : List Fragment → List Char → Prop
  | nil : Spells [] []
  | cons : f.Fits rest → Spells fs rest → Spells (f :: fs) (f.text ++ rest)

theorem ofText_dollar (unbraced : ∀ c ∈ rest.head?, c ≠ '\x7b') : ofText ('$' :: rest) =
    if (rest.takeWhile isNameChar).isEmpty then .dollar :: ofText rest
    else .bare (rest.takeWhile isNameChar) :: ofText (rest.dropWhile isNameChar) := by
  rw [ofText]
  rintro rest' rfl
  exact unbraced _ rfl rfl

/-- Reading takes off the first part of a text, whatever part that is. -/
theorem ofText_append {f : Fragment} (fits : f.Fits rest) : ofText (f.text ++ rest) = f :: ofText rest := by
  cases fits with
  | @char c rest other =>
    rw [text, List.singleton_append, ofText]
    · exact fun _ dollar => absurd dollar other
    · exact other
  | dollar ends =>
    have unnamed : rest.takeWhile isNameChar = [] :=
      (@takeWhile_append_exact Char isNameChar [] rest (by simp) fun c first => (ends c first).2).1
    rw [text, List.singleton_append, ofText_dollar fun c first => (ends c first).1, unnamed]
    rfl
  | @bare name rest nonempty all ends =>
    obtain ⟨taken, left⟩ := takeWhile_append_exact all ends
    have unbraced : ∀ c ∈ (name ++ rest).head?, c ≠ '\x7b' := by
      obtain ⟨c, name, rfl⟩ := List.exists_cons_of_ne_nil nonempty
      rintro _ ⟨⟩ rfl
      exact absurd (all _ List.mem_cons_self) (by decide)
    rw [text, List.cons_append, ofText_dollar unbraced, taken, left, if_neg (by simpa using nonempty)]
  | @braced name rest open_ =>
    have inside : ∀ c ∈ name, decide (c ≠ '\x7d') = true := fun c member =>
      decide_eq_true (ne_of_mem_of_not_mem member open_)
    have ends : ∀ c ∈ ('\x7d' :: rest).head?, decide (c ≠ '\x7d') = false := by simp
    obtain ⟨taken, left⟩ := takeWhile_append_exact inside ends
    rw [text, List.cons_append, List.cons_append, List.append_assoc, List.singleton_append, ofText]
    split
    · rename_i none
      rw [left] at none
      contradiction
    · rename_i found
      rw [left] at found
      cases found
      rw [taken]
  | @unclosed name open_ =>
    have inside : ∀ c ∈ name, decide (c ≠ '\x7d') = true := fun c member =>
      decide_eq_true (ne_of_mem_of_not_mem member open_)
    rw [text, List.append_nil, ofText, ofText]
    split
    · rfl
    · rename_i found
      rw [List.dropWhile_eq_nil_iff.mpr inside] at found
      contradiction

theorem ofText_braced (closed : '\x7d' ∉ name) : ofText (braced name).text = [.braced name] := by
  have parts := ofText_append (.braced closed : Fits (.braced name) [])
  rwa [List.append_nil, ofText] at parts

theorem head?_dropWhile (p : α → Bool) (l : List α) : ∀ a ∈ (l.dropWhile p).head?, p a = false := by
  have stops := List.head?_dropWhile_not p l
  intro a first
  rw [Option.mem_def.mp first] at stops
  exact stops

theorem spells_ofText (s : List Char) : Spells (ofText s) s := by
  fun_induction ofText s with
  | case1 => exact .nil
  | case2 rest absent =>
    have name : '\x7d' ∉ rest := fun member => by
      simpa using List.dropWhile_eq_nil_iff.mp absent _ member
    simpa [text] using Spells.nil.cons (.unclosed name)
  | case3 rest close after found ih =>
    have stops := head?_dropWhile (· ≠ '\x7d') rest
    rw [found] at stops
    have closed : close = '\x7d' := by simpa using stops close rfl
    have parts : rest.takeWhile (· ≠ '\x7d') ++ '\x7d' :: after = rest := by
      rw [closed] at found
      rw [← found, List.takeWhile_append_dropWhile]
    have name : '\x7d' ∉ rest.takeWhile (· ≠ '\x7d') := fun member => by
      simpa using List.mem_takeWhile_imp member
    have spelled := ih.cons (.braced name)
    simp only [text, List.cons_append, List.append_assoc, List.nil_append, parts] at spelled
    exact spelled
  | case4 rest unbraced unnamed ih =>
    refine ih.cons (.dollar fun c first => ⟨?_, ?_⟩)
    · rintro rfl
      obtain ⟨rest', rfl⟩ := List.head?_eq_some_iff.mp first
      exact unbraced rest' rfl
    · obtain ⟨rest', rfl⟩ := List.head?_eq_some_iff.mp first
      simpa [List.takeWhile_cons] using unnamed
  | case5 rest unbraced named ih =>
    have name : ∀ c ∈ rest.takeWhile isNameChar, isNameChar c = true := fun _ => List.mem_takeWhile_imp
    have spelled := ih.cons (.bare (by simpa using named) name (head?_dropWhile isNameChar rest))
    rw [text, List.cons_append, List.takeWhile_append_dropWhile] at spelled
    exact spelled
  | case6 c rest _ other ih => exact ih.cons (.char other)

/-- Every text has exactly one sequence of parts. -/
theorem spells_iff {s : List Char} : Spells fs s ↔ fs = ofText s := by
  constructor
  · intro spelled
    induction spelled with
    | nil => rw [ofText]
    | cons fits _ ih => rw [ofText_append fits, ih]
  · rintro rfl
    exact spells_ofText s

example : ofText ['$', '$', 'a', '$', '\x7b', 'b'] = [.dollar, .bare ['a'], .unclosed ['b']] := by
  cbv

end Fragment

namespace RawText

theorem ofText_injective : Function.Injective ofText := fun _ _ same =>
  String.toList_injective ((List.map_inj_right fun _ _ => Option.some.inj).mp same)

theorem eq_ofText {raw : RawText} (whole : none ∉ raw) : raw = ofText (String.ofList (raw.filterMap id)) := by
  induction raw with
  | nil => rfl
  | cons c raw ih =>
    obtain ⟨here, later⟩ := List.ne_and_not_mem_of_not_mem_cons whole
    obtain ⟨c, rfl⟩ := Option.ne_none_iff_exists'.mp here.symm
    simpa [ofText] using ih later

theorem text?_eq_some_iff {raw : RawText} : raw.text? = some s ↔ raw = ofText s := by
  rw [text?]
  split
  · rename_i broken
    refine iff_of_false nofun ?_
    rintro rfl
    simp [ofText] at broken
  · rename_i whole
    rw [Option.some.injEq]
    constructor
    · rintro rfl
      exact eq_ofText whole
    · rintro rfl
      simp [ofText]

theorem text?_eq_none_iff {raw : RawText} : raw.text? = none ↔ none ∈ raw := by
  simp [text?]

end RawText

namespace Environment

variable {env : Environment}

/-- The first line that begins with the name and an equals sign goes on with `held`. -/
structure Finds (env : Environment) (name : String) (held : RawText) : Prop where
  named : name ≠ ""
  whole : '\x00' ∉ name.toList
  first : ∃ before key value after, env.bindings = before ++ (key, value) :: after ∧
    line key value = line name held ∧ ∀ x ∈ before, ∀ other, line x.1 x.2 ≠ line name other

/-- A name stands for a text. -/
def Gives (env : Environment) (name value : String) : Prop := env.Finds name (RawText.ofText value)

theorem isPrefixOf_line {raw : RawText} :
    (line name []).isPrefixOf raw = true ↔ ∃ held, raw = line name held := by
  rw [List.isPrefixOf_iff_prefix]
  simp [List.IsPrefix, line, eq_comm]

theorem lookup_eq_some_iff : env.lookup name = some held ↔ env.Finds name held := by
  by_cases unfit : name = "" ∨ '\x00' ∈ name.toList
  · rw [lookup, if_pos unfit]
    exact iff_of_false nofun fun found => unfit.elim found.named found.whole
  · obtain ⟨named, whole⟩ := not_or.mp unfit
    have rest (held : RawText) : (line name held).drop (line name []).length = held := by
      simp [line, List.drop_append]
    have other (raw : RawText) : (line name []).isPrefixOf raw = false ↔ ∀ held, raw ≠ line name held := by
      rw [← Bool.not_eq_true, isPrefixOf_line, not_exists]
    simp only [lookup, if_neg unfit, lines, List.find?_map, Option.map_map, Option.map_eq_some_iff,
      List.find?_eq_some_iff_append, Function.comp_apply, isPrefixOf_line, Bool.not_eq_true', other]
    constructor
    · rintro ⟨⟨key, value⟩, ⟨⟨_, same⟩, before, after, parts, earlier⟩, dropped⟩
      rw [same, rest] at dropped
      subst dropped
      exact ⟨named, whole, before, key, value, after, parts, same, earlier⟩
    · rintro ⟨_, _, before, key, value, after, parts, same, earlier⟩
      exact ⟨(key, value), ⟨⟨held, same⟩, before, after, parts, earlier⟩, by rw [same, rest]⟩

theorem text?_eq_some_iff : env.text? name = some value ↔ env.Gives name value := by
  rw [text?, Option.bind_eq_some_iff, Gives, ← lookup_eq_some_iff]
  simp only [RawText.text?_eq_some_iff, exists_eq_right]

/-- No text is found for a name if nothing is, or something that is no text. -/
theorem text?_eq_none_iff : env.text? name = none ↔ ∀ held, env.Finds name held → none ∈ held := by
  rw [text?, Option.bind_eq_none_iff]
  simp only [lookup_eq_some_iff, RawText.text?_eq_none_iff]

/-- A line is cut at its first equals sign. -/
theorem line_cut (plain : '=' ∉ name.toList) (held : RawText) :
    (line name held).takeWhile (· ≠ some '=') = RawText.ofText name ∧
      (line name held).dropWhile (· ≠ some '=') = some '=' :: held := by
  refine takeWhile_append_exact (fun c member => ?_) (by simp)
  rw [decide_eq_true_eq]
  rintro rfl
  exact plain (by simpa [RawText.ofText] using member)

theorem line_inj (plain : '=' ∉ key.toList) (plain' : '=' ∉ name.toList) :
    line key value = line name held ↔ key = name ∧ value = held := by
  constructor
  · intro same
    obtain ⟨front, rest⟩ := line_cut plain value
    obtain ⟨front', rest'⟩ := line_cut plain' held
    rw [same] at front rest
    exact ⟨RawText.ofText_injective (front.symm.trans front'), (List.cons.inj (rest.symm.trans rest')).2⟩
  · rintro ⟨rfl, rfl⟩
    rfl

/-- A name as variables have them. -/
structure IsName (name : String) : Prop where
  named : name ≠ ""
  whole : '\x00' ∉ name.toList
  plain : '=' ∉ name.toList

/-- A name of that kind finds the first variable that has it. -/
theorem finds_iff_of_names (names : ∀ x ∈ env.bindings, IsName x.1) (isName : IsName name) :
    env.Finds name held ↔ env.bindings.lookup name = some held := by
  rw [List.lookup_eq_some_iff]
  constructor
  · rintro ⟨_, _, before, key, value, after, parts, same, earlier⟩
    rw [parts] at names
    obtain ⟨rfl, rfl⟩ := (line_inj (names (key, value) (by simp)).plain isName.plain).mp same
    refine ⟨before, after, parts, fun x member => ?_⟩
    rw [bne_iff_ne]
    rintro rfl
    exact earlier x member x.2 rfl
  · rintro ⟨before, after, parts, earlier⟩
    refine ⟨isName.named, isName.whole, before, name, held, after, parts, rfl, fun x member other same => ?_⟩
    rw [parts] at names
    have key := (line_inj (names x (List.mem_append_left _ member)).plain isName.plain).mp same
    exact bne_iff_ne.mp (earlier x member) key.1.symm

/-- A reference is replaced by the text its name stands for, and what is no reference stays. -/
inductive Replaced (env : Environment) : Fragment → String → Prop
  | kept : f.name? = none → Replaced env f (String.ofList f.text)
  | reference : f.name? = some name → env.Gives name value → Replaced env f value

theorem valueOf_kept {f : Fragment} (unnamed : f.name? = none) :
    env.valueOf f = .ok (String.ofList f.text) := by
  cases f with
  | char c => exact congrArg Except.ok (String.toList_injective (by simp [Fragment.text]))
  | dollar => rfl
  | bare | braced | unclosed => contradiction

theorem valueOf_reference {f : Fragment} (named : f.name? = some name) : env.valueOf f =
    match env.text? name with
    | some value => .ok value
    | none => .error name := by
  cases f with
  | char | dollar => contradiction
  | bare | braced | unclosed =>
    cases named
    rfl

theorem valueOf_eq_ok {f : Fragment} : env.valueOf f = .ok value ↔ env.Replaced f value := by
  constructor
  · intro done
    cases named : f.name? with
    | none =>
      rw [valueOf_kept named] at done
      cases done
      exact .kept named
    | some name =>
      rw [valueOf_reference named] at done
      split at done <;> cases done
      rename_i given
      exact .reference named (text?_eq_some_iff.mp given)
  · rintro (unnamed | ⟨named, given⟩)
    · exact valueOf_kept unnamed
    · rw [valueOf_reference named, text?_eq_some_iff.mpr given]

theorem valueOf_eq_error {f : Fragment} : env.valueOf f = .error name ↔
    f.name? = some name ∧ env.text? name = none := by
  constructor
  · intro failed
    cases named : f.name? with
    | none =>
      rw [valueOf_kept named] at failed
      contradiction
    | some name' =>
      rw [valueOf_reference named] at failed
      split at failed <;> cases failed
      rename_i missing
      exact ⟨rfl, missing⟩
  · rintro ⟨named, missing⟩
    rw [valueOf_reference named, missing]

/-- The names that parts refer to, from left to right. -/
def names (fs : List Fragment) : List String := fs.filterMap Fragment.name?

theorem forall_given_iff {fs : List Fragment} : (∀ name ∈ names fs, ∃ value, env.Gives name value) ↔
    ∀ f ∈ fs, ∃ value, env.valueOf f = .ok value := by
  simp only [names, List.mem_filterMap, valueOf_eq_ok]
  constructor
  · intro all f member
    cases named : f.name? with
    | none => exact ⟨_, .kept named⟩
    | some name =>
      obtain ⟨value, given⟩ := all name ⟨f, member, named⟩
      exact ⟨value, .reference named given⟩
  · rintro all name ⟨f, member, named⟩
    obtain ⟨value, unnamed | ⟨named', given⟩⟩ := all f member
    · cases named.symm.trans unnamed
    · cases named.symm.trans named'
      exact ⟨value, given⟩

theorem expand_eq_ok {s : String} : env.expand s = .ok t ↔
    ∃ values, List.Forall₂ env.Replaced (Fragment.ofText s.toList) values ∧ t = String.join values := by
  rw [expand, bind_eq_ok]
  simp only [mapM_eq_ok, valueOf_eq_ok, pure, Except.pure, Except.ok.injEq, eq_comm (a := t)]

theorem expand_eq_error {s : String} : env.expand s = .error name ↔
    (Fragment.ofText s.toList).mapM env.valueOf = .error name := by
  rw [expand, bind_eq_error]
  simp [pure, Except.pure]

theorem exists_expand_iff {s : String} : (∃ t, env.expand s = .ok t) ↔
    ∀ f ∈ Fragment.ofText s.toList, ∃ value, env.valueOf f = .ok value := by
  rw [← exists_mapM_iff]
  simp only [mapM_eq_ok, expand_eq_ok, valueOf_eq_ok]
  constructor
  · rintro ⟨_, values, replaced, _⟩
    exact ⟨values, replaced⟩
  · rintro ⟨values, replaced⟩
    exact ⟨_, values, replaced, rfl⟩

/-- Paths are expanded in turn, and the first one with a name that no text is found for is reported. -/
theorem resolvedPaths_eq_error {settings : Settings} (parts : settings.paths = before ++ s :: after)
    (earlier : ∀ path ∈ before, ∃ t, env.expand path = .ok t) (failed : env.expand s = .error name) :
    settings.resolvedPaths env = .error (.missingVariable name) := by
  refine mapM_eq_error.mpr ⟨before, s, after, parts, fun path member => ?_, mapError_eq_error.mpr ⟨name, failed, rfl⟩⟩
  obtain ⟨t, done⟩ := earlier path member
  exact ⟨t, mapError_eq_ok.mpr done⟩

/-- What comes of a text with these parts. -/
structure Expands (env : Environment) (s : String) (fs : List Fragment) : Prop where
  succeeds : (∃ t, env.expand s = .ok t) ↔ ∀ name ∈ names fs, ∃ value, env.Gives name value
  replaces : ∀ t, env.expand s = .ok t ↔ ∃ values, List.Forall₂ env.Replaced fs values ∧ t = String.join values
  /-- The name may be found all the same, but what is found is no text. -/
  blames : ∀ name, env.expand s = .error name → ∃ before after, names fs = before ++ name :: after ∧
    (∀ given ∈ before, ∃ value, env.Gives given value) ∧ ∀ held, env.Finds name held → none ∈ held
  reports : ∀ (settings : Settings) before after, settings.paths = before ++ s :: after →
    (∀ path ∈ before, ∃ t, env.expand path = .ok t) → ∀ name, env.expand s = .error name →
      settings.resolvedPaths env = .error (.missingVariable name)

theorem expands (env : Environment) (s : String) : Expands env s (Fragment.ofText s.toList) where
  succeeds := exists_expand_iff.trans forall_given_iff.symm
  replaces _ := expand_eq_ok
  blames name failed := by
    obtain ⟨before, f, after, parts, earlier, failed⟩ := mapM_eq_error.mp (expand_eq_error.mp failed)
    obtain ⟨named, missing⟩ := valueOf_eq_error.mp failed
    refine ⟨names before, names after, ?_, forall_given_iff.mpr earlier, text?_eq_none_iff.mp missing⟩
    rw [parts, names, List.filterMap_append, List.filterMap_cons_some named]
    rfl
  reports _ _ _ parts earlier _ failed := resolvedPaths_eq_error parts earlier failed

/-- A text is expanded by replacing the references among its parts, of which it has one sequence only. It
cannot be expanded if no text is found for a name, and the first such name is reported. Names without an
equals sign are those of variables. -/
theorem expand_parts (env : Environment) (s : String) :
    (∃ fs, (∀ fs', Fragment.Spells fs' s.toList ↔ fs' = fs) ∧ Expands env s fs) ∧
      ((∀ x ∈ env.bindings, IsName x.1) → ∀ name held, IsName name →
        (env.Finds name held ↔ env.bindings.lookup name = some held)) := by
  constructor
  · exact ⟨Fragment.ofText s.toList, fun _ => Fragment.spells_iff, expands env s⟩
  · exact fun names name held isName => finds_iff_of_names names isName

/-- Some variable has this name. -/
def IsSet (env : Environment) (name : String) : Prop := ∃ x ∈ env.bindings, x.1 = name

end Environment

namespace Sample

/-- A byte that is no part of a character. -/
def strayByte : Environment := { bindings := [("X", [none])] }

/-- Its line has two equals signs. -/
def doubleSign : Environment := { bindings := [("A", "B=C")] }

/-- A variable may be set and its name be reported, and a name be replaced though no variable has it. -/
theorem expand_unlike_set :
    (strayByte.IsSet "X" ∧ Environment.references "$\x7bX\x7d" = ["X"] ∧
      strayByte.expand "$\x7bX\x7d" = .error "X") ∧
    ¬ doubleSign.IsSet "A=B" ∧ Environment.references "$\x7bA=B\x7d" = ["A=B"] ∧
      doubleSign.expand "$\x7bA=B\x7d" = .ok "C" := by
  have single : Fragment.ofText "$\x7bX\x7d".toList = [.braced ['X']] :=
    Fragment.ofText_braced (show '\x7d' ∉ ['X'] by decide)
  have double : Fragment.ofText "$\x7bA=B\x7d".toList = [.braced ['A', '=', 'B']] :=
    Fragment.ofText_braced (show '\x7d' ∉ ['A', '=', 'B'] by decide)
  rw [Environment.references, Environment.references, Environment.expand, Environment.expand, single, double]
  refine ⟨⟨⟨_, List.mem_singleton_self _, rfl⟩, rfl, rfl⟩, ?_, rfl, rfl⟩
  rintro ⟨x, member, name⟩
  cases List.mem_singleton.mp member
  contradiction

end Sample
end FetchPlan
