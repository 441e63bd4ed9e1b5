import FetchPlan.Definition.Load
import FetchPlan.Proofs.Sorting
import FetchPlan.Proofs.Stepwise
import Mathlib.Data.List.Nodup

/-! The search for definition files. It lists directories as they come up, yet what it finds is settled
by the tree alone: what has been found and what the waiting directories still hold stay the same,
up to their order, and sorting forgets the order. -/
namespace FetchPlan

namespace FileTree

/-- The names `around` lead from a directory with these entries to one that has the entry `name`. -/
inductive HasEntry : List (String × FileTree) → List String → String → FileTree → Prop
  | here : (name, t) ∈ entries → HasEntry entries [] name t
  | deeper : (outer, .directory contents) ∈ entries → HasEntry contents around name t →
      HasEntry entries (outer :: around) name t

theorem hasEntry_nil : ¬ HasEntry [] around name t := by
  rintro (⟨⟨⟩⟩ | ⟨⟨⟩, _⟩)

theorem hasEntry_append : HasEntry (entries ++ entries') around name t ↔
    HasEntry entries around name t ∨ HasEntry entries' around name t := by
  constructor
  · rintro (member | ⟨member, below⟩)
    · exact (List.mem_append.mp member).imp .here .here
    · exact (List.mem_append.mp member).imp (.deeper · below) (.deeper · below)
  · rintro ((member | ⟨member, below⟩) | (member | ⟨member, below⟩))
    · exact .here (List.mem_append_left _ member)
    · exact .deeper (List.mem_append_left _ member) below
    · exact .here (List.mem_append_right _ member)
    · exact .deeper (List.mem_append_right _ member) below

theorem hasEntry_file : HasEntry [(n, .file text)] around name t ↔
    around = [] ∧ name = n ∧ t = .file text := by
  constructor
  · rintro (member | ⟨member, _⟩)
    · simpa using member
    · simp at member
  · rintro ⟨rfl, rfl, rfl⟩
    exact .here List.mem_cons_self

theorem hasEntry_directory : HasEntry [(n, .directory contents)] around name t ↔
    around = [] ∧ name = n ∧ t = .directory contents ∨
      ∃ rest, around = n :: rest ∧ HasEntry contents rest name t := by
  constructor
  · rintro (member | ⟨member, below⟩)
    · exact .inl (by simpa using member)
    · simp only [List.mem_singleton, Prod.mk.injEq, directory.injEq] at member
      obtain ⟨rfl, rfl⟩ := member
      exact .inr ⟨_, rfl, below⟩
  · rintro (⟨rfl, rfl, rfl⟩ | ⟨rest, rfl, below⟩)
    · exact .here List.mem_cons_self
    · exact .deeper List.mem_cons_self below

/-- What leads to an entry leads to a directory. -/
theorem HasEntry.directory_around (entry : HasEntry entries (around ++ [last]) name t) :
    ∃ contents, HasEntry entries around last (.directory contents) := by
  generalize shape : around ++ [last] = names at entry
  induction entry generalizing around with
  | here => simp at shape
  | deeper member below ih =>
    cases around with
    | nil =>
      obtain ⟨rfl, -⟩ := List.cons.inj shape
      exact ⟨_, .here member⟩
    | cons first around =>
      obtain ⟨rfl, same⟩ := List.cons.inj shape
      obtain ⟨contents, found⟩ := ih same
      exact ⟨contents, .deeper member found⟩

theorem utf8ByteSize_join_le (sep : String) (l m : List String) :
    (Text.join sep l).utf8ByteSize ≤ (Text.join sep (l ++ m)).utf8ByteSize := by
  fun_induction Text.join sep l with
  | case1 => exact Nat.zero_le _
  | case2 s =>
    cases m with
    | nil => exact Nat.le_refl _
    | cons => simp [Text.join, String.utf8ByteSize_append, Nat.add_assoc]
  | case3 s t rest ih =>
    simp only [List.cons_append, Text.join, String.utf8ByteSize_append] at ih ⊢
    omega

/-- Further names make a path longer. -/
theorem isTooLong_extendPath {path : String} (tooLong : isTooLong (extendPath path front) = true) (rest : List String) :
    isTooLong (extendPath path (front ++ rest)) = true := by
  have longer := utf8ByteSize_join_le "/" front rest
  simp only [isTooLong, extendPath, String.utf8ByteSize_append, decide_eq_true_eq] at tooLong ⊢
  omega

/-- The definition files below a directory that `front` leads to. A directory is looked into and not
taken itself, as long as its path leads anywhere. -/
inductive Listed (path : String) (front : List String) (entries : List (String × FileTree)) :
    List String × FileTree → Prop
  | intro {around : List String} {name : String} {t : FileTree} (entry : HasEntry entries around name t)
      (named : isDefinitionFile name = true)
      (entered : around = [] ∨ isTooLong (extendPath path (front ++ around)) = false)
      (leaf : ∀ contents, t = .directory contents → isTooLong (extendPath path (front ++ around ++ [name])) = true) :
      Listed path front entries (front ++ around ++ [name], t)

theorem listed_append : Listed path front (entries ++ entries') f ↔
    Listed path front entries f ∨ Listed path front entries' f := by
  constructor
  · rintro ⟨entry, named, entered, leaf⟩
    exact (hasEntry_append.mp entry).imp (⟨·, named, entered, leaf⟩) (⟨·, named, entered, leaf⟩)
  · rintro (⟨entry, named, entered, leaf⟩ | ⟨entry, named, entered, leaf⟩)
    · exact ⟨hasEntry_append.mpr (.inl entry), named, entered, leaf⟩
    · exact ⟨hasEntry_append.mpr (.inr entry), named, entered, leaf⟩

theorem listed_cons : Listed path front (e :: rest) f ↔ Listed path front [e] f ∨ Listed path front rest f := by
  rw [← listed_append, List.singleton_append]

theorem listed_file : Listed path front [(n, .file text)] f ↔
    f = (front ++ [n], .file text) ∧ isDefinitionFile n = true := by
  constructor
  · rintro ⟨entry, named, _, _⟩
    obtain ⟨rfl, rfl, rfl⟩ := hasEntry_file.mp entry
    exact ⟨by rw [List.append_nil], named⟩
  · rintro ⟨rfl, named⟩
    have here : HasEntry [(n, file text)] [] n (.file text) := hasEntry_file.mpr ⟨rfl, rfl, rfl⟩
    have listed : Listed path front [(n, file text)] (front ++ [] ++ [n], .file text) :=
      .intro here named (.inl rfl) nofun
    rwa [List.append_nil] at listed

/-- A directory is taken for a file where its path leads nowhere. -/
theorem listed_tooLong (tooLong : isTooLong (extendPath path (front ++ [n])) = true) :
    Listed path front [(n, .directory contents)] f ↔
      f = (front ++ [n], .directory contents) ∧ isDefinitionFile n = true := by
  constructor
  · rintro ⟨entry, named, entered, _⟩
    rcases hasEntry_directory.mp entry with ⟨rfl, rfl, rfl⟩ | ⟨rest, rfl, _⟩
    · exact ⟨by rw [List.append_nil], named⟩
    · have longer := isTooLong_extendPath tooLong rest
      rw [List.append_assoc, List.singleton_append] at longer
      simp [longer] at entered
  · rintro ⟨rfl, named⟩
    have here : HasEntry [(n, directory contents)] [] n (.directory contents) :=
      hasEntry_directory.mpr (.inl ⟨rfl, rfl, rfl⟩)
    have listed : Listed path front [(n, directory contents)] (front ++ [] ++ [n], .directory contents) :=
      .intro here named (.inl rfl) fun _ _ => by rwa [List.append_nil]
    rwa [List.append_nil] at listed

theorem listed_directory (fits : isTooLong (extendPath path (front ++ [n])) = false) :
    Listed path front [(n, .directory contents)] f ↔ Listed path (front ++ [n]) contents f := by
  constructor
  · rintro ⟨entry, named, entered, leaf⟩
    rcases hasEntry_directory.mp entry with ⟨rfl, rfl, rfl⟩ | ⟨rest, rfl, below⟩
    · have tooLong := leaf contents rfl
      simp [fits] at tooLong
    · rw [List.append_cons front n rest] at entered leaf ⊢
      exact .intro below named (.inr (entered.resolve_left (List.cons_ne_nil n rest))) leaf
  · rintro ⟨below, named, entered, leaf⟩
    rename_i around name t
    have entry : HasEntry [(n, directory contents)] (n :: around) name t :=
      hasEntry_directory.mpr (.inr ⟨around, rfl, below⟩)
    rw [← List.append_cons front n around] at entered leaf ⊢
    refine .intro entry named (.inr ?_) leaf
    rcases entered with rfl | entered
    · exact fits
    · exact entered

/-- An entry of a definition file's name. -/
def definitionHere (front : List String) (name : String) (t : FileTree) : List (List String × FileTree) :=
  if isDefinitionFile name then [(front ++ [name], t)] else []

/-- The definition files below a directory that some names lead to, each directory in its place. -/
def definitionsAmong (path : String) (front : List String) :
    List (String × FileTree) → List (List String × FileTree)
  | [] => []
  | (name, .file text) :: rest => definitionHere front name (.file text) ++ definitionsAmong path front rest
  | (name, .directory contents) :: rest =>
    (if isTooLong (extendPath path (front ++ [name])) then definitionHere front name (.directory contents)
      else definitionsAmong path (front ++ [name]) contents) ++ definitionsAmong path front rest

theorem mem_definitionHere : f ∈ definitionHere front name t ↔ f = (front ++ [name], t) ∧ isDefinitionFile name = true := by
  rw [definitionHere]
  split <;> simp_all

theorem definitionsAmong_append : definitionsAmong path front (entries ++ entries') =
    definitionsAmong path front entries ++ definitionsAmong path front entries' := by
  induction entries with
  | nil => simp [definitionsAmong]
  | cons e rest ih =>
    obtain ⟨name, text | contents⟩ := e
    · simp only [List.cons_append, definitionsAmong, ih, List.append_assoc]
    · simp only [List.cons_append, definitionsAmong, ih, List.append_assoc]

theorem mem_definitionsAmong : f ∈ definitionsAmong path front entries ↔ Listed path front entries f := by
  fun_induction definitionsAmong path front entries with
  | case1 =>
    refine iff_of_false List.not_mem_nil ?_
    rintro ⟨entry, _⟩
    exact hasEntry_nil entry
  | case2 front name text rest later =>
    rw [List.mem_append, mem_definitionHere, later, listed_cons, listed_file]
  | case3 front name contents rest inside later =>
    rw [List.mem_append, later, listed_cons]
    refine or_congr_left ?_
    split
    · rename_i tooLong
      rw [mem_definitionHere, listed_tooLong tooLong]
    · rename_i fits
      rw [inside, listed_directory (by simpa using fits)]

theorem definitionsAmong_singleton (path : String) (front : List String) (entry : String × FileTree) :
    definitionsAmong path front [entry] =
      match entry.2.entriesAt? (extendPath path (front ++ [entry.1])) with
      | some contents => definitionsAmong path (front ++ [entry.1]) contents
      | none => definitionHere front entry.1 entry.2 := by
  obtain ⟨name, text | contents⟩ := entry
  · simp [definitionsAmong, entriesAt?]
  · simp only [definitionsAmong, entriesAt?, List.append_nil]
    split <;> rfl

theorem definitionsAmong_perm (path : String) (front : List String) (reordered : entries.Perm entries') :
    (definitionsAmong path front entries).Perm (definitionsAmong path front entries') := by
  have single (l : List (String × FileTree)) :
      definitionsAmong path front l = l.flatMap fun e => definitionsAmong path front [e] := by
    induction l with
    | nil => simp [definitionsAmong]
    | cons e rest ih => rw [List.flatMap_cons, ← ih, ← definitionsAmong_append, List.singleton_append]
  rw [single entries, single entries']
  exact reordered.flatMap_right _

namespace Search

/-- What was found so far and what the waiting directories hold. -/
def outcome (path : String) (s : Search) : List (List String × FileTree) :=
  s.found ++ s.pending.flatMap fun d => definitionsAmong path d.1 d.2

theorem outcome_visit (path : String) (names : List String) (s : Search) (entry : String × FileTree) :
    ((s.visit path names entry).outcome path).Perm (definitionsAmong path names [entry] ++ s.outcome path) := by
  simp only [visit, definitionsAmong_singleton]
  cases entry.2.entriesAt? (extendPath path (names ++ [entry.1])) with
  | some contents => exact List.perm_append_comm_assoc ..
  | none =>
    simp only [definitionHere]
    split <;> exact .rfl

theorem outcome_visitAll (path : String) (names : List String) (s : Search) (entries : List (String × FileTree)) :
    ((s.visitAll path names entries).outcome path).Perm (definitionsAmong path names entries ++ s.outcome path) := by
  induction entries generalizing s with
  | nil => simp [visitAll, definitionsAmong]
  | cons entry rest ih =>
    rw [visitAll, List.foldl_cons, ← visitAll, ← List.singleton_append, definitionsAmong_append, List.append_assoc]
    have first := (outcome_visit path names s entry).append_left (definitionsAmong path names rest)
    exact ((ih _).trans first).trans (List.perm_append_comm_assoc ..)

/-- A directory that is listed makes room for what it holds. -/
theorem run_perm (path : String) (s : Search) : (run path s).Perm (s.outcome path) := by
  fun_induction run path s with
  | case1 s done => simp [outcome, done]
  | case2 s names entries pending waiting ih =>
    refine ih.trans ((outcome_visitAll path names _ entries).trans ?_)
    rw [outcome, outcome, waiting, List.flatMap_cons]
    exact List.perm_append_comm_assoc ..

end Search

/-- The search is the walk through the tree that takes each directory in its place, up to the order. -/
theorem search_perm (path : String) (entries : List (String × FileTree)) :
    (Search.run path { pending := [([], entries)] }).Perm (definitionsAmong path [] entries) := by
  have found := Search.run_perm path { pending := [([], entries)] }
  rwa [Search.outcome, List.flatMap_singleton] at found

theorem definitionFiles_perm (path : String) (entries : List (String × FileTree)) :
    (definitionFiles path entries).Perm (definitionsAmong path [] entries) :=
  (sortOn_perm _ _).trans (search_perm path entries)

theorem mem_definitionFiles : f ∈ definitionFiles path entries ↔ Listed path [] entries f := by
  rw [(definitionFiles_perm path entries).mem_iff, mem_definitionsAmong]

/-- No directory has two entries of one name. -/
structure Distinct (entries : List (String × FileTree)) : Prop where
  here : (entries.map (·.1)).Nodup
  below : ∀ around name contents, HasEntry entries around name (.directory contents) → (contents.map (·.1)).Nodup

namespace Distinct

theorem tail (distinct : Distinct (e :: rest)) : Distinct rest where
  here := (List.nodup_cons.mp distinct.here).2
  below around name contents entry := by
    have entry : HasEntry ([e] ++ rest) around name (.directory contents) := hasEntry_append.mpr (.inr entry)
    exact distinct.below around name contents entry

theorem within (distinct : Distinct ((n, .directory contents) :: rest)) : Distinct contents where
  here := distinct.below [] n contents (.here List.mem_cons_self)
  below around name contents entry := distinct.below (n :: around) name contents (.deeper List.mem_cons_self entry)

end Distinct

/-- An entry of the directory leads to what is listed. -/
theorem Listed.starts (listed : Listed path front entries f) : ∃ n ∈ entries.map (·.1), front ++ [n] <+: f.1 := by
  obtain ⟨entry, _, _, _⟩ := listed
  cases entry with
  | here member => exact ⟨_, List.mem_map_of_mem member, by simp⟩
  | deeper member below => exact ⟨_, List.mem_map_of_mem member, by simp⟩

theorem Listed.apart (first : Listed path front [e] f) (second : Listed path front rest g)
    (fresh : e.1 ∉ rest.map (·.1)) : f.1 ≠ g.1 := by
  intro same
  obtain ⟨n, member, starts⟩ := first.starts
  obtain ⟨n', member', starts'⟩ := second.starts
  rw [same] at starts
  have equal := (List.prefix_of_prefix_length_le starts starts' (by simp)).eq_of_length (by simp)
  obtain rfl : n = n' := by simpa using equal
  rw [List.map_singleton, List.mem_singleton] at member
  exact fresh (member ▸ member')

theorem nodup_definitionHere (front : List String) (name : String) (t : FileTree) :
    ((definitionHere front name t).map (·.1)).Nodup := by
  rw [definitionHere]
  split <;> simp

/-- Different entries of a directory lead to different files. -/
theorem Distinct.nodup_append (distinct : Distinct (e :: rest)) (here : ∀ f ∈ first, Listed path front [e] f)
    (first_nodup : (first.map (·.1)).Nodup) (rest_nodup : ((definitionsAmong path front rest).map (·.1)).Nodup) :
    ((first ++ definitionsAmong path front rest).map (·.1)).Nodup := by
  rw [List.map_append, List.nodup_append]
  refine ⟨first_nodup, rest_nodup, fun names member names' member' => ?_⟩
  obtain ⟨f, found, rfl⟩ := List.mem_map.mp member
  obtain ⟨g, found', rfl⟩ := List.mem_map.mp member'
  exact (here f found).apart (mem_definitionsAmong.mp found') (List.nodup_cons.mp distinct.here).1

theorem nodup_definitionsAmong (path : String) (front : List String) (distinct : Distinct entries) :
    ((definitionsAmong path front entries).map (·.1)).Nodup := by
  fun_induction definitionsAmong path front entries with
  | case1 => exact List.nodup_nil
  | case2 front name text rest later =>
    have here f (member : f ∈ definitionHere front name (.file text)) : Listed path front [(name, .file text)] f :=
      listed_file.mpr (mem_definitionHere.mp member)
    exact distinct.nodup_append here (nodup_definitionHere front name _) (later distinct.tail)
  | case3 front name contents rest inside later =>
    refine distinct.nodup_append (fun f member => ?_) ?_ (later distinct.tail)
    · split at member
      · rename_i tooLong
        exact (listed_tooLong tooLong).mpr (mem_definitionHere.mp member)
      · rename_i fits
        exact (listed_directory (by simpa using fits)).mpr (mem_definitionsAmong.mp member)
    · split
      · exact nodup_definitionHere front name _
      · exact inside distinct.within

theorem Distinct.nodup_search (distinct : Distinct entries) (path : String) :
    ((Search.run path { pending := [([], entries)] }).map (·.1)).Nodup :=
  ((search_perm path entries).map (·.1)).nodup_iff.mpr (nodup_definitionsAmong path [] distinct)

/-- The same directory with its entries, or those of directories below it, in another order. -/
inductive Relisted : List (String × FileTree) → List (String × FileTree) → Prop
  | order : entries.Perm entries' → Relisted entries entries'
  | within (before after : List (String × FileTree)) (name : String) : Relisted contents contents' →
      Relisted (before ++ (name, .directory contents) :: after) (before ++ (name, .directory contents') :: after)
  | trans : Relisted entries middle → Relisted middle entries' → Relisted entries entries'

/-- What is read of a definition file. -/
def reading (path : String) (f : List String × FileTree) : List String × Except ReadProblem String :=
  (f.1, f.2.readAt (extendPath path f.1))

theorem reading_definitionHere (contents contents' : List (String × FileTree))
    (tooLong : isTooLong (extendPath path (front ++ [name])) = true) :
    (definitionHere front name (.directory contents)).map (reading path) =
      (definitionHere front name (.directory contents')).map (reading path) := by
  rw [definitionHere, definitionHere]
  split
  · simp [reading, readAt, tooLong]
  · rfl

theorem Relisted.readings (relisted : Relisted entries entries') (path : String) (front : List String) :
    ((definitionsAmong path front entries).map (reading path)).Perm
      ((definitionsAmong path front entries').map (reading path)) := by
  induction relisted generalizing front with
  | order reordered => exact (definitionsAmong_perm path front reordered).map _
  | within before after name _ ih =>
    rename_i contents contents' _
    rw [definitionsAmong_append, definitionsAmong_append, List.map_append, List.map_append]
    refine .append_left _ ?_
    rw [definitionsAmong, definitionsAmong, List.map_append, List.map_append]
    refine .append_right _ ?_
    split
    · rename_i tooLong
      rw [reading_definitionHere contents contents' tooLong]
    · exact ih (front ++ [name])
  | trans _ _ first second => exact (first front).trans (second front)

/-- Whatever order the directories are listed in, the same texts are read at the same places. -/
theorem Relisted.definitionFiles (relisted : Relisted entries entries') (distinct : Distinct entries) (path : String) :
    (definitionFiles path entries).map (reading path) = (definitionFiles path entries').map (reading path) := by
  have readings (l : List (String × FileTree)) := (search_perm path l).map (reading path)
  have names : (((Search.run path { pending := [([], entries)] }).map (reading path)).map (·.1)).Nodup := by
    rw [List.map_map]
    exact distinct.nodup_search path
  have sorted (l : List (List String × FileTree)) :
      (sortOn (·.1) l).map (reading path) = sortOn (·.1) (l.map (reading path)) := map_sortOn (·.1) (reading path) l
  rw [FileTree.definitionFiles, FileTree.definitionFiles, sorted, sorted]
  refine sortOn_eq_of_perm ?_ fun a first b second same => List.inj_on_of_nodup_map names first second same
  exact (readings entries).trans ((relisted.readings path []).trans (readings entries').symm)

end FileTree

theorem Files.loadFile_congr (same : t.readAt file = t'.readAt file) : loadFile file t = loadFile file t' := by
  simp only [loadFile, same]

/-- The order of listing does not show in what is loaded. -/
theorem FileTree.Relisted.loadTree (relisted : Relisted entries entries') (distinct : Distinct entries) (path : String) :
    Files.loadTree path (.directory entries) = Files.loadTree path (.directory entries') := by
  have each (f g : List String × FileTree) (same : reading path f = reading path g) :
      Files.loadFile (extendPath path f.1) f.2 = Files.loadFile (extendPath path g.1) g.2 := by
    obtain ⟨names, text⟩ := Prod.mk.inj same
    rw [names] at text ⊢
    exact Files.loadFile_congr text
  rw [Files.loadTree, Files.loadTree, mapM_congr_of_map (relisted.definitionFiles distinct path) each]

namespace FileTree

/-- Every directory below is at a path that leads somewhere. -/
def Accessible (path : String) (entries : List (String × FileTree)) : Prop :=
  ∀ around name contents, HasEntry entries around name (.directory contents) →
    isTooLong (extendPath path (around ++ [name])) = false

theorem Accessible.listed_iff (accessible : Accessible path entries) : Listed path [] entries f ↔
    ∃ around name text, f = (around ++ [name], .file text) ∧ HasEntry entries around name (.file text) ∧
      isDefinitionFile name = true := by
  constructor
  · rintro ⟨entry, named, -, leaf⟩
    rename_i around name t
    cases t with
    | file text => exact ⟨around, name, text, rfl, entry, named⟩
    | directory contents => simpa [accessible around name contents entry] using leaf contents rfl
  · rintro ⟨around, name, text, rfl, entry, named⟩
    rw [← List.nil_append around]
    refine .intro entry named ?_ nofun
    rcases List.eq_nil_or_concat' around with rfl | ⟨outer, last, rfl⟩
    · exact .inl rfl
    · obtain ⟨contents, outside⟩ := entry.directory_around
      exact .inr (accessible outer last contents outside)

/-- `found` are the definition files below a directory, each once and in the order of their names,
and no order of listing makes a difference. -/
structure Discovered (path : String) (entries : List (String × FileTree)) (found : List (List String × FileTree)) :
    Prop where
  exact : ∀ f, f ∈ found ↔ Listed path [] entries f
  files : Accessible path entries → ∀ f, f ∈ found ↔ ∃ around name text, f = (around ++ [name], .file text) ∧
    HasEntry entries around name (.file text) ∧ isDefinitionFile name = true
  increasing : found.Pairwise (·.1 < ·.1)
  relisted : ∀ entries', Relisted entries entries' →
    (definitionFiles path entries').map (reading path) = found.map (reading path)
  loaded : ∀ entries' (files files' : Files), Relisted entries entries' → files path = some (.directory entries) →
    files' path = some (.directory entries') → files'.loadDefinitions path = files.loadDefinitions path

/-- The search finds all definition files, as long as the paths of directories lead anywhere. One at too
long a path is not looked into, and is taken for a definition file if it has the name of one. -/
theorem definitionFiles_discovered (path : String) (distinct : Distinct entries) :
    Discovered path entries (definitionFiles path entries) where
  exact f := mem_definitionFiles
  files accessible f := mem_definitionFiles.trans accessible.listed_iff
  increasing := sortOn_increasing (distinct.nodup_search path)
  relisted entries' same := (same.definitionFiles distinct path).symm
  loaded entries' files files' same shown shown' := by
    rw [Files.loadDefinitions, Files.loadDefinitions, shown, shown']
    exact (same.loadTree distinct path).symm

end FileTree

namespace Sample

open FileTree

/-- A directory named like a definition file, with one in it. -/
def shelf : List (String × FileTree) :=
  [("x.toml", .directory [("notes.txt", .file none), ("b.toml", .file (some ""))]), ("a.json", .file (some ""))]

theorem shelf_directory (entry : HasEntry shelf around name (.directory contents)) :
    around = [] ∧ name = "x.toml" ∧ contents = [("notes.txt", .file none), ("b.toml", .file (some ""))] := by
  rcases entry with member | ⟨member, below⟩
  · exact ⟨rfl, by simpa [shelf] using member⟩
  · obtain ⟨rfl, rfl⟩ := by simpa [shelf] using member
    rcases below with member | ⟨member, _⟩ <;> simp at member

theorem shelf_distinct : Distinct shelf where
  here := by decide
  below around name contents entry := by
    obtain ⟨_, _, rfl⟩ := shelf_directory entry
    decide

theorem shelf_accessible : Accessible "shelf" shelf := by
  intro around name contents entry
  obtain ⟨rfl, rfl, rfl⟩ := shelf_directory entry
  decide +kernel

end Sample

/-- The directory is looked into and not taken, whichever way the shelf is listed. -/
theorem FileTree.definitionFiles_discovered_sample : Distinct Sample.shelf ∧ Accessible "shelf" Sample.shelf ∧
    (["x.toml", "b.toml"], .file (some "")) ∈ definitionFiles "shelf" Sample.shelf ∧
      (definitionFiles "shelf" Sample.shelf.reverse).map (reading "shelf") =
        (definitionFiles "shelf" Sample.shelf).map (reading "shelf") := by
  have discovered := definitionFiles_discovered "shelf" Sample.shelf_distinct
  have outer : ("x.toml", directory [("notes.txt", .file none), ("b.toml", .file (some ""))]) ∈ Sample.shelf :=
    List.mem_cons_self
  have held : HasEntry Sample.shelf ["x.toml"] "b.toml" (.file (some "")) := .deeper outer (.here (by simp))
  refine ⟨Sample.shelf_distinct, Sample.shelf_accessible, ?_, ?_⟩
  · exact (discovered.files Sample.shelf_accessible _).mpr ⟨_, _, _, rfl, held, by decide +kernel⟩
  · exact discovered.relisted _ (.order (List.reverse_perm _).symm)

namespace Sample

open FileTree

/-- A path of 4088 bytes that stays where it is until its last name. -/
def detour : String := String.join (List.replicate 2043 "./") ++ "/d"

def drawers : List (String × FileTree) :=
  [("a.toml", .file (some "")), ("directory", .directory [("b.toml", .file (some ""))])]

theorem utf8ByteSize_steps (n : Nat) : (String.join (List.replicate n "./")).utf8ByteSize = 2 * n := by
  induction n with
  | zero => rfl
  | succ n ih =>
    have step : "./".utf8ByteSize = 2 := rfl
    rw [List.replicate_succ, String.join_cons, String.utf8ByteSize_append, ih, step]
    omega

theorem utf8ByteSize_detour : detour.utf8ByteSize = 4088 := by
  rw [detour, String.utf8ByteSize_append, utf8ByteSize_steps]
  rfl

theorem drawer_tooLong : isTooLong (extendPath detour ["directory"]) = true := by
  have name : (Text.join "/" ["directory"]).utf8ByteSize = 9 := rfl
  simp only [isTooLong, extendPath, String.utf8ByteSize_append, utf8ByteSize_detour, name, pathBound,
    decide_eq_true_eq]
  omega

/-- The drawer is not looked into, and what lies in it is passed over. -/
theorem drawer_overlooked : isTooLong detour = false ∧
    HasEntry drawers ["directory"] "b.toml" (.file (some "")) ∧ isDefinitionFile "b.toml" = true ∧
      definitionFiles detour drawers = [(["a.toml"], .file (some ""))] := by
  have short : isTooLong detour = false := by
    rw [isTooLong, utf8ByteSize_detour]
    rfl
  have outer : ("directory", directory [("b.toml", .file (some ""))]) ∈ drawers := by simp [drawers]
  have taken : isDefinitionFile "a.toml" = true := by decide +kernel
  have passed : isDefinitionFile "directory" = false := by decide +kernel
  have among : definitionsAmong detour [] drawers = [(["a.toml"], .file (some ""))] := by
    simp [drawers, definitionsAmong, drawer_tooLong, definitionHere, taken, passed]
  have found := definitionFiles_perm detour drawers
  rw [among] at found
  exact ⟨short, .deeper outer (.here List.mem_cons_self), by decide +kernel, List.perm_singleton.mp found⟩

end Sample

end FetchPlan
