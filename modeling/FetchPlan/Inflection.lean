import FetchPlan.Text.CharClass

/-! Singular forms of table names. A fixed list of irregular plurals comes first and ignores
case; the rules after it are about how a word ends and respect case. -/
namespace FetchPlan.Inflection

def irregular : List (String × String) :=
  [("person", "people"), ("child", "children"), ("man", "men"), ("woman", "women"),
   ("mouse", "mice"), ("leaf", "leaves"), ("life", "lives"), ("knife", "knives"),
   ("wife", "wives"), ("half", "halves"), ("hero", "heroes"), ("analysis", "analyses"),
   ("basis", "bases"), ("crisis", "crises"), ("diagnosis", "diagnoses"), ("thesis", "theses"),
   ("criterion", "criteria"), ("medium", "media"), ("index", "indices"),
   ("appendix", "appendices"), ("matrix", "matrices"), ("vertex", "vertices")]

def uncountable : List String :=
  ["accommodation", "adulthood", "advertising", "advice", "aggression", "aid", "air", "aircraft",
   "alcohol", "anger", "applause", "arithmetic", "assistance", "athletics", "bacon", "baggage",
   "beef", "biology", "blood", "botany", "bread", "butter", "carbon", "cardboard", "cash",
   "chalk", "chaos", "chess", "crossroads", "countryside", "dancing", "deer", "dignity", "dirt",
   "dust", "economics", "education", "electricity", "engineering", "enjoyment", "envy",
   "equipment", "ethics", "evidence", "evolution", "fame", "fiction", "flour", "flu", "food",
   "fuel", "fun", "furniture", "gallows", "garbage", "garlic", "genetics", "gold", "golf",
   "gossip", "grammar", "gratitude", "grief", "guilt", "gymnastics", "happiness", "hardware",
   "harm", "hate", "hatred", "health", "heat", "help", "homework", "honesty", "honey",
   "hospitality", "housework", "humour", "hunger", "hydrogen", "ice", "importance", "inflation",
   "information", "innocence", "iron", "irony", "jam", "jewelry", "judo", "karate", "knowledge",
   "lack", "laughter", "lava", "leather", "leisure", "lightning", "linguine", "linguini",
   "linguistics", "literature", "litter", "livestock", "logic", "loneliness", "luck", "luggage",
   "macaroni", "machinery", "magic", "management", "mankind", "marble", "mathematics",
   "mayonnaise", "measles", "methane", "milk", "money", "mud", "music", "mumps", "nature",
   "news", "nitrogen", "nonsense", "nurture", "nutrition", "obedience", "obesity", "oxygen",
   "pasta", "patience", "physics", "poetry", "pollution", "poverty", "pride", "psychology",
   "publicity", "punctuation", "quartz", "racism", "relaxation", "reliability", "research",
   "respect", "revenge", "rice", "rubbish", "rum", "safety", "scenery", "seafood", "seaside",
   "series", "shame", "sheep", "shopping", "sleep", "smoke", "smoking", "snow", "soap",
   "software", "soil", "spaghetti", "species", "steam", "stuff", "stupidity", "sunshine",
   "symmetry", "tennis", "thirst", "thunder", "timber", "traffic", "transportation", "trust",
   "underwear", "unemployment", "unity", "validity", "veal", "vegetation", "vegetarianism",
   "vengeance", "violence", "vitality", "warmth", "wealth", "weather", "welfare", "wheat",
   "wildlife", "wisdom", "yoga", "zinc", "zoology"]

/-- Plurals that no rule about endings covers. -/
def exact : List (String × String) :=
  [("oxen", "ox"), ("boxes", "box"), ("men", "man"), ("women", "woman"), ("dice", "die"),
   ("yeses", "yes"), ("feet", "foot"), ("eaves", "eave"), ("geese", "goose"), ("teeth", "tooth"),
   ("quizzes", "quiz"), ("axis", "axis"), ("axes", "axis")]

/-- A rule about a plural's ending. Text that a rule does not keep is dropped. -/
inductive Rule where
  /-- A word with this ending becomes `singular`, whatever stands before the ending. -/
  | whole (ending singular : String)
  /-- A word with this beginning becomes `singular`. -/
  | opening (beginning singular : String)
  /-- The ending is replaced; of what stands before it the last run of word characters stays. -/
  | stem (ending replacement : String)
  /-- As `stem`, for an ending after a character that is none of `excluded` and is dropped too. -/
  | dropping (excluded ending replacement : String)
  /-- As `stem`, for an ending after `qu` or a character that is none of `excluded`, both kept. A
  dollar sign there begins the name of a part to insert, which the replacement completes. No part
  has that name, so nothing stands for both. -/
  | keeping (excluded ending replacement : String)

def wholes (endings : List String) (singular : String) : List Rule := endings.map (.whole · singular)

def rules : List Rule :=
  [.whole "databases" "database", .whole "quizzes" "quiz", .whole "matrices" "matrix",
   .whole "vertices" "vertex", .whole "indices" "index", .opening "oxen" "ox"] ++
  wholes ["alias", "aliases"] "alias" ++ wholes ["status", "statuses"] "status" ++
  wholes ["octopus", "octopi"] "octopus" ++ wholes ["virus", "viri"] "virus" ++
  wholes ["crisis", "crises"] "crisis" ++ wholes ["testis", "testes"] "testis" ++
  [.whole "shoes" "shoe"] ++ wholes ["bus", "buses"] "bus" ++
  [.whole "mice" "mouse", .whole "lice" "louse",
   .stem "xes" "x", .stem "ches" "ch", .stem "sses" "ss", .stem "shes" "sh",
   .whole "movies" "movie", .whole "series" "series",
   .keeping "aeiouy" "ies" "y",
   .stem "lves" "f", .stem "rves" "f", .stem "tives" "", .stem "hives" "",
   .dropping "f" "ves" "fe"] ++
  wholes ["analysis", "analyses"] "analysis" ++ wholes ["basis", "bases"] "basis" ++
  wholes ["diagnosis", "diagnoses"] "diagnosis" ++
  wholes ["parenthesis", "parentheses"] "parenthesis" ++
  wholes ["prognosis", "prognoses"] "prognosis" ++ wholes ["synopsis", "synopses"] "synopsis" ++
  wholes ["thesis", "theses"] "thesis" ++
  [.stem "ta" "um", .stem "ia" "um", .stem "oes" "", .whole "news" "news", .stem "ss" "ss",
   .stem "s" ""]

def lastRun (reversed : List Char) : List Char := (reversed.takeWhile Text.isWordChar).reverse

/-- What stands before an ending, backwards. -/
def beforeEnding (ending : String) (reversed : List Char) : Option (List Char) :=
  let back := ending.toList.reverse
  if back.isPrefixOf reversed then some (reversed.drop back.length) else none

def Rule.apply (word : List Char) : Rule → Option String
  | .whole ending singular => (beforeEnding ending word.reverse).map fun _ => singular
  | .opening beginning singular =>
    if beginning.toList.isPrefixOf word then some singular else none
  | .stem ending replacement =>
    (beforeEnding ending word.reverse).map fun before => String.ofList (lastRun before) ++ replacement
  | .dropping excluded ending replacement =>
    match beforeEnding ending word.reverse with
    | some (c :: before) =>
      if c ∈ excluded.toList then none else some (String.ofList (lastRun before) ++ replacement)
    | _ => none
  | .keeping excluded ending replacement =>
    match beforeEnding ending word.reverse with
    | some ('u' :: 'q' :: before) => some (String.ofList (lastRun before) ++ "qu" ++ replacement)
    | some (c :: before) =>
      if c ∈ excluded.toList then none
      else if c = '$' then some (String.ofList (lastRun before))
      else some (String.ofList (lastRun before ++ [c]) ++ replacement)
    | _ => none

/-- Lower case where that is an ASCII letter: of the ASCII capitals and of the Kelvin sign. -/
def foldCase (c : Char) : Char := if c = '\u212a' then 'k' else c.toLower

def foldCaseText (s : String) : String := String.ofList (s.toList.map foldCase)

/-- The singular of a word by the rules that respect case. -/
def regularSingular (word : String) : String :=
  if word ∈ uncountable then word
  else match exact.find? (·.1 = word) with
    | some (_, singular) => singular
    | none => (rules.findSome? (Rule.apply word.toList)).getD word

/-- Rules for words whose singular is regular. -/
class Inflector where
  singular : String → String

instance : Inflector := ⟨regularSingular⟩

def singularize [Inflector] (word : String) : String :=
  let folded := foldCaseText word
  match irregular.find? (fun (singular, plural) => folded = singular || folded = plural) with
  | some (singular, _) => singular
  | none => Inflector.singular word

end FetchPlan.Inflection
