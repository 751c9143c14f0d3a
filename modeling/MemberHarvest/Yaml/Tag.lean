import MemberHarvest.Yaml.Numeral
import MemberHarvest.Yaml.Timestamp

/-!
# Yaml/Tag — what a part of a document is meant as

A tag is written with a name, or follows from how a plain scalar looks (`ofPlain`).
-/

namespace MemberHarvest.Yaml

/-- What a node is meant as. -/
inductive Tag where
  | null
  | truth
  | integer
  | float
  | binary
  | timestamp
  | text
  | sequence
  | pairs
  | mapping
  | set
  | merge
  | value
  | unknown
  deriving DecidableEq, Repr

namespace Tag

/-- What the names of the standard tags begin with. -/
def standard : String := "tag:yaml.org,2002:"

/-- The standard tags. -/
def names : List (String × Tag) :=
  [("null", null), ("bool", truth), ("int", integer), ("float", float), ("binary", binary),
    ("timestamp", timestamp), ("str", text), ("seq", sequence), ("omap", pairs), ("pairs", pairs),
    ("map", mapping), ("set", set), ("merge", merge), ("value", value)]

/-- The tag of a name. -/
def ofName (name : String) : Tag :=
  ((names.find? fun row => standard ++ row.1 == name).map (·.2)).getD unknown

/-- Truth values, by their words in small letters. -/
def truths : List (String × Bool) :=
  [("yes", true), ("no", false), ("true", true), ("false", false), ("on", true), ("off", false)]

/-- A word in small letters, with a capital, and in capitals. -/
def spellings (word : String) : List String := [word, word.capitalize, word.toUpper]

/-- The words that are no text. -/
def words : List (String × Tag) :=
  (truths.flatMap fun row => (spellings row.1).map fun w => (w, truth)) ++
    (("" :: "~" :: spellings "null").map fun w => (w, null)) ++
    [("<<", merge), ("=", value), ("!", unknown), ("&", unknown), ("*", unknown)]

/-- The tag that follows from how a plain scalar looks. -/
def ofPlain (s : String) : Tag :=
  match words.lookup s with
  | some t => t
  | none =>
    if Numeral.isFloat s.toList then float
    else if Numeral.isInteger s.toList then integer
    else if Timestamp.isTimestamp s.toList then timestamp
    else text

end Tag
end MemberHarvest.Yaml
