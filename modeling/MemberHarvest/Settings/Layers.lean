import MemberHarvest.Failure
import MemberHarvest.Settings.Reading

/-!
# Settings/Layers — options over a configuration file

A field takes its value from the options if they give one, and otherwise from the file, first under
the field's own key and then under its second one (`merged`). An option that is null or an empty
list does not count as given. The options may use a second key too; it comes last.
-/

namespace MemberHarvest.Settings

/-- Values under their keys. -/
abbrev Layer := List (String × Value)

/-- Whether an option counts as given. -/
def isGiven : Value → Bool
  | .null | .list [] => false
  | _ => true

/-- The option under a key, if it counts as given. -/
def given? (options : Layer) (key : String) : Option Value := (options.lookup key).filter isGiven

/-- What a layer holds for a field, under its own key or else under its second one. -/
def held? (layer : Layer) (f : Field) : Option Value :=
  (layer.lookup f.key).or (f.alias?.bind fun key => layer.lookup key)

/-- The value that a field takes from both layers. -/
def merged (file options : Layer) (f : Field) : Option Value :=
  ((given? options f.key).or (held? file f)).or (f.alias?.bind (given? options))

/-- Nothing to ignore may be written as null. -/
def ignoreNull (raw : Field → Option Value) : Field → Option Value
  | .ignore =>
    match raw .ignore with
    | some .null => none
    | v => v
  | f => raw f

/-- The settings that one layer gives. -/
def ofLayer (layer : Layer) : Except Failure Settings :=
  (read (held? layer)).mapError .invalid

/-- The settings that options over a file give. -/
def ofLayers (file options : Layer) : Except Failure Settings :=
  (read (ignoreNull (merged file options))).mapError .invalid

/-- The entries of a mapping. -/
abbrev Entries := List (Value × Value)

/-- A mapping as a layer: every key must be a text. -/
def layer : Entries → Except Failure Layer
  | [] => .ok []
  | (.text k, v) :: rest => (layer rest).map ((k, v) :: ·)
  | _ :: _ => .error .keyNotText

/-- The value under a key of a mapping. -/
def find? (entries : Entries) (key : String) : Option Value :=
  entries.findSome? fun e =>
    match e.1 with
    | .text k => if k = key then some e.2 else none
    | _ => none

/-- The settings that options over a mapping give. -/
def ofMapping (entries : Entries) (options : Layer) : Except Failure Settings := do
  ofLayers (← layer entries) options

end MemberHarvest.Settings
