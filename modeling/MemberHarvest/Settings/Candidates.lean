import MemberHarvest.Settings.Configuration

/-!
# Settings/Candidates — what a setting would be before anyone is asked

An option that is not null comes first, then what the file holds. The solution, the output and the
names of the interfaces are asked for where their candidate says nothing.
-/

namespace MemberHarvest.Settings

/-- The fields that are asked for. -/
def asked : List Field := [.solution, .output, .interfaces]

/-- The question for a field. -/
def question : Field → String
  | .solution => "Enter solution path"
  | .output => "Enter output path"
  | .interfaces => "Enter interface names, separated by comma"
  | f => f.key

/-- What entries hold for a field, under its own key or else under its second one. -/
def heldIn? (entries : Entries) (f : Field) : Option Value :=
  (find? entries f.key).or (f.alias?.bind (find? entries))

/-- An option that is not null. -/
def option? (options : Layer) (f : Field) : Option Value :=
  (options.lookup f.key).filter fun v => match v with
    | .null => false
    | _ => true

/-- What a field would be before anyone is asked; null where nothing is known. -/
def candidate (entries : Entries) (options : Layer) (f : Field) : Value :=
  ((option? options f).or (heldIn? entries f)).getD .null

/-- Whether a candidate says nothing. -/
def needsAnswer : Value → Bool
  | .null | .list [] => true
  | .text s => s.isEmpty
  | _ => false

/-- The options with what the fields have been settled to. -/
def settle (options : Layer) (settled : List (Field × Value)) : Layer :=
  (settled.map fun e => (e.1.key, e.2)) ++ options

end MemberHarvest.Settings
