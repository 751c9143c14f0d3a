import MemberHarvest.Settings.FieldError
import MemberHarvest.Text.Quoted

/-!
# Command/Usage — what is wrong with the arguments of a command
-/

namespace MemberHarvest.Command

/-- What is wrong with the arguments. A number that is out of place says what is wrong with it. -/
inductive Usage where
  | noCommand
  | unknownCommand (name : String)
  | unknownOption (name : String)
  | lacksValue (name : String)
  | takesNoValue (name : String)
  | leftOver (arguments : List String)
  | badWorkers (complaint : Settings.Complaint)
  deriving DecidableEq, Repr

/-- The wording of a complaint about the arguments; the one about a number has none. -/
def Usage.message : Usage → String
  | .noCommand => "Missing command."
  | .unknownCommand name => s!"No such command {Text.quoted name}."
  | .unknownOption name => s!"No such option: {name}"
  | .lacksValue name => s!"Option {Text.quoted name} requires an argument."
  | .takesNoValue name => s!"Option {Text.quoted name} does not take a value."
  | .leftOver arguments =>
    let listing := " ".intercalate arguments
    s!"Got unexpected extra argument(s) ({listing})"
  | .badWorkers _ => ""

end MemberHarvest.Command
