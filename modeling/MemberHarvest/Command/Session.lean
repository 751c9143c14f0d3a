import MemberHarvest.Command.Usage
import MemberHarvest.Journal.Level
import MemberHarvest.Workspace

/-!
# Command/Session — what a command reads, prints and reports

A command works on a workspace. It reads lines, prints text and keeps a journal, and all of this
stays as it is when the command stops early.
-/

namespace MemberHarvest.Command

/-- What a command has to do with. -/
structure Session where
  workspace : Workspace
  input : List String
  printed : String
  journal : List Entry
  setup : Journal.Setup

/-- A session at its beginning. -/
def Session.start (w : Workspace) (input : List String) : Session := ⟨w, input, "", [], .initial⟩

/-- The reports of a session that are shown. -/
def Session.shown (s : Session) : List Entry := Journal.kept s.setup.shown s.journal

/-- Why a command stops: its arguments are wrong, its input ends at a question, or something fails.
A failure of the harvest itself is reported in the journal. -/
inductive Stop where
  | usage (u : Usage)
  | aborted
  | failure (f : Failure)
  | reported (f : Failure)
  deriving DecidableEq, Repr

/-- Whether a failure is the user's doing. -/
def isUsage : Failure → Bool
  | .invalid _ | .configuration _ => true
  | _ => false

/-- The number with which a command ends. -/
def Stop.exitCode : Stop → Nat
  | .usage _ => 2
  | .aborted | .reported _ => 1
  | .failure f => if isUsage f then 2 else 1

/-- A part of a command. -/
abbrev Act := ExceptT Stop (StateM Session)

namespace Act

/-- Stop. -/
def stop {α : Type} (s : Stop) : Act α := throw s

/-- Go on with an outcome. -/
def ofExcept {α : Type} : Except Failure α → Act α
  | .ok a => return a
  | .error f => stop (.failure f)

instance : MonadLift (Except Failure) Act := ⟨ofExcept⟩

/-- The workspace as it is. -/
def workspace : Act Workspace := do return (← get).workspace

/-- Print a text. -/
def print (s : String) : Act Unit := modify fun t => { t with printed := t.printed ++ s }

/-- From here on the journal is kept and shown at other levels. -/
def setUp (setup : Journal.Setup) : Act Unit := modify fun t => { t with setup }

/-- Add reports to the journal, as far as it is kept. -/
def note (es : List Entry) : Act Unit :=
  modify fun t => { t with journal := t.journal ++ Journal.kept t.setup.kept es }

/-- Go on with an outcome and its reports. -/
def ofJournaled {α : Type} (x : Journaled α) : Act α := do
  note x.journal
  match x.outcome with
  | .ok a => return a
  | .error f =>
    if f.path?.isSome then
      note [.failed f.message]
      stop (.reported f)
    else stop (.failure f)

end Act

/-! ## Questions -/

/-- What a question prints, its answer, and the lines behind it. An empty line is no answer. -/
def answer? (question : String) : List String → String × Option (String × List String)
  | [] => (question, none)
  | line :: rest =>
    if line.isEmpty then
      let (printed, found) := answer? question rest
      (question ++ "\n" ++ printed, found)
    else (question ++ line ++ "\n", some (line, rest))

/-- Ask a question. -/
def Act.ask (question : String) : Act String := do
  let (printed, found) := answer? (question ++ ": ") (← get).input
  Act.print printed
  match found with
  | some (line, rest) =>
    modify fun t => { t with input := rest }
    return line
  | none => stop .aborted

example : answer? "? " ["", "a", "b"] = ("? \n? a\n", some ("a", ["b"])) := by decide

end MemberHarvest.Command
