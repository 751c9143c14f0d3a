import MemberHarvest.Command.Arguments
import MemberHarvest.Command.Session
import MemberHarvest.Harvest.Run
import MemberHarvest.Settings.Candidates
import MemberHarvest.Text.Lines

/-!
# Command/Run — the two commands

`scrape` writes the document of a harvest and asks for what it does not know. `interfaces` prints
the members that each project declares, and asks for nothing.
-/

namespace MemberHarvest.Command

open Act
open Settings (Entries Field Layer Value)

/-! ## Settings of a command -/

/-- The configuration file that arguments name. -/
def configurationPath? (a : Arguments) : Option Path := (a.text? .configuration).map .ofString

/-- The arguments of a command. -/
def readArguments (options : Options) (arguments : List String) : Act Arguments := do
  match Arguments.ofList options arguments with
  | .error u => stop (.usage u)
  | .ok a =>
    match a.check with
    | .ok () => return a
    | .error (.usage u) => stop (.usage u)
    | .error .nul => stop (.failure .nulInPath)

/-- A candidate for a field, or the answer to its question. -/
def settleField (entries : Entries) (options : Layer) (f : Field) : Act (Field × Value) := do
  let v := Settings.candidate entries options f
  if Settings.needsAnswer v then return (f, .text (← ask (Settings.question f))) else return (f, v)

/-- The settings of a harvest, after the questions. -/
def resolve (entries : Entries) (options : Layer) : Act Settings := do
  let settled ← Settings.asked.mapM (settleField entries options)
  ofExcept (Settings.ofMapping entries (Settings.settle options settled))

/-- The options of a listing: what is known about the solution and the names, and an output that may
be left out. -/
def listingLayer (entries : Entries) (options : Layer) : Layer :=
  let output := ((Settings.find? entries Field.output.key).filter (!·.isHollow)).getD (.text "")
  Settings.settle options
    [(.solution, Settings.candidate entries options .solution), (.output, output),
      (.interfaces, Settings.candidate entries options .interfaces)]

/-- The settings of a listing, which must be known. -/
def listingSettings (entries : Entries) (options : Layer) : Except Failure Settings :=
  if (Settings.candidate entries options .solution).isHollow ∨
      (Settings.candidate entries options .interfaces).isHollow then
    .error (.configuration .incomplete)
  else Settings.ofMapping entries (listingLayer entries options)

/-! ## The commands -/

/-- Harvest, and write the document. -/
def scrape (arguments : List String) : Act Unit := do
  let a ← readArguments harvestOptions arguments
  let entries ← ofExcept (Settings.Configuration.load (← workspace) (configurationPath? a))
  let settings ← resolve entries a.layer
  setUp (← ofExcept (Journal.setup settings.logLevel false))
  let (written, result) := Harvest.run (← workspace) settings
  modify fun t => { t with workspace := written }
  let _ ← ofJournaled result
  print "Done\n"

/-- The document that lists the members of catalogues. -/
def listing (catalogues : List (String × Catalogue)) : Json :=
  .object (catalogues.map fun (name, c) =>
    (name, .object (c.declarations.map fun d => (d.interfaceName, .array (d.members.map .text)))))

/-- The catalogues of all projects. -/
def catalogues (w : Workspace) (s : Settings) : Journaled (List (String × Catalogue)) := do
  let projects ← Project.loadAll w s.ignore s.solution
  Harvest.catalogues w s.encoding s.interfaces projects

/-- Print the members that each project declares. -/
def interfaces (arguments : List String) : Act Unit := do
  let a ← readArguments commonOptions arguments
  let entries ← ofExcept (Settings.Configuration.load (← workspace) (configurationPath? a))
  let settings ← ofExcept (listingSettings entries a.layer)
  setUp (← ofExcept (Journal.setup settings.logLevel true))
  let found ← ofJournaled (catalogues (← workspace) settings)
  print ((← ofExcept (listing found).document) ++ "\n")

/-! ## Choosing a command -/

/-- Whether a name begins with a sign. What follows such a name is first looked at for options. -/
def beginsWithSign (name : String) : Bool :=
  match name.toList with
  | c :: _ => c.toNat < 128 && !c.isAlphanum
  | [] => false

/-- What is wrong with the name of a command that does not exist. -/
def unknown (name : String) (rest : List String) : Usage :=
  match rest with
  | a :: _ =>
    if beginsWithSign name ∧ isOption a ∧ a ≠ "--" then .unknownOption (reportedName a)
    else .unknownCommand name
  | [] => .unknownCommand name

/-- The command of a name. -/
def perform : List String → Act Unit
  | [] => stop (.usage .noCommand)
  | name :: rest =>
    if name = "scrape" then scrape rest
    else if name = "interfaces" then interfaces rest
    else stop (.usage (unknown name rest))

/-- The command that arguments ask for. No option comes before its name. -/
def choose : List String → Act Unit
  | [] => stop (.usage .noCommand)
  | a :: rest =>
    if a = "--" then perform rest
    else if isOption a then stop (.usage (.unknownOption (reportedName a)))
    else perform (a :: rest)

/-- Run the command that arguments ask for, on an input. -/
def run (w : Workspace) (arguments : List String) (input : String) : Except Stop Unit × Session :=
  let lines := (Text.sourceLines input.toList).map String.ofList
  (choose arguments).run.run (.start w lines)

end MemberHarvest.Command
