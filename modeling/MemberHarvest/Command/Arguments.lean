import MemberHarvest.Command.Usage
import MemberHarvest.Failure
import MemberHarvest.Number.Reading
import MemberHarvest.Settings.Layers

/-!
# Command/Arguments — options and what they give

An option takes its value behind an equals sign or as the next argument, whatever that looks like.
Of a repeated option the last value counts, except that patterns to ignore are collected. Two dashes
end the options.
-/

namespace MemberHarvest.Command

open Settings (Field Layer Value)

/-- What an option is about: a field of the settings, or the configuration file. -/
inductive Parameter where
  | field (f : Field)
  | configuration
  deriving DecidableEq, Repr

/-- What an option does: it takes a value, or it sets a field to a truth value. -/
inductive Effect where
  | takes (p : Parameter)
  | sets (f : Field) (b : Bool)
  deriving DecidableEq, Repr

/-- The options of a command under their names. -/
abbrev Options := List (String × Effect)

/-- Options that both commands have. -/
def commonOptions : Options :=
  [("--solution", .takes (.field .solution)), ("--interfaces", .takes (.field .interfaces)),
    ("--config", .takes .configuration), ("--ignore", .takes (.field .ignore)),
    ("--encoding", .takes (.field .encoding)), ("--log-level", .takes (.field .logLevel))]

/-- The options of a harvest. -/
def harvestOptions : Options :=
  commonOptions ++
    [("--output", .takes (.field .output)), ("--max-workers", .takes (.field .maxWorkers)),
      ("--eof-fallback", .sets .eofFallback true), ("--no-eof-fallback", .sets .eofFallback false),
      ("--wrap-items", .sets .wrapItems true), ("--no-wrap-items", .sets .wrapItems false)]

/-- A value that an option gives: a text or a truth value. -/
inductive Given where
  | text (s : String)
  | truth (b : Bool)
  deriving DecidableEq, Repr

/-- What the options give, in their order, and the arguments that belong to none. -/
structure Arguments where
  given : List (Parameter × Given)
  others : List String
  deriving DecidableEq, Repr

/-! ## Reading -/

/-- Whether an argument is an option; a dash alone is none. -/
def isOption (a : String) : Bool := a.length != 1 && a.toList.head? == some '-'

/-- The name of an option, and the value behind its equals sign. -/
def cutOption (a : String) : String × Option String :=
  let cs := a.toList
  match cs.dropWhile (· != '=') with
  | '=' :: value => (String.ofList (cs.takeWhile (· != '=')), some (String.ofList value))
  | _ => (a, none)

/-- The name under which an unknown option is reported: with one dash, its first letter. -/
def reportedName (a : String) : String :=
  match a.toList with
  | '-' :: '-' :: _ => (cutOption a).1
  | '-' :: c :: _ => String.ofList ['-', c]
  | _ => a

/-- What a list of arguments gives. -/
def Arguments.ofList (options : Options) : List String → Except Usage Arguments
  | [] => .ok ⟨[], []⟩
  | a :: rest =>
    if a = "--" then .ok ⟨[], rest⟩
    else if isOption a then
      let (name, value?) := cutOption a
      match options.lookup name, value? with
      | none, _ => .error (.unknownOption (reportedName a))
      | some (.sets _ _), some _ => .error (.takesNoValue name)
      | some (.sets f b), none => do
        let more ← ofList options rest
        return { more with given := (.field f, .truth b) :: more.given }
      | some (.takes p), some value => do
        let more ← ofList options rest
        return { more with given := (p, .text value) :: more.given }
      | some (.takes p), none =>
        match rest with
        | [] => .error (.lacksValue name)
        | value :: rest => do
          let more ← ofList options rest
          return { more with given := (p, .text value) :: more.given }
    else do
      let more ← ofList options rest
      return { more with others := a :: more.others }

namespace Arguments

/-! ## What they give -/

/-- All that is given for a parameter, in order. -/
def values (a : Arguments) (p : Parameter) : List Given :=
  a.given.filterMap fun e => if e.1 = p then some e.2 else none

/-- What counts for a parameter. -/
def last? (a : Arguments) (p : Parameter) : Option Given := (a.values p).getLast?

/-- What counts for a parameter, where it is a text. -/
def text? (a : Arguments) (p : Parameter) : Option String :=
  match a.last? p with
  | some (.text s) => some s
  | _ => none

/-- The number of workers that a text gives. -/
def workers (s : String) : Except Settings.Complaint Int :=
  match Number.integerText? s with
  | some n => if 1 ≤ n then .ok n else .error .tooSmall
  | none => .error .unclearInteger

/-- A value as the option of a field. -/
def valueOf (f : Field) : Given → Value
  | .truth b => .truth b
  | .text s =>
    match f with
    | .interfaces => .list ((Settings.splitNames s).map .text)
    | .maxWorkers => .integer ((workers s).toOption.getD 1)
    | _ => .text s

/-- The patterns to ignore. -/
def ignored (a : Arguments) : Value :=
  .list ((a.values (.field .ignore)).map (valueOf .ignore))

/-- The option that counts for a field. -/
def option? (a : Arguments) (f : Field) : Option Value :=
  match f with
  | .ignore => some a.ignored
  | f => (a.last? (.field f)).map (valueOf f)

/-- The options as a layer over the configuration file. -/
def layer (a : Arguments) : Layer :=
  [Field.solution, .output, .interfaces, .ignore, .encoding, .eofFallback, .wrapItems, .maxWorkers,
    .logLevel].filterMap fun f => (a.option? f).map fun v => (f.key, v)

end Arguments

/-- Why arguments are refused: what is wrong with them, or a path that no file can have. -/
inductive Objection where
  | usage (u : Usage)
  | nul
  deriving DecidableEq, Repr

/-- What is wrong with the value that counts for a parameter. -/
def Arguments.objection? (a : Arguments) (p : Parameter) : Option Objection :=
  match p, a.text? p with
  | .field .maxWorkers, some s =>
    match workers s with
    | .ok _ => none
    | .error c => some (.usage (.badWorkers c))
  | .configuration, some s => if s.toList.contains '\x00' then some .nul else none
  | _, _ => none

/-- Arguments whose values make sense and that all belong to options. Values are looked at in the
order in which their options first come. -/
def Arguments.check (a : Arguments) : Except Objection Unit :=
  match a.given.findSome? fun e => a.objection? e.1 with
  | some o => .error o
  | none => if a.others.isEmpty then .ok () else .error (.usage (.leftOver a.others))

example :
    (Arguments.ofList harvestOptions ["--ignore=a=b", "--ignore", "--config", "x",
      "--", "-y"]).toOption =
    some ⟨[(.field .ignore, .text "a=b"), (.field .ignore, .text "--config")], ["x", "-y"]⟩ := by
  decide +kernel

end MemberHarvest.Command
