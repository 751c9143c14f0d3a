import MemberHarvest.Journal
import MemberHarvest.Text.Upcase

/-!
# Journal/Level — how much of a journal is kept

A journal is kept at a level, given by its name in capitals or small letters. Commands whose output
is their result show only warnings and errors, at whatever level the journal is kept.
-/

namespace MemberHarvest.Journal

/-- The ranks of the levels. -/
def levels : List (String × Nat) :=
  [("NOTSET", 0), ("DEBUG", 10), ("INFO", 20), ("WARN", 30), ("WARNING", 30), ("ERROR", 40),
    ("CRITICAL", 50), ("FATAL", 50)]

/-- What is kept and what is shown. -/
structure Setup where
  kept : Nat
  shown : Nat
  deriving DecidableEq, Repr

/-- The journal before anything is set: warnings and errors. -/
def Setup.initial : Setup := ⟨30, 0⟩

/-- Keep a journal at a level; `quiet` shows warnings and errors only. -/
def setup (level : String) (quiet : Bool) : Except Failure Setup :=
  let name := Text.upcase level
  match levels.lookup name with
  | some rank => .ok ⟨rank, if quiet then 30 else 0⟩
  | none => .error (.unknownLevel name)

/-- The reports that are kept from a rank on. -/
def kept (rank : Nat) (es : List Entry) : List Entry := es.filter (fun e => rank ≤ e.severity.rank)

/-- The name of a channel: its parts with dots between them. The channel without a name is the
root. -/
def channelName (parts : List String) : String :=
  let name := ".".intercalate parts
  if name.isEmpty then "root" else name

end MemberHarvest.Journal
