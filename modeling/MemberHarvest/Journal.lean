import MemberHarvest.Failure

/-!
# Journal — what a harvest reports while it runs

Every report is a value (`Entry`); its severity and wording are functions of it. `Journaled α` is an
outcome together with the reports made on the way, which stay when the outcome is a failure.
-/

namespace MemberHarvest

/-- How severe a report is. -/
inductive Severity where
  | debug
  | info
  | warning
  | error
  deriving DecidableEq, Repr

/-- The rank of a severity: a journal kept at a level leaves out what ranks below it. -/
def Severity.rank : Severity → Nat
  | .debug => 10
  | .info => 20
  | .warning => 30
  | .error => 40

/-- The name of a severity. -/
def Severity.name : Severity → String
  | .debug => "DEBUG"
  | .info => "INFO"
  | .warning => "WARNING"
  | .error => "ERROR"

/-- A report. -/
inductive Entry where
  | indexed (interface_ : String) (members : Nat) (path : Path)
  | duplicate (interface_ : String) (path : Path)
  | noNamespace (path : Path) (interface_ : String)
  | noDeclaration (path : Path) (interface_ : String)
  | ignoring (path : Path)
  | loaded (project : String) (files : Nat)
  | noProjects (path : Path)
  | scanning (solution : String) (interfaces : List String)
  | harvested (project : String) (files interfaces records : Nat)
  | wrote (records : Nat) (path : Path)
  | failed (message : String)
  deriving DecidableEq, Repr

/-- The severity of a report. -/
def Entry.severity : Entry → Severity
  | .scanning .. | .harvested .. | .wrote .. => .info
  | .noProjects .. => .warning
  | .failed .. => .error
  | _ => .debug

/-- The wording of a report. -/
def Entry.message : Entry → String
  | .indexed name count path => s!"Indexed {name} with {count} member(s) from {path}"
  | .duplicate name path => s!"Ignoring duplicate declaration of {name} in {path}"
  | .noNamespace path name => s!"{path} implements {name} but has no namespace line; skipping"
  | .noDeclaration path name =>
    s!"{path} implements {name} but no declaration was indexed; skipping"
  | .ignoring path => s!"Ignoring {path}"
  | .loaded name count => s!"Project {name}: {count} file(s)"
  | .noProjects path => s!"No projects found in {path}"
  | .scanning solution names =>
    let listing := ", ".intercalate names
    s!"Scanning {solution} for " ++ (if listing.isEmpty then "(no interfaces)" else listing)
  | .harvested name files declared records =>
    s!"Project {name}: {files} file(s), {declared} interface(s) indexed, {records} record(s)"
  | .wrote count path => s!"Wrote {count} record(s) to {path}"
  | .failed message => message

/-- A report as one line. -/
def Entry.line (e : Entry) : String := s!"{e.severity.name} {e.message}"

/-! ## Outcomes with their reports -/

/-- An outcome and the reports made on the way to it. -/
structure Journaled (α : Type) where
  journal : List Entry
  outcome : Except Failure α

namespace Journaled

variable {α β : Type}

/-- Nothing to report. -/
protected def pure (a : α) : Journaled α := ⟨[], .ok a⟩

/-- Go on after a success; a failure ends the run. -/
protected def bind (x : Journaled α) (f : α → Journaled β) : Journaled β :=
  match x.outcome with
  | .error e => ⟨x.journal, .error e⟩
  | .ok a => ⟨x.journal ++ (f a).journal, (f a).outcome⟩

instance : Monad Journaled where
  pure := Journaled.pure
  bind := Journaled.bind

/-- Make one report. -/
def report (e : Entry) : Journaled Unit := ⟨[e], .ok ()⟩

/-- Make several reports. -/
def reports (es : List Entry) : Journaled Unit := ⟨es, .ok ()⟩

/-- An outcome without reports. -/
def ofExcept (x : Except Failure α) : Journaled α := ⟨[], x⟩

/-- End with a failure. -/
def fail (e : Failure) : Journaled α := ⟨[], .error e⟩

instance : MonadLift (Except Failure) Journaled := ⟨ofExcept⟩

@[simp] theorem journal_pure (a : α) : (pure a : Journaled α).journal = [] := rfl
@[simp] theorem outcome_pure (a : α) : (pure a : Journaled α).outcome = .ok a := rfl

theorem bind_of_ok {x : Journaled α} {a : α} (f : α → Journaled β) (h : x.outcome = .ok a) :
    x >>= f = ⟨x.journal ++ (f a).journal, (f a).outcome⟩ := by
  show Journaled.bind x f = _
  simp [Journaled.bind, h]

theorem bind_of_error {x : Journaled α} {e : Failure} (f : α → Journaled β)
    (h : x.outcome = .error e) : x >>= f = ⟨x.journal, .error e⟩ := by
  show Journaled.bind x f = _
  simp [Journaled.bind, h]

end Journaled
end MemberHarvest
