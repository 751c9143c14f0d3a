import MemberHarvest.Proofs.Settings.Mapping
import MemberHarvest.Proofs.Workspace.Looking
import MemberHarvest.Proofs.Yaml.Document

/-!
# Proofs/Settings/Configuration — what comes of a configuration file

A configuration gives entries just where it is a mapping, or a document that counts as nothing, or
is neither named nor there (`load_eq_ok_iff`). Else the user is told what is wrong with it
(`Complaint`), or it fails on the way to its document in a manner that nothing looks after
(`Escape`), and which of the two it is depends on the cause alone (`load_eq_error_iff`).
-/

namespace MemberHarvest

open Outcome

namespace Workspace

variable {w : Workspace} {p : Path}

theorem exists?_of_readBytes {bytes : Text.Bytes} (h : w.readBytes p = .ok bytes) :
    w.exists? p = .ok true := by
  obtain ⟨hnul, place, hplace, -⟩ := readBytes_eq_ok_iff.1 h
  simp [exists?, probe, hnul, hplace]

theorem holdsNul_of_exists? (h : w.exists? p = .ok true) : p.holdsNul = false := by
  rw [exists?, probe] at h
  split at h
  · cases h
  · rename_i hnul
    exact Bool.eq_false_iff.2 hnul

/-- Where a path names a node, its bytes are read or refused. -/
theorem readBytes_mapError_eq_error_iff (h : w.exists? p = .ok true) {e : Failure} :
    (w.readBytes p).mapError (·.toFailure .refused) = .error e ↔
      ∃ r, w.readBytes p = .error (.refused r) ∧ e = .refused r := by
  rw [mapError_eq_error_iff]
  constructor
  · rintro ⟨o, ho, rfl⟩
    cases o with
    | nul => exact absurd ho (readBytes_ne_nul (holdsNul_of_exists? h) w)
    | refused r => exact ⟨r, ho, rfl⟩
  · rintro ⟨r, hr, rfl⟩
    exact ⟨.refused r, hr, rfl⟩

end Workspace

namespace Settings.Configuration

open Workspace (exists?_of_readBytes)

variable {w : Workspace} {path : Path} {path? : Option Path} {bytes : Text.Bytes}
  {entries : Entries} {v : Value} {e : Failure}

/-! ## Documents -/

/-- The document at a path. -/
def document (w : Workspace) (path : Path) : Except Failure Value := do
  (Yaml.load (← (w.readBytes path).mapError (·.toFailure .refused))).mapError (failureOf path)

/-- There are bytes at a path, and reading them comes to this value, or stops in this way. -/
def ReadsAs (w : Workspace) (path : Path) (result : Except Yaml.Halt Value) : Prop :=
  ∃ bytes, w.readBytes path = .ok bytes ∧ Yaml.load bytes = result

/-- The document of a file is what it reads as. -/
theorem document_eq_ok_iff : document w path = .ok v ↔ ReadsAs w path (.ok v) := by
  simp only [document, bind_eq_ok_iff, mapError_eq_ok_iff, ReadsAs]

/-- **Where there is something at a path, it is read as a document,** or is refused. A directory in
its place is refused by the system. -/
theorem document_eq_error_iff (h : w.exists? path = .ok true) : document w path = .error e ↔
    (∃ halt, ReadsAs w path (.error halt) ∧ failureOf path halt = e) ∨
      ∃ r, w.readBytes path = .error (.refused r) ∧ e = .refused r := by
  rw [document, bind_eq_error_iff, Workspace.readBytes_mapError_eq_error_iff h]
  simp only [mapError_eq_ok_iff, mapError_eq_error_iff, ReadsAs]
  constructor
  · rintro (hrefused | ⟨bytes, hbytes, halt, hhalt, rfl⟩)
    · exact .inr hrefused
    · exact .inl ⟨halt, ⟨bytes, hbytes, hhalt⟩, rfl⟩
  · rintro (⟨halt, ⟨bytes, hbytes, hhalt⟩, rfl⟩ | hrefused)
    · exact .inr ⟨bytes, hbytes, halt, hhalt, rfl⟩
    · exact .inl hrefused

/-! ## Entries -/

theorem isHollow_mapping_iff : (Value.mapping entries).isHollow = true ↔ entries = [] := by
  cases entries <;> simp [Value.isHollow]

/-- **A document that is no mapping counts as an empty one if it is hollow,** and is refused
otherwise. -/
theorem entriesOf_of_ne (h : ∀ entries, v ≠ .mapping entries) (path : Path) :
    entriesOf path v = if v.isHollow then .ok []
      else .error (.configuration (.notMapping path.name)) := by
  rw [entriesOf.eq_def]
  split
  · exact absurd rfl (h _)
  · rfl

/-- The entries are those of a mapping, or there are none. -/
theorem entriesOf_eq_ok_iff :
    entriesOf path v = .ok entries ↔ v = .mapping entries ∨ v.isHollow = true ∧ entries = [] := by
  by_cases hmapping : ∃ held, v = .mapping held
  · obtain ⟨held, rfl⟩ := hmapping
    rw [entriesOf, Except.ok.injEq, Value.mapping.injEq, isHollow_mapping_iff]
    exact ⟨.inl, fun h => h.elim id fun ⟨hheld, hentries⟩ => hheld.trans hentries.symm⟩
  · have hother := not_exists.1 hmapping
    rw [entriesOf_of_ne hother]
    cases v.isHollow <;> simp [hother, eq_comm]

/-- A document is refused if it is neither. -/
theorem entriesOf_eq_error_iff : entriesOf path v = .error e ↔
    (v.isHollow = false ∧ ∀ entries, v ≠ .mapping entries) ∧
      e = .configuration (.notMapping path.name) := by
  by_cases hmapping : ∃ held, v = .mapping held
  · obtain ⟨held, rfl⟩ := hmapping
    simp [entriesOf]
  · have hother := not_exists.1 hmapping
    rw [entriesOf_of_ne hother]
    cases v.isHollow <;> simp [hother, eq_comm]

/-! ## Loading -/

/-- The path of the configuration: the one that is named, or that of the file in the current
directory. -/
def pathOf (w : Workspace) (path? : Option Path) : Path :=
  path?.getD (w.resolve (.ofString defaultName))

theorem load_eq (w : Workspace) (path? : Option Path) : load w path? = (do
    if ← w.exists? (pathOf w path?) then entriesOf (pathOf w path?) (← document w (pathOf w path?))
    else
      match path? with
      | none => .ok []
      | some path => .error (.configuration (.missing path))) := by
  cases path? with
  | some path => simp only [load, read, pathOf, document, Option.getD_some, bind_assoc]
  | none =>
    rw [load, pathOf, Option.getD_none]
    rcases hthere : w.exists? (w.resolve (.ofString defaultName)) with _ | _ | _
    · rfl
    · rfl
    · simp [read, document, hthere, ok_bind]

/-- A configuration that is there comes to the entries of its document. -/
theorem load_of_exists (hthere : w.exists? (pathOf w path?) = .ok true) :
    load w path? = document w (pathOf w path?) >>= entriesOf (pathOf w path?) := by
  rw [load_eq, hthere]
  rfl

/-- **A configuration comes to what its bytes read as:** the entries of a value, or the failure that
a halt stands for. -/
theorem load_of_readsAs {result : Except Yaml.Halt Value}
    (hreads : ReadsAs w (pathOf w path?) result) :
    load w path? =
      result.mapError (failureOf (pathOf w path?)) >>= entriesOf (pathOf w path?) := by
  obtain ⟨bytes, hbytes, rfl⟩ := hreads
  rw [load_of_exists (exists?_of_readBytes hbytes), document, hbytes]
  rfl

/-- What a configuration gives: nothing where it is neither named nor there or its document counts
as nothing, and the entries of its document where that is a mapping. -/
inductive Gives (w : Workspace) (path? : Option Path) : Entries → Prop
  | absent (unnamed : path? = none) (h : w.exists? (pathOf w path?) = .ok false) : Gives w path? []
  | hollow {v : Value} (reads : ReadsAs w (pathOf w path?) (.ok v)) (h : v.isHollow = true) :
    Gives w path? []
  | mapping {entries : Entries} (reads : ReadsAs w (pathOf w path?) (.ok (.mapping entries))) :
    Gives w path? entries

/-- What the user is told is wrong with a configuration. -/
inductive Complaint (w : Workspace) (path? : Option Path) : Failure → Prop
  | missing {path : Path} (named : path? = some path) (h : w.exists? path = .ok false) :
      Complaint w path? (.configuration (.missing path))
  | malformed (reads : ReadsAs w (pathOf w path?) (.error (.fault .form))) :
      Complaint w path? (.configuration (.malformed (pathOf w path?)))
  | notMapping {v : Value} (reads : ReadsAs w (pathOf w path?) (.ok v)) (solid : v.isHollow = false)
      (other : ∀ entries, v ≠ .mapping entries) :
      Complaint w path? (.configuration (.notMapping (pathOf w path?).name))

/-- The failures of a configuration that nothing looks after: it cannot be looked at, is refused as
a directory is, its bytes are no text and nothing is wrong in front of the place where this shows,
or a scalar in it has no value. -/
inductive Escape (w : Workspace) (path? : Option Path) : Failure → Prop
  | tooLong (h : w.IsRefused (pathOf w path?)) : Escape w path? (Workspace.tooLong (pathOf w path?))
  | refused {r : FileTree.Refusal} (there : w.exists? (pathOf w path?) = .ok true)
      (h : w.readBytes (pathOf w path?) = .error (.refused r)) : Escape w path? (.refused r)
  | undecodable {bytes : Text.Bytes} (reads : w.readBytes (pathOf w path?) = .ok bytes)
      (h : Text.Utf8.decode? bytes = none) (first : Yaml.load bytes = .error .undecodable) :
      Escape w path? .undecodable
  | scalar {cause : Yaml.ScalarCause}
    (reads : ReadsAs w (pathOf w path?) (.error (.fault (.scalar cause)))) :
      Escape w path? (.scalar cause)

/-- **A configuration gives entries just where it is a mapping or nothing.** No file at the usual
place, a hollow document and a mapping are the three ways to have entries. -/
theorem load_eq_ok_iff : load w path? = .ok entries ↔ Gives w path? entries := by
  constructor
  · rw [load_eq, bind_eq_ok_iff]
    rintro ⟨_ | _, hthere, h⟩
    · cases path? with
      | none =>
        obtain rfl := Except.ok.inj h
        exact .absent rfl hthere
      | some path => cases h
    · obtain ⟨v, hv, h⟩ := bind_eq_ok_iff.1 h
      rw [document_eq_ok_iff] at hv
      rcases entriesOf_eq_ok_iff.1 h with rfl | ⟨hhollow, rfl⟩
      · exact .mapping hv
      · exact .hollow hv hhollow
  · rintro (⟨rfl, hmissing⟩ | ⟨hreads, hhollow⟩ | hreads)
    · rw [load_eq, hmissing]
      rfl
    · exact (load_of_readsAs hreads).trans (entriesOf_eq_ok_iff.2 (.inr ⟨hhollow, rfl⟩))
    · exact load_of_readsAs hreads

/-- What stops the reading of a configuration is told to the user or escapes, by its cause. -/
theorem complaint_or_escape_of_halt {halt : Yaml.Halt}
    (hreads : ReadsAs w (pathOf w path?) (.error halt)) :
    Complaint w path? (failureOf (pathOf w path?) halt) ∨
      Escape w path? (failureOf (pathOf w path?) halt) := by
  obtain ⟨bytes, hbytes, hload⟩ := hreads
  cases halt with
  | undecodable =>
    exact .inr (.undecodable hbytes (Yaml.decode?_of_load_undecodable hload) hload)
  | fault fault =>
    cases fault with
    | form => exact .inl (.malformed ⟨bytes, hbytes, hload⟩)
    | scalar cause => exact .inr (.scalar ⟨bytes, hbytes, hload⟩)

/-- **A configuration gives no entries just where there is a complaint about it or it escapes.** The
user is told of a complaint; what escapes ends the command as an unexpected failure. -/
theorem load_eq_error_iff : load w path? = .error e ↔ Complaint w path? e ∨ Escape w path? e := by
  constructor
  · rw [load_eq, bind_eq_error_iff]
    rintro (hlook | ⟨_ | _, hthere, h⟩)
    · obtain ⟨hrefused, rfl⟩ := Workspace.probe_eq_error_iff.1 hlook
      exact .inr (.tooLong hrefused)
    · cases path? with
      | none => cases h
      | some path =>
        obtain rfl := Except.error.inj h
        exact .inl (.missing rfl hthere)
    · rcases bind_eq_error_iff.1 h with h | ⟨v, hv, h⟩
      · rcases (document_eq_error_iff hthere).1 h with ⟨halt, hreads, rfl⟩ | ⟨r, hr, rfl⟩
        · exact complaint_or_escape_of_halt hreads
        · exact .inr (.refused hthere hr)
      · obtain ⟨⟨hsolid, hother⟩, rfl⟩ := entriesOf_eq_error_iff.1 h
        exact .inl (.notMapping (document_eq_ok_iff.1 hv) hsolid hother)
  · rintro ((⟨rfl, hmissing⟩ | hreads | ⟨hreads, hsolid, hother⟩) |
      (hrefused | ⟨hthere, hr⟩ | ⟨hbytes, hnone, hload⟩ | hreads))
    · rw [load_eq, pathOf, Option.getD_some, hmissing]
      rfl
    · exact load_of_readsAs hreads
    · exact (load_of_readsAs hreads).trans (entriesOf_eq_error_iff.2 ⟨⟨hsolid, hother⟩, rfl⟩)
    · rw [load_eq]
      exact bind_eq_error_iff.2 (.inl (Workspace.probe_eq_error_iff.2 ⟨hrefused, rfl⟩))
    · rw [load_of_exists hthere, (document_eq_error_iff hthere).2 (.inr ⟨_, hr, rfl⟩)]
      rfl
    · exact load_of_readsAs ⟨_, hbytes, hload⟩
    · exact load_of_readsAs hreads

end Settings.Configuration
end MemberHarvest
