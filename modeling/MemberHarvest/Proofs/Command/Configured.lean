import MemberHarvest.Proofs.Command.Resolving
import MemberHarvest.Proofs.Project.Loading
import MemberHarvest.Proofs.Settings.Configuration

/-!
# Proofs/Command/Configured — what comes of a configuration where nothing is asked

Options that supply every field that is asked for leave nothing to ask, whatever a configuration
holds (`Supplies.areKnown`). So a command has its settings, or the user is told what is wrong with
the configuration or with its fields, or a failure escapes (`run_settingsFrom`). The last comes of a
directory, of bytes that are no text and of a key that is none, among others, and a document that
counts as nothing passes for an empty mapping (`badConfiguration_escapes`).
-/

namespace MemberHarvest

open Outcome

namespace Settings

variable {options : Layer}

/-- The options give every field that is asked for something that says enough. -/
def Supplies (options : Layer) : Prop :=
  ∀ f ∈ asked, ∃ v, option? options f = some v ∧ needsAnswer v = false

/-- **What the options supply is known,** whatever a configuration holds. This is all that the
options are needed for: nobody is asked, whatever else is read. -/
theorem Supplies.areKnown (h : Supplies options) (entries : Entries) :
    AreKnown entries options := by
  intro f hf
  obtain ⟨v, hv, hsays⟩ := h f hf
  rw [candidate, hv]
  exact hsays

end Settings

namespace Command

open Settings (Entries HasTextKeys Layer Supplies ignoreNull merged ofLayers texts)
open Settings.Configuration (Complaint Escape Gives ReadsAs load pathOf)

variable {w : Workspace} {path? : Option Path} {options : Layer} {s : Settings} {e : Failure}

/-! ## Settings over a configuration -/

/-- The settings that options over a configuration give where nothing is asked. -/
def configured (w : Workspace) (path? : Option Path) (options : Layer) :
    Except Failure Settings := do
  Settings.ofMapping (← load w path?) options

/-- What the user is told: what is wrong with the configuration, or what its fields complain of. -/
inductive IsTold (w : Workspace) (path? : Option Path) (options : Layer) : Failure → Prop
  | configuration {e : Failure} (h : Complaint w path? e) : IsTold w path? options e
  | fields {entries : Entries} {errors : List Settings.FieldError} (gives : Gives w path? entries)
      (keys : HasTextKeys entries)
      (h : Settings.read (ignoreNull (merged (texts entries) options)) = .error errors) :
      IsTold w path? options (.invalid errors)

/-- The failures that escape: those of the configuration, and a key in it that is no text. -/
inductive Escapes (w : Workspace) (path? : Option Path) : Failure → Prop
  | configuration {e : Failure} (h : Escape w path? e) : Escapes w path? e
  | key {entries : Entries} (gives : Gives w path? entries) (h : ¬ HasTextKeys entries) :
    Escapes w path? .keyNotText

/-- What the user is told is that the command was used in a wrong way. -/
theorem IsTold.isUsage (h : IsTold w path? options e) : isUsage e = true := by
  cases h with
  | configuration h => cases h <;> rfl
  | fields => rfl

/-- What escapes is no matter of a wrong use. -/
theorem Escapes.not_isUsage (h : Escapes w path? e) : isUsage e = false := by
  cases h with
  | configuration h => cases h <;> rfl
  | key => rfl

/-- **There are settings just where the configuration gives entries under texts, and no field
complains of its value.** -/
theorem configured_eq_ok_iff : configured w path? options = .ok s ↔
    ∃ entries, Gives w path? entries ∧ HasTextKeys entries ∧
      ofLayers (texts entries) options = .ok s := by
  simp only [configured, bind_eq_ok_iff, Settings.Configuration.load_eq_ok_iff]
  refine exists_congr fun entries => and_congr_right fun _ => ?_
  by_cases hkeys : HasTextKeys entries
  · rw [Settings.ofMapping_of_hasTextKeys hkeys]
    simp [hkeys]
  · rw [Settings.ofMapping_of_not_hasTextKeys hkeys]
    simp [hkeys]

/-- **Where there are no settings, the user is told why or a failure escapes.** The two exclude each
other, since a wrong use is the only thing the user is told of. -/
theorem configured_eq_error_iff :
    configured w path? options = .error e ↔ IsTold w path? options e ∨ Escapes w path? e := by
  rw [configured, bind_eq_error_iff, Settings.Configuration.load_eq_error_iff]
  constructor
  · rintro ((hcomplaint | hescape) | ⟨entries, hgives, h⟩)
    · exact .inl (.configuration hcomplaint)
    · exact .inr (.configuration hescape)
    · rw [Settings.Configuration.load_eq_ok_iff] at hgives
      by_cases hkeys : HasTextKeys entries
      · rw [Settings.ofMapping_of_hasTextKeys hkeys] at h
        obtain ⟨errors, herrors, rfl⟩ := mapError_eq_error_iff.1 h
        exact .inl (.fields hgives hkeys herrors)
      · rw [Settings.ofMapping_of_not_hasTextKeys hkeys] at h
        obtain rfl := Except.error.inj h
        exact .inr (.key hgives hkeys)
  · rintro ((hcomplaint | ⟨hgives, hkeys, herrors⟩) | (hescape | ⟨hgives, hkeys⟩))
    · exact .inl (.inl hcomplaint)
    · refine .inr ⟨_, Settings.Configuration.load_eq_ok_iff.2 hgives, ?_⟩
      rw [Settings.ofMapping_of_hasTextKeys hkeys]
      exact mapError_eq_error_iff.2 ⟨_, herrors, rfl⟩
    · exact .inl (.inr hescape)
    · exact .inr ⟨_, Settings.Configuration.load_eq_ok_iff.2 hgives,
        Settings.ofMapping_of_not_hasTextKeys hkeys _⟩

/-! ## The command -/

/-- The settings of a command, after the questions. -/
def settingsFrom (path? : Option Path) (options : Layer) : Act Settings := do
  let entries ← Act.ofExcept (load (← Act.workspace) path?)
  resolve entries options

/-- The settings of a harvest come of its arguments in this manner; then the journal is set up. -/
theorem harvestSettings_eq (arguments : List String) : harvestSettings arguments = (do
    let a ← readArguments harvestOptions arguments
    let settings ← settingsFrom (configurationPath? a) a.layer
    Act.setUp (← Act.ofExcept (Journal.setup settings.logLevel false))
    return settings) := by
  simp only [harvestSettings, settingsFrom, bind_assoc]

/-- Where the options supply what is asked for, the session stays as it is. -/
theorem run_settingsFrom_of_supplies (h : Supplies options) (path? : Option Path) (t : Session) :
    (settingsFrom path? options).run.run t =
      ((configured t.workspace path? options).mapError .failure, t) := by
  have hload : (settingsFrom path? options).run.run t =
      (Act.ofExcept (load t.workspace path?) >>= fun entries => resolve entries options).run.run
        t := rfl
  rw [hload, Act.run_bind, run_ofExcept, configured]
  cases load t.workspace path? with
  | error e => rfl
  | ok entries =>
    have hresolve := run_ofExcept (Settings.ofMapping entries options) t
    rw [← resolve_of_areKnown (h.areKnown entries)] at hresolve
    exact hresolve

/-- **Where the options supply what is asked for, nothing is asked and nothing changes.** There are
settings just where the configuration gives entries under texts and no field complains, the command
stops as for a wrong use just where the user is told why, and every other failure is one that
escapes. -/
theorem run_settingsFrom (h : Supplies options) (path? : Option Path) (t : Session) :
    let outcome := configured t.workspace path? options
    (settingsFrom path? options).run.run t = (outcome.mapError .failure, t) ∧
      (∀ s, outcome = .ok s ↔ ∃ entries, Gives t.workspace path? entries ∧ HasTextKeys entries ∧
        ofLayers (texts entries) options = .ok s) ∧
      (∀ e, outcome = .error e ∧ isUsage e = true ↔ IsTold t.workspace path? options e) ∧
      ∀ e, outcome = .error e ∧ isUsage e = false ↔ Escapes t.workspace path? e := by
  refine ⟨run_settingsFrom_of_supplies h path? t, fun s => configured_eq_ok_iff,
    fun e => ?_, fun e => ?_⟩
  · rw [configured_eq_error_iff]
    refine ⟨fun ⟨hcases, husage⟩ => hcases.resolve_right fun hescapes => ?_,
      fun htold => ⟨.inl htold, htold.isUsage⟩⟩
    exact absurd (hescapes.not_isUsage.symm.trans husage) Bool.false_ne_true
  · rw [configured_eq_error_iff]
    refine ⟨fun ⟨hcases, husage⟩ => hcases.resolve_left fun htold => ?_,
      fun hescapes => ⟨.inr hescapes, hescapes.not_isUsage⟩⟩
    exact absurd (husage.symm.trans htold.isUsage) Bool.false_ne_true

/-! ## A document that is no mapping -/

/-- Options that supply what is asked for. -/
def supplied : Layer :=
  [("solution", .text "S"), ("output", .text "o.json"), ("interfaces", .list [.text "IFoo"])]

theorem supplies_supplied : Supplies supplied := by
  intro f hf
  cases f <;> first | exact ⟨_, rfl, rfl⟩ | simp [Settings.asked] at hf

/-- The settings that these options give alone. -/
def suppliedSettings : Settings :=
  ⟨"S", "o.json", ["IFoo"], [], "utf-8-sig", false, false, 1, "INFO"⟩

/-- The path of a configuration. -/
def configurationPath : Path := .ofString "c.yaml"

/-- A session beside a configuration with these bytes. -/
def sessionWith (bytes : Text.Bytes) : Session := .start (Project.singleFile "c.yaml" bytes) []

/-- The bytes of a truth value. -/
def falseBytes : Text.Bytes := Text.Utf8.encode "false".toList

/-- Whether a document is the truth value that does not hold. -/
def isFalse : Except Yaml.Fault Settings.Value → Bool
  | .ok (.truth b) => !b
  | _ => false

theorem eq_of_isFalse {document : Except Yaml.Fault Settings.Value} (h : isFalse document = true) :
    document = .ok (.truth false) := by
  cases document with
  | error => cases h
  | ok v =>
    cases v with
    | truth b =>
      obtain rfl : b = false := by simpa [isFalse] using h
      rfl
    | _ => cases h

/-- The file that holds `false` is read as this truth value. -/
theorem readsAs_falseBytes :
    ReadsAs (sessionWith falseBytes).workspace configurationPath (.ok (.truth false)) := by
  -- Values have no decidable equality, so the document is found out by a test.
  have hdocument : isFalse (Yaml.document (Text.unifyNewlines "false".toList)) = true := by
    decide +kernel
  refine ⟨falseBytes, by decide +kernel,
    Yaml.load_eq_ok_iff.2 ⟨"false".toList, ?_, ?_, eq_of_isFalse hdocument⟩⟩
  · decide +kernel
  · exact List.all_eq_true.1 (by decide +kernel)

/-- The settings over a document that is `false` are those of the options alone. -/
theorem run_settingsFrom_falseBytes : Supplies supplied ∧
    (settingsFrom (some configurationPath) supplied).run.run (sessionWith falseBytes) =
      (.ok suppliedSettings, sessionWith falseBytes) := by
  obtain ⟨hrun, hok, -, -⟩ :=
    run_settingsFrom supplies_supplied (some configurationPath) (sessionWith falseBytes)
  have hlayers : ofLayers (texts []) supplied = .ok suppliedSettings := by decide +kernel
  have hsettings :=
    (hok suppliedSettings).2 ⟨[], .hollow readsAs_falseBytes rfl, List.forall_mem_nil _, hlayers⟩
  rw [hsettings] at hrun
  exact ⟨supplies_supplied, hrun⟩

/-- A configuration that is no text is not told of, and one that is no mapping is taken for an empty
one. -/
theorem badConfiguration_escapes :
    (¬ ∀ (t : Session) (path? : Option Path) (options : Layer) (stop : Stop), Supplies options →
      ((settingsFrom path? options).run.run t).1 = .error stop → ∃ e, stop = .failure e ∧
        isUsage e = true) ∧
    ¬ ∀ (t : Session) (path? : Option Path) (options : Layer) (s : Settings) (v : Settings.Value),
      Supplies options →
      ((settingsFrom path? options).run.run t).1 = .ok s →
        ReadsAs t.workspace (pathOf t.workspace path?) (.ok v) →
        v = .null ∨ ∃ entries, v = .mapping entries := by
  constructor
  · intro h
    have hundecodable :
        ((settingsFrom (some configurationPath) supplied).run.run (sessionWith [0xFF])).1 =
        .error (.failure .undecodable) := by
      decide +kernel
    obtain ⟨e, he, husage⟩ := h _ _ _ _ supplies_supplied hundecodable
    obtain rfl := Stop.failure.inj he
    cases husage
  · intro h
    have hsettings :
        ((settingsFrom (some configurationPath) supplied).run.run (sessionWith falseBytes)).1 =
        .ok suppliedSettings := by
      decide +kernel
    rcases h _ _ _ _ _ supplies_supplied hsettings readsAs_falseBytes with hnull | ⟨_, hmapping⟩
    · cases hnull
    · cases hmapping

end Command
end MemberHarvest
