import MemberHarvest.Proofs.Command.WritesLast
import MemberHarvest.Proofs.NamedValues
import MemberHarvest.Proofs.Settings.Mapping

/-!
# Proofs/Command/Resolving — where nothing is asked, resolving is merging

What the fields that are asked for have been settled to is laid over the options before the settings
are read. Where every candidate says something, this changes nothing: the settings are those of the
options over the file (`merged_settle`), without a question (`run_resolve_iff`).
-/

namespace MemberHarvest

namespace Settings

variable {entries : Entries} {options : Layer} {f : Field} {v : Value}

/-- The fields that are asked for, settled to their candidates. -/
def settled (entries : Entries) (options : Layer) : List (Field × Value) :=
  asked.map fun f => (f, candidate entries options f)

/-- Every field that is asked for has a candidate that says something. -/
def AreKnown (entries : Entries) (options : Layer) : Prop :=
  ∀ f ∈ asked, needsAnswer (candidate entries options f) = false

/-- A value that says enough counts as given. -/
theorem isGiven_of_not_needsAnswer (h : needsAnswer v = false) : isGiven v = true := by
  by_contra hgiven
  rcases isGiven_eq_false_iff.1 (Bool.eq_false_iff.2 hgiven) with rfl | rfl <;> cases h

/-- Only fields that are asked for have a second key. -/
theorem mem_asked_of_alias? {second : String} (h : f.alias? = some second) : f ∈ asked := by
  cases f <;> cases h <;> decide

/-- **A candidate that says something is what both layers hold for its field.** So the answer that
would have been asked for is known before. -/
theorem merged_eq_candidate (h : needsAnswer (candidate entries options f) = false) :
    merged (texts entries) options f = some (candidate entries options f) := by
  -- An empty list among the options is a candidate, and one that says nothing.
  have hne : options.lookup f.key ≠ some (.list []) := by
    intro hnil
    rw [candidate_of_eq_nil hnil] at h
    cases h
  rw [candidate_of_ne_nil hne] at h ⊢
  rw [merged]
  cases hheld : (given? options f.key).or (held? (texts entries) f) with
  | none =>
    rw [hheld] at h
    cases h
  | some v => rfl

/-- **Once the questions are settled, each field that is asked for has its candidate,** and every
other one what the options give. -/
theorem lookup_settle (entries : Entries) (options : Layer) (f : Field) :
    (settle options (settled entries options)).lookup f.key =
      if f ∈ asked then some (candidate entries options f) else options.lookup f.key := by
  have hfind : asked.find? (fun g => g.key == f.key) = if f ∈ asked then some f else none := by
    cases f <;> rfl
  have hpairs :
      (fun e : Field × Value => (e.1.key, e.2)) ∘ (fun g => (g, candidate entries options g)) =
      fun g => (g.key, candidate entries options g) := rfl
  rw [settle, settled, List.map_map, hpairs, List.lookup_append, Harvest.lookup_map_pair, hfind]
  split <;> rfl

/-- **Settled fields hold what they would hold anyway,** where their candidates say something. The
answers that are put back into the options are those that the layers hold anyway, so nothing is lost
by it. -/
theorem merged_settle (h : AreKnown entries options) :
    merged (texts entries) (settle options (settled entries options)) =
      merged (texts entries) options := by
  funext f
  by_cases hf : f ∈ asked
  · have hgiven : given? (settle options (settled entries options)) f.key =
        some (candidate entries options f) := by
      rw [given?, lookup_settle, if_pos hf, Option.filter_some,
        if_pos (isGiven_of_not_needsAnswer (h f hf))]
    rw [merged_eq_candidate (h f hf), merged, hgiven]
    rfl
  · -- Second keys among the options stay as they are, but only fields that are asked for have one.
    have halias : f.alias? = none := by
      cases hsecond : f.alias? with
      | none => rfl
      | some second => exact absurd (mem_asked_of_alias? hsecond) hf
    rw [merged, merged, given?, lookup_settle, if_neg hf, halias]
    rfl

/-- Candidates that are known come to the same settings as the options and entries they were taken
from. -/
theorem ofMapping_settle (h : AreKnown entries options) :
    ofMapping entries (settle options (settled entries options)) = ofMapping entries options := by
  by_cases hkeys : HasTextKeys entries
  · rw [ofMapping_of_hasTextKeys hkeys, ofMapping_of_hasTextKeys hkeys, ofLayers,
      ofLayers, merged_settle h]
  · rw [ofMapping_of_not_hasTextKeys hkeys, ofMapping_of_not_hasTextKeys hkeys]

end Settings

namespace Command

open Settings (AreKnown Entries Field Layer candidate needsAnswer settled)

variable {entries : Entries} {file options : Layer} {f : Field}

/-! ## Questions -/

/-- Nothing is asked about a field whose candidate says enough. -/
theorem settleField_of_known (h : needsAnswer (candidate entries options f) = false) :
    settleField entries options f = pure (f, candidate entries options f) := by
  rw [settleField, if_neg (Bool.eq_false_iff.1 h)]

/-- Where the input is at its end, a question is the end of a command. -/
theorem run_settleField_of_needsAnswer (h : needsAnswer (candidate entries options f) = true)
    {t : Session} (hinput : t.input = []) :
    ((settleField entries options f).run.run t).1 = .error .aborted := by
  obtain ⟨w, _, printed, journal, setup⟩ := t
  obtain rfl := hinput
  rw [settleField, if_pos h]
  rfl

/-- A step that stops the command stops whatever comes behind it. -/
theorem run_bind_of_error {α β : Type} {x : Act α} {t : Session} {stop : Stop}
    (h : (x.run.run t).1 = .error stop) (g : α → Act β) :
    ((x >>= g).run.run t).1 = .error stop := by
  rw [Act.run_bind]
  rcases hrun : x.run.run t with ⟨_ | a, t'⟩ <;> rw [hrun] at h
  · exact congrArg _ (Except.error.inj h)
  · cases h

/-- A question without an answer stops the command, whichever field it is about. -/
theorem run_mapM_settleField_of_needsAnswer {fs : List Field}
    (h : ∃ f ∈ fs, needsAnswer (candidate entries options f) = true) {t : Session}
    (hinput : t.input = []) :
    ((fs.mapM (settleField entries options)).run.run t).1 = .error .aborted := by
  induction fs with
  | nil => simp at h
  | cons f fs ih =>
    rw [List.mapM_cons]
    cases hf : needsAnswer (candidate entries options f) with
    | true => exact run_bind_of_error (run_settleField_of_needsAnswer hf hinput) _
    | false =>
      have hrest : ∃ g ∈ fs, needsAnswer (candidate entries options g) = true := by
        simpa [hf] using h
      rw [settleField_of_known hf, pure_bind]
      exact run_bind_of_error (ih hrest) _

/-! ## Resolving -/

/-- **Where nothing has to be asked, the settings are those of the options over the mapping.**
Nothing is read from the input and nothing is shown. -/
theorem resolve_of_areKnown (h : AreKnown entries options) :
    resolve entries options = Act.ofExcept (Settings.ofMapping entries options) := by
  have hsettled : Settings.asked.mapM (settleField entries options) =
      pure (settled entries options) := by
    rw [Outcome.mapM_congr fun f hf => settleField_of_known (h f hf)]
    exact List.mapM_pure
  rw [resolve, hsettled, pure_bind, Settings.ofMapping_settle h]

/-- Without input, a command that has to ask is aborted. -/
theorem run_resolve_of_not_areKnown (h : ¬ AreKnown entries options) {t : Session}
    (hinput : t.input = []) :
    ((resolve entries options).run.run t).1 = .error .aborted := by
  have hneeds : ∃ f ∈ Settings.asked, needsAnswer (candidate entries options f) = true := by
    simpa [AreKnown] using h
  exact run_bind_of_error (run_mapM_settleField_of_needsAnswer hneeds hinput) _

/-- A computation without questions leaves the session alone. -/
theorem run_ofExcept {α : Type} (x : Except Failure α) (t : Session) :
    (Act.ofExcept x).run.run t = (x.mapError .failure, t) := by
  cases x <;> rfl

/-- **Just where every candidate says something, resolving is merging,** whatever has happened in
the session: the settings are those of the options over the file, and where fields complain, the
command stops with their complaints. -/
theorem run_resolve_iff (hfile : Settings.layer entries = .ok file) (options : Layer) :
    (AreKnown entries options ↔
      ∀ t, (resolve entries options).run.run t =
        ((Settings.ofLayers file options).mapError .failure, t)) ∧
    ∀ e, Settings.ofLayers file options = .error e → (∃ errors, e = .invalid errors) ∧
      (Stop.failure e).exitCode = 2 := by
  have hmerged : Settings.ofMapping entries options = Settings.ofLayers file options := by
    rw [Settings.ofMapping, hfile]
    rfl
  refine ⟨⟨fun h t => ?_, fun h => ?_⟩, fun e he => ?_⟩
  · rw [resolve_of_areKnown h, run_ofExcept, hmerged]
  · -- Without any input the first question ends the command, whatever the layers come to.
    by_contra hunknown
    have habort := run_resolve_of_not_areKnown hunknown (t := .start ⟨.empty, [], {}⟩ []) rfl
    rw [h] at habort
    cases hlayers : Settings.ofLayers file options <;> rw [hlayers] at habort <;> cases habort
  · obtain ⟨errors, -, rfl⟩ := Outcome.mapError_eq_error_iff.1 he
    exact ⟨⟨errors, rfl⟩, rfl⟩

/-! ## A file with second keys and wrong types -/

/-- A file that gives its solution under the second key, an output that is no text and no
interfaces. -/
def mistypedEntries : Entries :=
  [(.text "solution_file", .text "S"), (.text "output", .integer 5), (.text "interfaces", .null),
    (.text "inspect_interfaces", .text "IFoo"), (.text "ignore", .null),
      (.text "eof_fallback", .text "maybe")]

/-- Options that name an interface. -/
def interfaceOption : Layer :=
  [("interfaces", .list [.text "IBar"]), ("ignore", .list []), ("max_workers", .integer 2)]

/-- Entries of wrong types are complained of field by field. -/
theorem run_resolve_iff_mistyped :
    Settings.layer mistypedEntries = .ok (Settings.texts mistypedEntries) ∧
      AreKnown mistypedEntries interfaceOption ∧
      ∀ t, (resolve mistypedEntries interfaceOption).run.run t =
        (.error (.failure
          (.invalid [⟨.output, none, .notText⟩, ⟨.eofFallback, none, .unclearTruth⟩])), t) := by
  have hfile : Settings.layer mistypedEntries = .ok (Settings.texts mistypedEntries) := rfl
  have hknown : AreKnown mistypedEntries interfaceOption := by
    intro f hf
    cases f <;> first | rfl | simp [Settings.asked] at hf
  have herrors : Settings.ofLayers (Settings.texts mistypedEntries) interfaceOption =
      .error (.invalid [⟨.output, none, .notText⟩, ⟨.eofFallback, none, .unclearTruth⟩]) := by
    decide +kernel
  refine ⟨hfile, hknown, fun t => ?_⟩
  rw [(run_resolve_iff hfile interfaceOption).1.1 hknown t, herrors]
  rfl

end Command
end MemberHarvest
