import MemberHarvest.Command.Run
import MemberHarvest.Proofs.Settings.Mapping

/-!
# Proofs/Command/Asking — what is asked for is what the settings lack

Before anyone is asked, a field's candidate is the value that the settings are read from, in every
case but one (`candidate_eq_merged`). The case is an option that names no interface, such as a
single comma: the candidate takes it for an answer, and then for one that says nothing, while the
settings pass over it and take what the file holds. So there a harvest asks and a listing refuses,
whatever the file holds.
-/

namespace MemberHarvest

namespace Command

open Settings (Entries Field Layer Value candidate heldIn? merged needsAnswer texts)

namespace Arguments

variable {a : Arguments} {f : Field}

/-! ## What arguments give -/

/-- An option is given for the interfaces, and it names none. -/
def NamesNothing (a : Arguments) : Prop :=
  ∃ s, a.last? (.field .interfaces) = some (.text s) ∧ Settings.splitNames s = []

instance (a : Arguments) : Decidable a.NamesNothing :=
  match h : a.last? (.field .interfaces) with
  | some (.text s) => decidable_of_iff (Settings.splitNames s = []) (by simp [NamesNothing, h])
  | some (.truth _) => isFalse (by simp [NamesNothing, h])
  | none => isFalse (by simp [NamesNothing, h])

/-- Among values under the keys of fields, each field finds its own. -/
theorem lookup_filterMap (g : Field → Option Value) (fs : List Field) :
    (fs.filterMap fun f => (g f).map fun v => (f.key, v)).lookup f.key = if f ∈ fs
      then g f else none := by
  induction fs with
  | nil => rfl
  | cons h fs ih =>
    by_cases hf : f = h
    · subst hf
      cases hg : g f with
      | none => simp [hg, ih]
      | some v => simp [hg]
    · have hkey : (f.key == h.key) = false := beq_eq_false_iff_ne.2 fun hkey =>
        hf (Field.key_injective hkey)
      cases hg : g h <;> simp [hg, ih, hf, hkey, List.lookup_cons]

/-- **The layer of options holds just what the arguments give for each field.** An option that is
not given is not in the layer, but for the patterns to ignore, which are always there as a list. -/
theorem lookup_layer (a : Arguments) (f : Field) : a.layer.lookup f.key = a.option? f := by
  rw [layer, lookup_filterMap, if_pos]
  cases f <;> simp

/-- Arguments use no second key. -/
theorem key_of_mem_layer (a : Arguments) : ∀ option ∈ a.layer, ∃ f : Field, option.1 = f.key := by
  intro option hoption
  obtain ⟨f, -, hf⟩ := List.mem_filterMap.1 hoption
  obtain ⟨v, -, rfl⟩ := Option.map_eq_some_iff.1 hf
  exact ⟨f, rfl⟩

/-- A field takes its value from the arguments if they give one, and else from the entries. -/
theorem merged_layer (entries : Entries) (a : Arguments) (f : Field) :
    merged (texts entries) a.layer f =
      ((a.option? f).filter Settings.isGiven).or (heldIn? entries f) := by
  rw [Settings.merged_of_keys a.key_of_mem_layer, Settings.given?, lookup_layer,
    Settings.heldIn?_eq_held?]

/-- Among the fields that are asked for, only the names of interfaces can be given as none at
all. -/
theorem option?_eq_nil_iff (hf : f ∈ Settings.asked) :
    a.option? f = some (.list []) ↔ f = .interfaces ∧ a.NamesNothing := by
  have hfield : f = .solution ∨ f = .output ∨ f = .interfaces := by simpa [Settings.asked] using hf
  rcases hfield with rfl | rfl | rfl
  all_goals
    simp only [option?, NamesNothing]
    rcases a.last? _ with _ | _ | _ <;> simp [valueOf]

/-- An empty list of names is the candidate, although it is not merged. -/
theorem candidate_of_eq_nil (h : a.option? f = some (.list [])) (entries : Entries) :
    candidate entries a.layer f = .list [] :=
  Settings.candidate_of_eq_nil ((lookup_layer a f).trans h) entries

/-- Every other candidate is what is merged. -/
theorem candidate_of_ne_nil (h : a.option? f ≠ some (.list [])) (entries : Entries) :
    candidate entries a.layer f = (merged (texts entries) a.layer f).getD .null := by
  rw [Settings.candidate_of_ne_nil (mt (lookup_layer a f).symm.trans h), merged_layer,
    Settings.given?, lookup_layer, Settings.heldIn?_eq_held?]

end Arguments

/-! ## What is asked for -/

/-- A listing is refused just where the solution or the names count as nothing. -/
theorem listingSettings_eq_incomplete_iff (entries : Entries) (options : Layer) :
    listingSettings entries options = .error (.configuration .incomplete) ↔
      (candidate entries options .solution).isHollow ∨
        (candidate entries options .interfaces).isHollow := by
  rw [listingSettings]
  split
  · rename_i hhollow
    exact iff_of_true rfl hhollow
  · rename_i hsolid
    exact iff_of_false (Settings.ofMapping_ne_incomplete _ _) hsolid

/-- **What a field would be before anyone is asked is what the settings are read from,** unless an
option names no interface. So a harvest asks for a field just where this value says nothing, and a
listing refuses to go on just where the value of the solution or of the interfaces counts as
nothing, or where an option names no interface. -/
theorem candidate_eq_merged (entries : Entries) (a : Arguments) :
    let value := fun f => (merged (texts entries) a.layer f).getD .null
    (∀ f ∈ Settings.asked, candidate entries a.layer f =
      if f = .interfaces ∧ a.NamesNothing then .list [] else value f) ∧
    (∀ f ∈ Settings.asked, settleField entries a.layer f =
      if needsAnswer (value f) ∨ (f = .interfaces ∧ a.NamesNothing) then
        (do return (f, .text (← Act.ask (Settings.question f))))
      else return (f, value f)) ∧
    (listingSettings entries a.layer = .error (.configuration .incomplete) ↔
      (value .solution).isHollow ∨ (value .interfaces).isHollow ∨ a.NamesNothing) := by
  intro value
  have hcandidate : ∀ f ∈ Settings.asked, candidate entries a.layer f =
      if f = .interfaces ∧ a.NamesNothing then .list [] else value f := by
    intro f hf
    by_cases hnothing : f = .interfaces ∧ a.NamesNothing
    · rw [if_pos hnothing,
        Arguments.candidate_of_eq_nil ((Arguments.option?_eq_nil_iff hf).2 hnothing)]
    · rw [if_neg hnothing, Arguments.candidate_of_ne_nil fun h =>
        hnothing ((Arguments.option?_eq_nil_iff hf).1 h)]
  refine ⟨hcandidate, fun f hf => ?_, ?_⟩
  · rw [settleField, hcandidate f hf]
    by_cases hnothing : f = .interfaces ∧ a.NamesNothing
    · rw [if_pos hnothing, if_pos (Or.inr hnothing), needsAnswer, if_pos rfl]
    · simp only [hnothing, if_false, or_false]
  · have hsolution : candidate entries a.layer .solution = value .solution :=
      (hcandidate .solution (by decide)).trans (if_neg (by simp))
    rw [listingSettings_eq_incomplete_iff, hsolution, hcandidate .interfaces (by decide)]
    by_cases hnothing : a.NamesNothing <;> simp [hnothing, Value.isHollow]

/-! ## A comma for an answer -/

/-- A configuration file that names one interface. -/
def oneName : Entries := [(.text "interfaces", .list [.text "IFoo"])]

/-- A comma where the names of interfaces are expected. -/
def onlyComma : Arguments := ⟨[(.field .solution, .text "S"), (.field .interfaces, .text ",")], []⟩

/-- These arguments are what the command line `--solution S --interfaces ,` comes to. -/
theorem ofList_onlyComma :
    Arguments.ofList commonOptions ["--solution", "S", "--interfaces", ","] = .ok onlyComma := by
  decide +kernel

theorem option?_onlyComma : onlyComma.option? .interfaces = some (.list []) :=
  (Arguments.option?_eq_nil_iff (by decide)).2 ⟨rfl, ",", by decide, by decide⟩

/-- The merged settings keep the names of the file. -/
theorem merged_onlyComma :
    merged (texts oneName) onlyComma.layer .interfaces = some (.list [.text "IFoo"]) := by
  rw [Arguments.merged_layer, option?_onlyComma]
  rfl

/-- A comma hides the names of the file from the question, but not from the settings, and a listing
is refused. -/
theorem candidate_differs :
    (¬ ∀ entries arguments a, Arguments.ofList commonOptions arguments = .ok a →
      ∀ f ∈ Settings.asked, candidate entries a.layer f =
      (merged (texts entries) a.layer f).getD .null) ∧
    (¬ ∀ entries arguments a, Arguments.ofList commonOptions arguments = .ok a →
      listingSettings entries a.layer = .error (.configuration .incomplete) →
      ∃ f ∈ [.solution, .interfaces],
        ((merged (texts entries) a.layer f).getD .null).isHollow) := by
  have hcandidate : candidate oneName onlyComma.layer .interfaces = .list [] :=
    Arguments.candidate_of_eq_nil option?_onlyComma oneName
  refine ⟨fun hagree => ?_, fun hagree => ?_⟩
  · have hequal := hagree oneName _ _ ofList_onlyComma .interfaces (by decide)
    rw [hcandidate, merged_onlyComma] at hequal
    cases hequal
  · have hrefused : listingSettings oneName onlyComma.layer = .error (.configuration .incomplete) :=
      (listingSettings_eq_incomplete_iff _ _).2 (.inr (by rw [hcandidate]; rfl))
    have hsolution : merged (texts oneName) onlyComma.layer .solution = some (.text "S") := by
      rw [Arguments.merged_layer]
      rfl
    obtain ⟨f, hf, hhollow⟩ := hagree oneName _ _ ofList_onlyComma hrefused
    rcases List.mem_pair.1 hf with rfl | rfl
    · rw [hsolution] at hhollow
      exact absurd hhollow (by decide)
    · rw [merged_onlyComma] at hhollow
      cases hhollow

end Command
end MemberHarvest
