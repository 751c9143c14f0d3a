import MemberHarvest.Proofs.Outcome
import MemberHarvest.Settings.Candidates

/-!
# Proofs/Settings/Mapping — mappings as layers

A mapping whose keys are texts is the layer of its texts (`layer_of_hasTextKeys`), and what it holds
for a field is what the layer holds for it (`heldIn?_eq_held?`). No two fields have a key in common.
-/

namespace MemberHarvest.Settings

open Outcome

variable {entries : Entries} {file options : Layer} {f g : Field}

/-! ## Mappings as layers -/

/-- The entries of a mapping whose keys are texts. -/
def texts : Entries → Layer
  | [] => []
  | (.text k, v) :: rest => (k, v) :: texts rest
  | _ :: rest => texts rest

/-- All keys of a mapping are texts. -/
def HasTextKeys (entries : Entries) : Prop := ∀ e ∈ entries, ∃ key, e.1 = .text key

/-- **A mapping whose keys are texts is the layer of its texts.** -/
theorem layer_of_hasTextKeys (h : HasTextKeys entries) : layer entries = .ok (texts entries) := by
  induction entries with
  | nil => rfl
  | cons e rest ih =>
    obtain ⟨⟨k, hk⟩, hrest⟩ := List.forall_mem_cons.1 h
    obtain ⟨key, v⟩ := e
    obtain rfl : key = .text k := hk
    rw [layer, ih hrest]
    rfl

/-- A mapping with another key is no layer. -/
theorem layer_of_not_hasTextKeys (h : ¬ HasTextKeys entries) :
    layer entries = .error .keyNotText := by
  induction entries with
  | nil => exact absurd (List.forall_mem_nil _) h
  | cons e rest ih =>
    obtain ⟨key, v⟩ := e
    cases key with
    | text k =>
      have hrest : ¬ HasTextKeys rest := fun hrest => h (List.forall_mem_cons.2 ⟨⟨k, rfl⟩, hrest⟩)
      rw [layer, ih hrest]
      rfl
    | _ => rfl

/-- An entry with a text key is found in the layer of the texts. -/
theorem find?_eq_lookup (entries : Entries) (key : String) :
    find? entries key = (texts entries).lookup key := by
  induction entries with
  | nil => rfl
  | cons e rest ih =>
    obtain ⟨k, v⟩ := e
    rw [find?] at ih ⊢
    cases k with
    | text k =>
      rw [List.findSome?_cons, texts, List.lookup_cons]
      by_cases hk : k = key
      · simp [hk]
      · have hk' : (key == k) = false := beq_eq_false_iff_ne.2 (Ne.symm hk)
        simpa [hk, hk'] using ih
    | _ => exact ih

theorem heldIn?_eq_held? (entries : Entries) (f : Field) :
    heldIn? entries f = held? (texts entries) f := by
  rw [heldIn?, held?, find?_eq_lookup]
  exact congrArg _ (congrArg (Option.bind f.alias?) (funext fun key => find?_eq_lookup entries key))

/-- **With text keys, settings are read from the layers.** The mapping is taken for a layer
first. -/
theorem ofMapping_of_hasTextKeys (h : HasTextKeys entries) (options : Layer) :
    ofMapping entries options = ofLayers (texts entries) options := by
  rw [ofMapping, layer_of_hasTextKeys h]
  rfl

/-- **With another key, an error escapes that is about no field.** This happens before any field is
read, so nothing else is complained of. -/
theorem ofMapping_of_not_hasTextKeys (h : ¬ HasTextKeys entries) (options : Layer) :
    ofMapping entries options = .error .keyNotText := by
  rw [ofMapping, layer_of_not_hasTextKeys h]
  rfl

theorem ofMapping_ne_incomplete (entries : Entries) (options : Layer) :
    ofMapping entries options ≠ .error (.configuration .incomplete) := by
  by_cases hkeys : HasTextKeys entries
  · rw [ofMapping_of_hasTextKeys hkeys]
    intro h
    obtain ⟨_, -, he⟩ := mapError_eq_error_iff.1 h
    cases he
  · rw [ofMapping_of_not_hasTextKeys hkeys]
    exact nofun

/-! ## Options that count -/

/-- Null and the empty list do not count as given. -/
theorem isGiven_eq_false_iff {v : Value} : isGiven v = false ↔ v = .null ∨ v = .list [] := by
  rw [isGiven.eq_def]
  split <;> simp_all

/-- An empty list among the options is taken for a candidate, although it does not count as
given. -/
theorem candidate_of_eq_nil (h : options.lookup f.key = some (.list [])) (entries : Entries) :
    candidate entries options f = .list [] := by
  rw [candidate, option?, h]
  rfl

/-- **Else the candidate is what both layers hold,** up to second keys among the options. A null
among the options is passed over, and an empty list is the case left out here. -/
theorem candidate_of_ne_nil (h : options.lookup f.key ≠ some (.list [])) (entries : Entries) :
    candidate entries options f =
      ((given? options f.key).or (held? (texts entries) f)).getD .null := by
  rw [candidate, option?, given?, heldIn?_eq_held?]
  cases hlookup : options.lookup f.key with
  | none => rfl
  | some v =>
    cases v with
    | list items =>
      cases items with
      | nil => exact absurd hlookup h
      | cons item items => rfl
    | _ => rfl

/-! ## Keys -/

theorem Field.key_injective (h : f.key = g.key) : f = g := by
  cases f <;> cases g <;> first | rfl | exact absurd h (by decide)

/-- No alias is the key of a field. -/
theorem Field.key_ne_of_alias? {key : String} (h : f.alias? = some key) (g : Field) :
    g.key ≠ key := by
  cases f <;> cases h <;> cases g <;> decide

/-- **Where options use no second keys, these count in the file only.** The command line gives its
options under the main keys, so this is the case for a command. -/
theorem merged_of_keys (hmain : ∀ option ∈ options, ∃ g : Field, option.1 = g.key)
    (file : Layer) (f : Field) :
    merged file options f = (given? options f.key).or (held? file f) := by
  have hsecond : f.alias?.bind (given? options) = none := by
    refine Option.bind_eq_none_iff.2 fun second hsecond => ?_
    have hnone : options.lookup second = none := by
      refine List.lookup_eq_none_iff.2 fun option hoption => bne_iff_ne.2 ?_
      obtain ⟨g, hg⟩ := hmain option hoption
      rw [hg]
      exact (Field.key_ne_of_alias? hsecond g).symm
    rw [given?, hnone]
    rfl
  rw [merged, hsecond, Option.or_none]

end MemberHarvest.Settings
