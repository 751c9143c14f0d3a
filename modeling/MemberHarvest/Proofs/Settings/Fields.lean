import MemberHarvest.Proofs.Outcome
import MemberHarvest.Settings.Layers

/-!
# Proofs/Settings/Fields — settings are read field by field

Each field is read on its own (`readField`) and complains about itself alone (`readField_failsAs`).
The settings exist just where every field has a content, and hold these contents (`read_eq_ok_iff`);
otherwise the complaints are those of the fields, one field after another (`read_eq_error_iff`).
-/

namespace MemberHarvest.Settings

open Outcome

/-! ## One field -/

/-- What a field holds. -/
def Field.Content : Field → Type
  | .solution | .output | .encoding | .logLevel => String
  | .interfaces | .ignore => List String
  | .eofFallback | .wrapItems => Bool
  | .maxWorkers => Nat

/-- What settings hold for a field. -/
def content (s : Settings) : (f : Field) → f.Content
  | .solution => s.solution
  | .output => s.output
  | .interfaces => s.interfaces
  | .ignore => s.ignore
  | .encoding => s.encoding
  | .eofFallback => s.eofFallback
  | .wrapItems => s.wrapItems
  | .maxWorkers => s.maxWorkers
  | .logLevel => s.logLevel

/-- A field, read from its own value. -/
def readField : (f : Field) → Option Value → Checked f.Content
  | .solution => readText .solution none
  | .output => readText .output none
  | .interfaces => readInterfaces
  | .ignore => readIgnore
  | .encoding => readText .encoding (some defaultEncoding)
  | .eofFallback => readTruth .eofFallback
  | .wrapItems => readTruth .wrapItems
  | .maxWorkers => readWorkers
  | .logLevel => readText .logLevel (some defaultLevel)

/-- Complaints that there are, all about one field. -/
def AreAbout (f : Field) (es : List FieldError) : Prop := es ≠ [] ∧ ∀ e ∈ es, e.field = f

variable {raw raw' : Field → Option Value} {s : Settings} {α β : Type}

theorem single_failsAs (f : Field) (r : Except Complaint α) :
    FailsAs (AreAbout f) (single f r) := by
  cases r with
  | ok a => exact .ok a
  | error c => exact .error ⟨List.cons_ne_nil _ _, by simp⟩

/-- A complaint is about the field that it is made for. -/
theorem complain_failsAs (f : Field) (c : Complaint) :
    FailsAs (AreAbout f) (complain f c : Checked α) :=
  single_failsAs f (.error c)

theorem readText_failsAs (f : Field) (default? : Option String) (v? : Option Value) :
    FailsAs (AreAbout f) (readText f default? v?) := by
  cases v? with
  | some v => exact single_failsAs f _
  | none => cases default? with
    | some s => exact .ok s
    | none => exact complain_failsAs f _

/-- Complaints about the elements of a list are about the field of the list. -/
theorem field_of_mem_elementErrors {f : Field} {i : Nat} {vs : List Value} {e : FieldError}
    (h : e ∈ elementErrors f i vs) : e.field = f := by
  induction vs generalizing i with
  | nil => exact absurd h List.not_mem_nil
  | cons v vs ih =>
    rw [elementErrors] at h
    split at h
    · exact ih h
    · rcases List.mem_cons.1 h with rfl | h
      · rfl
      · exact ih h

theorem readElements_failsAs (f : Field) (vs : List Value) :
    FailsAs (AreAbout f) (readElements f vs) := by
  rw [readElements]
  split
  · exact .ok _
  · rename_i e es hes
    exact .error ⟨List.cons_ne_nil _ _, fun e' he' => field_of_mem_elementErrors (hes ▸ he')⟩

/-- **What is wrong with a field is about that field.** The element of a list that is at fault is
told besides. -/
theorem readField_failsAs (f : Field) (v? : Option Value) :
    FailsAs (AreAbout f) (readField f v?) := by
  cases f with
  | solution => exact readText_failsAs .solution none v?
  | output => exact readText_failsAs .output none v?
  | encoding => exact readText_failsAs .encoding (some defaultEncoding) v?
  | logLevel => exact readText_failsAs .logLevel (some defaultLevel) v?
  | interfaces =>
    rw [readField, readInterfaces.eq_def]
    split
    · exact complain_failsAs _ _
    · exact .ok _
    · exact .ok _
    · exact readElements_failsAs _ _
    · exact complain_failsAs _ _
  | ignore =>
    rw [readField, readIgnore.eq_def]
    split
    · exact .ok _
    · exact readElements_failsAs _ _
    · exact readElements_failsAs _ _
    · exact complain_failsAs _ _
  | eofFallback | wrapItems =>
    cases v? with
    | none => exact .ok _
    | some v => exact single_failsAs _ _
  | maxWorkers =>
    rw [readField, readWorkers.eq_def]
    split
    · exact .ok _
    · split
      · split
        · exact .ok _
        · exact complain_failsAs _ _
      · exact complain_failsAs _ _

/-! ## All fields -/

/-- The fields in their order. -/
def fields : List Field :=
  [.solution, .output, .interfaces, .ignore, .encoding, .eofFallback, .wrapItems,
    .maxWorkers, .logLevel]

/-- The complaints about a part. -/
def Checked.complaints : Checked α → List FieldError
  | .ok _ => []
  | .error es => es

/-- **Two checks complain of what either does,** the first one first. -/
theorem Checked.complaints_both (x : Checked α) (y : Checked β) :
    (x.both y).complaints = x.complaints ++ y.complaints := by
  cases x <;> cases y <;> simp [both, complaints]

/-- What is made of a checked value does not matter to the complaints. -/
theorem Checked.complaints_map (f : α → β) (x : Checked α) :
    Checked.complaints (x.map f) = x.complaints := by
  cases x <;> rfl

theorem complaints_readField_eq_nil_iff {f : Field} {v? : Option Value} :
    (readField f v?).complaints = [] ↔ ∃ c, readField f v? = .ok c := by
  cases h : readField f v? with
  | ok c => exact iff_of_true rfl ⟨c, rfl⟩
  | error es => exact iff_of_false (readField_failsAs f v? es h).1 nofun

/-- **The settings exist where every field has a content,** and hold these contents. No field is
read with the help of another one. -/
theorem read_eq_ok_iff : read raw = .ok s ↔ ∀ f, readField f (raw f) = .ok (s.content f) := by
  constructor
  · intro h
    obtain ⟨⟨_, _, _, _, _, _, _, _, _⟩, hfields, rfl⟩ := map_eq_ok_iff.1 h
    simp only [Checked.both_eq_ok_iff] at hfields
    obtain ⟨hsolution, houtput, hinterfaces, hignore, hencoding, hfallback, hwrap, hworkers,
        hlevel⟩ := hfields
    intro f
    cases f
    all_goals assumption
  · intro h
    refine map_eq_ok_iff.2
      ⟨(s.solution, s.output, s.interfaces, s.ignore, s.encoding, s.eofFallback, s.wrapItems,
      s.maxWorkers, s.logLevel), ?_, rfl⟩
    simp only [Checked.both_eq_ok_iff]
    exact ⟨h .solution, h .output, h .interfaces, h .ignore, h .encoding, h .eofFallback,
      h .wrapItems, h .maxWorkers, h .logLevel⟩

/-- **Settings are read if each field is.** -/
theorem exists_read_eq_ok_iff :
    (∃ s, read raw = .ok s) ↔ ∀ f, ∃ c, readField f (raw f) = .ok c := by
  constructor
  · rintro ⟨s, hs⟩ f
    exact ⟨_, read_eq_ok_iff.1 hs f⟩
  · intro h
    choose c hc using h
    refine ⟨⟨c .solution, c .output, c .interfaces, c .ignore, c .encoding, c .eofFallback,
      c .wrapItems, c .maxWorkers, c .logLevel⟩, read_eq_ok_iff.2 fun f => ?_⟩
    cases f
    all_goals exact hc _

/-- **The complaints about settings are those about their fields,** in the order of the fields. -/
theorem complaints_read (raw : Field → Option Value) :
    (read raw).complaints = fields.flatMap fun f => (readField f (raw f)).complaints := by
  simp only [read, Checked.complaints_map, Checked.complaints_both, fields,
    List.flatMap_cons, List.flatMap_nil, List.append_nil]
  rfl

/-- Of all complaints, those about a field are the ones that it comes to on its own. -/
theorem filter_complaints_read (raw : Field → Option Value) (f : Field) :
    ((read raw).complaints.filter fun e => e.field = f) = (readField f (raw f)).complaints := by
  have hown (g : Field) : ((readField g (raw g)).complaints.filter fun e => e.field = f) =
      if g = f then (readField g (raw g)).complaints else [] := by
    cases hg : readField g (raw g) with
    | ok c => simp [Checked.complaints]
    | error es =>
      obtain ⟨-, habout⟩ := readField_failsAs g (raw g) es hg
      split
      · rename_i hf
        exact List.filter_eq_self.2 fun e he => by simp [habout e he, hf]
      · rename_i hf
        exact List.filter_eq_nil_iff.2 fun e he => by simp [habout e he, hf]
  rw [complaints_read, List.filter_flatMap]
  simp only [hown]
  cases f <;> simp [fields]

/-- **Otherwise the complaints are those about the fields,** one field after another. A field that
is wrong does not keep the others from being looked at. -/
theorem read_eq_error_iff {es : List FieldError} : read raw = .error es ↔
    (es = fields.flatMap fun f => (readField f (raw f)).complaints) ∧ ¬ ∃ s, read raw = .ok s := by
  rw [← complaints_read]
  cases h : read raw with
  | ok s => simp
  | error es' => simp [Checked.complaints, eq_comm]

/-- Settings are told by what their fields read as. -/
theorem read_congr (h : ∀ f, readField f (raw f) = readField f (raw' f)) :
    read raw = read raw' := by
  cases hread : read raw' with
  | ok s => exact read_eq_ok_iff.2 fun f => (h f).trans (read_eq_ok_iff.1 hread f)
  | error es =>
    obtain ⟨hes, hnone⟩ := read_eq_error_iff.1 hread
    rw [exists_read_eq_ok_iff] at hnone
    rw [read_eq_error_iff, exists_read_eq_ok_iff]
    simpa only [h] using ⟨hes, hnone⟩

end MemberHarvest.Settings
