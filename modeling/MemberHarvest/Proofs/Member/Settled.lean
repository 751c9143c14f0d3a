import Mathlib.Data.List.Forall2
import MemberHarvest.Member.Extraction
import MemberHarvest.Proofs.Interface.FirstDeclaration

/-!
# Proofs/Member/Settled — what becomes of every requested name

In a file that implements a requested name, the name is settled in one of three ways: a report that
the file names no namespace, a report that no declaration is known, or a block of records for the
declared members. The rules (`Settles`) leave no choice, since a catalogue holds one declaration of
a name. So the records and the reports of a file are those of one list of outcomes, name by name,
and every occurrence of an implemented name is a report or a block (`extract_settled`).
-/

namespace MemberHarvest.Extraction

variable {fallback : Bool} {c : Catalogue} {file : SourceFile} {name : String} {o : Outcome}

/-! ## The rules -/

/-- How a requested name is settled in a file: in a file that implements it, a missing namespace is
reported, and else a missing declaration; where neither is missing, each declared member has a
record, all for one namespace and one class. -/
inductive Settles (fallback : Bool) (c : Catalogue) (file : SourceFile) (name : String) :
    Outcome → Prop
  | absent (h : implements file.lines name = false) : Settles fallback c file name .absent
  | noNamespace (h : implements file.lines name = true)
    (space : ∀ l ∈ file.lines, namesSpace l = false) :
    Settles fallback c file name (.passedOver (.noNamespace file.path name))
  | noDeclaration (h : implements file.lines name = true)
    (space : ∃ l ∈ file.lines, namesSpace l = true)
      (declared : name ∉ c.names) :
      Settles fallback c file name (.passedOver (.noDeclaration file.path name))
  | found {space : String} {d : Declaration} (h : implements file.lines name = true)
      (space_eq : namespaceName? file.lines = some space) (mem : d ∈ c.declarations)
      (name_eq : d.interfaceName = name) :
    Settles fallback c file name
      (.found (d.members.map (record fallback file name space (className file.lines name))))

/-- A file names no namespace if none of its lines does. -/
theorem namespaceName?_eq_none_iff {lines : List String} :
    namespaceName? lines = none ↔ ∀ l ∈ lines, namesSpace l = false := by
  rw [namespaceName?, Option.map_eq_none_iff, List.find?_eq_none]
  simp

theorem exists_namespaceName?_iff {lines : List String} :
    (∃ space, namespaceName? lines = some space) ↔ ∃ l ∈ lines, namesSpace l = true := by
  rw [← Option.isSome_iff_exists, namespaceName?, Option.isSome_map, List.find?_isSome]

/-- Every name is settled. -/
theorem settles_outcome (fallback : Bool) (c : Catalogue) (file : SourceFile) (name : String) :
    Settles fallback c file name (outcome fallback c file name) := by
  rw [outcome]
  split
  · rename_i h
    cases hspace : namespaceName? file.lines with
    | none => exact .noNamespace h (namespaceName?_eq_none_iff.1 hspace)
    | some space =>
      cases hget : c.get? name with
      | none =>
        exact .noDeclaration h (exists_namespaceName?_iff.1 ⟨space, hspace⟩)
          (Catalogue.get?_eq_none_iff.1 hget)
      | some d =>
        obtain ⟨hmem, hname⟩ := Catalogue.get?_eq_some_iff.1 hget
        exact .found h hspace hmem hname
  · rename_i h
    exact .absent (by simpa using h)

/-- **The rules leave no choice.** Each rule names its own condition, and no two conditions hold
together. -/
theorem Settles.eq_outcome (h : Settles fallback c file name o) :
    o = outcome fallback c file name := by
  cases h with
  | absent h => simp [outcome, h]
  | noNamespace h space => simp [outcome, h, namespaceName?_eq_none_iff.2 space]
  | noDeclaration h space declared =>
    obtain ⟨space, hspace⟩ := exists_namespaceName?_iff.2 space
    simp [outcome, h, hspace, Catalogue.get?_eq_none_iff.2 declared]
  | found h hspace mem name_eq =>
    simp [outcome, h, hspace, Catalogue.get?_eq_some_iff.2 ⟨mem, name_eq⟩]

/-! ## All requested names -/

/-- Whether an outcome is a block of records. -/
def Outcome.isFound : Outcome → Bool
  | .found _ => true
  | _ => false

/-- An implemented name is reported once or has one block, and another name neither. -/
theorem Settles.count (h : Settles fallback c file name o) :
    (if implements file.lines name = true then 1 else 0) = o.entries.length + if o.isFound = true
      then 1 else 0 := by
  cases h with
  | absent h => simp [h, Outcome.entries, Outcome.isFound]
  | noNamespace h => simp [h, Outcome.entries, Outcome.isFound]
  | noDeclaration h => simp [h, Outcome.entries, Outcome.isFound]
  | found h => simp [h, Outcome.entries, Outcome.isFound]

/-- As many occurrences of implemented names as reports and blocks. -/
theorem countP_implements_eq {names : List String} {os : List Outcome}
    (h : List.Forall₂ (Settles fallback c file) names os) :
    names.countP (implements file.lines) = (os.flatMap Outcome.entries).length +
      os.countP Outcome.isFound := by
  induction h with
  | nil => rfl
  | cons hname _ ih =>
    rw [List.countP_cons, List.countP_cons, List.flatMap_cons, List.length_append, ih, hname.count]
    omega

/-- **The outcomes of a file are the only ones that settle its names,** one for each name in their
order. -/
theorem forall₂_settles_iff {names : List String} {os : List Outcome} :
    List.Forall₂ (Settles fallback c file) names os ↔ os = outcomes fallback c names file := by
  constructor
  · intro h
    induction h with
    | nil => rfl
    | cons hname _ ih => rw [hname.eq_outcome, ih]; rfl
  · rintro rfl
    exact List.forall₂_map_right_iff.2
      (List.forall₂_same.2 fun name _ => settles_outcome fallback c file name)

/-- **No implemented name is dropped without a word.** One list of outcomes settles the requested
names, each in its turn; the reports and the records of the file are those of the outcomes, and
there are as many reports and blocks as occurrences of implemented names. -/
theorem extract_settled (fallback : Bool) (c : Catalogue) (names : List String)
    (file : SourceFile) :
    ∃! os : List Outcome, List.Forall₂ (Settles fallback c file) names os ∧
      (extract fallback c names file).journal = os.flatMap Outcome.entries ∧
      (extract fallback c names file).outcome = .ok (os.flatMap Outcome.records) ∧
      names.countP (implements file.lines) =
        (extract fallback c names file).journal.length + os.countP Outcome.isFound := by
  refine ⟨outcomes fallback c names file, ?_, fun os h => forall₂_settles_iff.1 h.1⟩
  have hsettled : List.Forall₂ (Settles fallback c file) names (outcomes fallback c names file) :=
    forall₂_settles_iff.2 rfl
  exact ⟨hsettled, rfl, rfl, countP_implements_eq hsettled⟩

end MemberHarvest.Extraction
