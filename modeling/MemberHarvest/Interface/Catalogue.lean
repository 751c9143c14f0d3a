import MemberHarvest.Interface.Declaration
import MemberHarvest.Journal

/-!
# Interface/Catalogue — the declarations of a project

A catalogue holds one declaration for each name, in the order in which the names came up; the first
declaration of a name stays (`get?_register`). It is filled from the places where the files declare
the requested names (`sightings`), and each of these is reported.
-/

namespace MemberHarvest

/-- Declarations under different names, in the order of their registration. -/
structure Catalogue where
  declarations : List Declaration
  distinct : (declarations.map (·.interfaceName)).Nodup

namespace Catalogue

/-- No declarations. -/
def empty : Catalogue := ⟨[], List.nodup_nil⟩

/-- The declaration of a name. -/
def get? (c : Catalogue) (name : String) : Option Declaration :=
  c.declarations.find? (fun d => d.interfaceName == name)

/-- Whether a name has a declaration. -/
def contains (c : Catalogue) (name : String) : Bool := (c.get? name).isSome

/-- The number of declarations. -/
def size (c : Catalogue) : Nat := c.declarations.length

/-- The names, in the order of their registration. -/
def names (c : Catalogue) : List String := c.declarations.map (·.interfaceName)

theorem contains_iff {c : Catalogue} {name : String} : c.contains name = true ↔ name ∈ c.names := by
  simp [contains, get?, names]

/-- Add a declaration whose name is new; another one changes nothing. -/
def register (c : Catalogue) (d : Declaration) : Catalogue :=
  if h : c.contains d.interfaceName = true then c
  else
    ⟨c.declarations ++ [d], by
      rw [List.map_append, List.nodup_append]
      refine ⟨c.distinct, by simp, ?_⟩
      intro a ha b hb e
      obtain rfl : b = d.interfaceName := by simpa using hb
      exact h (contains_iff.2 (e ▸ ha))⟩

theorem register_of_contains {c : Catalogue} {d : Declaration}
    (h : c.contains d.interfaceName = true) :
    c.register d = c := dif_pos h

theorem declarations_register_of_not_contains {c : Catalogue} {d : Declaration}
    (h : ¬ c.contains d.interfaceName = true) :
    (c.register d).declarations = c.declarations ++ [d] := by
  rw [register, dif_neg h]

@[simp] theorem get?_empty (name : String) : empty.get? name = none := rfl

/-- **The first declaration of a name stays.** -/
theorem get?_register (c : Catalogue) (d : Declaration) (name : String) :
    (c.register d).get? name =
      (c.get? name).or (if d.interfaceName = name then some d else none) := by
  by_cases h : c.contains d.interfaceName = true
  · rw [register_of_contains h]
    by_cases hn : d.interfaceName = name
    · subst hn
      obtain ⟨e, he⟩ := Option.isSome_iff_exists.1 h
      simp [he]
    · simp [hn]
  · simp only [get?, declarations_register_of_not_contains h, List.find?_append,
      List.find?_singleton, beq_iff_eq]

theorem names_register (c : Catalogue) (d : Declaration) :
    (c.register d).names =
      if c.contains d.interfaceName = true then c.names else c.names ++ [d.interfaceName] := by
  split
  · rename_i h
    rw [register_of_contains h]
  · rename_i h
    rw [names, declarations_register_of_not_contains h, List.map_append]
    rfl

/-- After a registration there is a declaration of one more name. -/
theorem contains_register {c : Catalogue} {d : Declaration} {name : String} :
    (c.register d).contains name = true ↔ c.contains name = true ∨ d.interfaceName = name := by
  rw [contains_iff, contains_iff, names_register]
  split
  · rename_i h
    rw [or_iff_left_of_imp fun hname => contains_iff.1 (hname ▸ h)]
  · rw [List.mem_append, List.mem_singleton, eq_comm]

/-! ## Sightings -/

/-- A place where a declaration was found. -/
structure Sighting where
  path : Path
  declaration : Declaration
  deriving DecidableEq, Repr

/-- What the files declare of the names: file by file, and in a file name by name. -/
def sightings (files : List SourceFile) (names : List String) : List Sighting :=
  files.flatMap fun f =>
    (names.filter (Declaration.declares f.lines)).map fun n =>
      ⟨f.path, Declaration.ofLines f.lines n⟩

theorem sightings_append (fs gs : List SourceFile) (names : List String) :
    sightings (fs ++ gs) names = sightings fs names ++ sightings gs names := List.flatMap_append

/-- The report about a sighting, seen from the catalogue before it. -/
def entryFor (c : Catalogue) (s : Sighting) : Entry :=
  if c.contains s.declaration.interfaceName then
    .duplicate s.declaration.interfaceName s.path
  else .indexed s.declaration.interfaceName s.declaration.members.length s.path

/-- Register what was sighted, with a report about each. -/
def registerAll (c : Catalogue) : List Sighting → Catalogue × List Entry
  | [] => (c, [])
  | s :: rest =>
    let next := (c.register s.declaration).registerAll rest
    (next.1, c.entryFor s :: next.2)

theorem registerAll_append (c : Catalogue) (ss ts : List Sighting) :
    c.registerAll (ss ++ ts) =
      (((c.registerAll ss).1.registerAll ts).1,
        (c.registerAll ss).2 ++ ((c.registerAll ss).1.registerAll ts).2) := by
  induction ss generalizing c with
  | nil => rfl
  | cons s ss ih => simp [registerAll, ih]

/-- **The catalogue keeps the first sighting of a name.** -/
theorem get?_registerAll (c : Catalogue) (ss : List Sighting) (name : String) :
    ((c.registerAll ss).1).get? name =
      (c.get? name).or ((ss.map (·.declaration)).find? (fun d => d.interfaceName == name)) := by
  induction ss generalizing c with
  | nil => simp [registerAll]
  | cons s ss ih =>
    simp only [registerAll, ih, get?_register, List.map_cons, List.find?_cons]
    by_cases h : s.declaration.interfaceName = name
    · cases c.get? name <;> simp [h]
    · have hb : (s.declaration.interfaceName == name) = false := by simpa using h
      simp only [hb, if_neg h, Option.or_none]

/-- The catalogue of the files, for the requested names. -/
def ofFiles (files : List SourceFile) (names : List String) : Catalogue :=
  (empty.registerAll (sightings files names)).1

/-- The reports made on the way to the catalogue. -/
def entries (files : List SourceFile) (names : List String) : List Entry :=
  (empty.registerAll (sightings files names)).2

/-- The catalogue of the files, together with its reports. -/
def build (files : List SourceFile) (names : List String) : Journaled Catalogue :=
  ⟨entries files names, .ok (ofFiles files names)⟩

end Catalogue
end MemberHarvest
