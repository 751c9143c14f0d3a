import Mathlib.Data.List.Nodup
import MemberHarvest.Interface.Catalogue

/-!
# Proofs/Interface/FirstDeclaration — what the catalogue of files says about a name

A catalogue finds a declaration under its name (`get?_eq_some_iff`). Under a requested name the
catalogue of files holds what the first file that declares the name says (`get?_ofFiles_of_mem`),
wherever that file stands in the list. The catalogue is filled from sightings, and the first
sighting of a name decides, so the work is to find that sighting: in one file it stands behind the
sightings of other names, in several files behind files that declare only other names.
-/

namespace MemberHarvest.Catalogue

variable {names : List String} {name : String}

/-! ## Looking up -/

/-- A catalogue finds each of its declarations, since their names are different. -/
theorem get?_eq_some_iff {c : Catalogue} {d : Declaration} :
    c.get? name = some d ↔ d ∈ c.declarations ∧ d.interfaceName = name := by
  constructor
  · intro h
    exact ⟨List.mem_of_find?_eq_some h, by simpa using List.find?_some h⟩
  · rintro ⟨hd, rfl⟩
    obtain ⟨e, he⟩ := Option.isSome_iff_exists.1 (contains_iff.2 (List.mem_map_of_mem hd))
    have hname : e.interfaceName = d.interfaceName := by simpa using List.find?_some he
    rw [he, List.inj_on_of_nodup_map c.distinct (List.mem_of_find?_eq_some he) hd hname]

/-- A name without a declaration is none of the catalogue. -/
theorem get?_eq_none_iff {c : Catalogue} : c.get? name = none ↔ name ∉ c.names := by
  rw [← contains_iff, contains, Option.not_isSome_iff_eq_none]

/-! ## The first declaration -/

/-- The first of the files that declares the name. -/
def firstDeclaring? (files : List SourceFile) (name : String) : Option SourceFile :=
  files.find? fun f => Declaration.declares f.lines name

/-- A file gives a declaration of the names that are requested and that it declares. -/
theorem find?_map_ofLines_filter (lines : List String) (names : List String) (name : String) :
    ((names.filter (Declaration.declares lines)).map (Declaration.ofLines lines)).find?
        (fun d => d.interfaceName == name) =
      if name ∈ names ∧ Declaration.declares lines name = true then
        some (Declaration.ofLines lines name)
      else none := by
  induction names with
  | nil => simp
  | cons n ns ih =>
    rw [List.filter_cons]
    by_cases hd : Declaration.declares lines n = true
    · rw [if_pos hd, List.map_cons, List.find?_cons, Declaration.interfaceName_ofLines, ih]
      by_cases hn : n = name
      · subst hn
        simp [hd]
      · have hb : (n == name) = false := by simpa using hn
        simp [hb, Ne.symm hn]
    · rw [if_neg hd, ih]
      by_cases hn : n = name
      · subst hn
        simp [hd]
      · simp [Ne.symm hn]

/-- **The first sighting of a requested name is in the first file that declares it.** Sightings go
file by file, so an earlier file counts before an earlier name. -/
theorem find?_sightings (h : name ∈ names) (files : List SourceFile) :
    ((sightings files names).map (·.declaration)).find? (fun d => d.interfaceName == name) =
      (firstDeclaring? files name).map fun f => Declaration.ofLines f.lines name := by
  induction files with
  | nil => rfl
  | cons f fs ih =>
    have hf : (sightings [f] names).map (·.declaration) =
        (names.filter (Declaration.declares f.lines)).map (Declaration.ofLines f.lines) := by
      simp [sightings]
    rw [← List.singleton_append, sightings_append, List.map_append, List.find?_append, hf,
      find?_map_ofLines_filter, ih]
    simp only [firstDeclaring?, List.singleton_append, List.find?_cons, h, true_and]
    cases Declaration.declares f.lines name <;> simp

/-- **The catalogue of files holds, under a requested name, what the first declaring file says.**
Nothing of the later files that declare it is kept. -/
theorem get?_ofFiles_of_mem (h : name ∈ names) (files : List SourceFile) :
    (ofFiles files names).get? name =
      (firstDeclaring? files name).map fun f => Declaration.ofLines f.lines name := by
  rw [ofFiles, get?_registerAll, get?_empty, Option.none_or, find?_sightings h]

/-- Only requested names are sighted. -/
theorem mem_of_mem_sightings {files : List SourceFile} {s : Sighting}
    (h : s ∈ sightings files names) :
    s.declaration.interfaceName ∈ names := by
  obtain ⟨f, -, hs⟩ := List.mem_flatMap.1 h
  obtain ⟨n, hn, rfl⟩ := List.mem_map.1 hs
  exact (List.mem_filter.1 hn).1

/-- **What the catalogue of files holds under any name.** A name that was not requested is not
there, whatever the files declare. -/
theorem get?_ofFiles (files : List SourceFile) (names : List String) (name : String) :
    (ofFiles files names).get? name =
      if name ∈ names then (firstDeclaring? files name).map fun f =>
        Declaration.ofLines f.lines name else none := by
  split
  · rename_i h
    exact get?_ofFiles_of_mem h files
  · rename_i h
    rw [ofFiles, get?_registerAll, get?_empty, Option.none_or, List.find?_eq_none]
    intro d hd hname
    obtain ⟨s, hs, rfl⟩ := List.mem_map.1 hd
    exact h (beq_iff_eq.1 hname ▸ mem_of_mem_sightings hs)

end MemberHarvest.Catalogue
