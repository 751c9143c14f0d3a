import Mathlib.Data.List.Perm.Basic
import MemberHarvest.Proofs.Harvest.Blocks

/-!
# Proofs/Harvest/Reordering — in which order the files are harvested

The order of the files has a say only in which file is the first to declare a name. Two orders whose
first declaring files have the same lines (`SameFirstLines`) lead to catalogues that hold the same
under every name, and a file is extracted with the one as with the other. So the records of one
order are those of the other, moved about file by file (`harvestFiles_reorder`). Where no name is
declared twice, all orders are of this kind; where two files declare a name, they may differ, since
the members are those of the first one.
-/

namespace MemberHarvest

variable {files files' : List SourceFile} {names : List String}

/-! ## Catalogues that hold the same -/

namespace Catalogue

/-- Catalogues that hold the same under every name hold the same declarations, up to their order. -/
theorem declarations_perm_of_get?_eq {c c' : Catalogue} (h : ∀ name, c'.get? name = c.get? name) :
    c'.declarations.Perm c.declarations := by
  refine (List.perm_ext_iff_of_nodup c'.distinct.of_map c.distinct.of_map).2 fun d => ?_
  have hmem : ∀ {c : Catalogue}, d ∈ c.declarations ↔ c.get? d.interfaceName = some d :=
    fun {c} => by rw [get?_eq_some_iff, and_iff_left rfl]
  rw [hmem, hmem, h]

/-- Whether the files that are the first to declare the names, in two lists of files, have the same
lines. -/
def SameFirstLines (names : List String) (files files' : List SourceFile) : Prop :=
  ∀ name ∈ names, (firstDeclaring? files' name).map (·.lines) =
    (firstDeclaring? files name).map (·.lines)

/-- **The catalogue of files depends on the lines of the first declaring files only.** The paths of
these files do not matter, nor do the files that declare nothing first. -/
theorem SameFirstLines.get?_ofFiles_eq (h : SameFirstLines names files files') (name : String) :
    (ofFiles files' names).get? name = (ofFiles files names).get? name := by
  have hlines : ∀ fs, (firstDeclaring? fs name).map (fun f => Declaration.ofLines f.lines name) =
      ((firstDeclaring? fs name).map (·.lines)).map fun ls => Declaration.ofLines ls name := by
    intro fs
    rw [Option.map_map]
    rfl
  rw [get?_ofFiles, get?_ofFiles]
  split
  · rename_i hname
    rw [hlines, hlines, h name hname]
  · rfl

/-- In every order of the files, a name that at most one of them declares is first declared by the
same file. -/
theorem firstDeclaring?_eq_of_perm (hperm : files'.Perm files) {name : String}
    (hone : files.countP (fun f => Declaration.declares f.lines name) ≤ 1) :
    firstDeclaring? files' name = firstDeclaring? files name := by
  have hfilter : (files'.filter fun f => Declaration.declares f.lines name).Perm
      (files.filter fun f => Declaration.declares f.lines name) := hperm.filter _
  rw [firstDeclaring?, firstDeclaring?, ← List.head?_filter, ← List.head?_filter]
  rw [List.countP_eq_length_filter] at hone
  cases hdeclaring : files.filter fun f => Declaration.declares f.lines name with
  | nil =>
    rw [hdeclaring] at hfilter
    rw [hfilter.eq_nil]
  | cons f fs =>
    rw [hdeclaring] at hfilter hone
    obtain rfl : fs = [] := by simpa using hone
    rw [List.perm_singleton.1 hfilter]

/-- Where at most one file declares each name, the order of the files does not matter to the first
one. -/
theorem sameFirstLines_of_perm (hperm : files'.Perm files)
    (hone : ∀ name ∈ names, files.countP (fun f => Declaration.declares f.lines name) ≤ 1) :
    SameFirstLines names files files' := by
  intro name hname
  rw [firstDeclaring?_eq_of_perm hperm (hone name hname)]

end Catalogue

/-! ## Extraction with such catalogues -/

/-- **What is extracted from a file, and reported of it, depends on what the catalogue holds under
the names.** The order of the catalogue has no say in it. -/
theorem Extraction.extract_eq_of_get?_eq {c c' : Catalogue} (h : ∀ name, c'.get? name = c.get? name)
    (fallback : Bool) (names : List String) (file : SourceFile) :
    extract fallback c' names file = extract fallback c names file := by
  have houtcome : outcome fallback c' file = outcome fallback c file := by
    funext name
    rw [outcome, outcome, h]
  rw [extract, extract, entries, entries, records, records, outcomes, outcomes, houtcome]

namespace Harvest

open Catalogue (SameFirstLines)

/-- **The order of the files matters only through the first declarations.** Where no name is
declared twice, every order of the files has the same ones. With the same ones, the catalogues of
two orders hold the same, every file is extracted with the one as with the other, and the records
differ only in the order of the files that they come from. -/
theorem harvestFiles_reorder (fallback : Bool) (names : List String) (hperm : files'.Perm files) :
    ((∀ name ∈ names, files.countP (fun f => Declaration.declares f.lines name) ≤ 1) →
        SameFirstLines names files files') ∧
      (SameFirstLines names files files' →
        ∃ catalogue records catalogue' records' blockOf,
          (harvestFiles fallback names files).outcome = .ok (catalogue, records) ∧
            (harvestFiles fallback names files').outcome = .ok (catalogue', records') ∧
            (∀ name, catalogue'.get? name = catalogue.get? name) ∧
            catalogue'.declarations.Perm catalogue.declarations ∧
            (∀ file, (Extraction.extract fallback catalogue names file).outcome =
              .ok (blockOf file) ∧
              (Extraction.extract fallback catalogue' names file).outcome = .ok (blockOf file)) ∧
            records = (files.map blockOf).flatten ∧ records' = (files'.map blockOf).flatten ∧
            (files'.map blockOf).Perm (files.map blockOf)) := by
  refine ⟨Catalogue.sameFirstLines_of_perm hperm, fun hsame => ?_⟩
  have hget := hsame.get?_ofFiles_eq
  have hextract : ∀ file, Extraction.extract fallback (Catalogue.ofFiles files' names) names file =
      Extraction.extract fallback (Catalogue.ofFiles files names) names file :=
    Extraction.extract_eq_of_get?_eq hget fallback names
  have hblocks : Extraction.records fallback (Catalogue.ofFiles files' names) names =
      Extraction.records fallback (Catalogue.ofFiles files names) names :=
    funext fun file => Except.ok.inj (congrArg Journaled.outcome (hextract file))
  refine ⟨Catalogue.ofFiles files names, _, Catalogue.ofFiles files' names, _,
    Extraction.records fallback (Catalogue.ofFiles files names) names, rfl, rfl, hget,
    Catalogue.declarations_perm_of_get?_eq hget, fun file => ⟨rfl, ?_⟩, ?_, ?_, hperm.map _⟩
  · rw [hextract]
    rfl
  · rw [fileRecords, List.flatMap_def]
  · rw [fileRecords, List.flatMap_def, hblocks]

/-! ## An interface that two files declare alike -/

/-- An implementation, and an interface in two copies. -/
def copiedInterface : List SourceFile :=
  [⟨.ofString "Impl.cs",
      ["namespace NS;", "class Impl : IFoo", "  public int Run()", "    =>", "      1;",
        "  private int x;"]⟩,
    ⟨.ofString "IFoo.cs", ["interface IFoo { int Run(); }"]⟩,
    ⟨.ofString "Copy.cs", ["interface IFoo { int Run(); }"]⟩]

/-- Two files with the same interface may change places. -/
theorem harvestFiles_reorder_copiedInterface :
    copiedInterface.reverse.Perm copiedInterface ∧
      SameFirstLines ["IFoo"] copiedInterface copiedInterface.reverse ∧
      ∃ catalogue records catalogue' records',
        (harvestFiles false ["IFoo"] copiedInterface).outcome = .ok (catalogue, records) ∧
          (harvestFiles false ["IFoo"] copiedInterface.reverse).outcome =
            .ok (catalogue', records') ∧
          (∀ name, catalogue'.get? name = catalogue.get? name) ∧ records'.Perm records := by
  have hperm : copiedInterface.reverse.Perm copiedInterface := List.reverse_perm _
  have hsame : SameFirstLines ["IFoo"] copiedInterface copiedInterface.reverse := by
    intro name hname
    obtain rfl := List.mem_singleton.1 hname
    decide
  obtain ⟨catalogue, records, catalogue', records', blockOf, hfiles, hfiles', hget, -, -,
      rfl, rfl, hblocks⟩ :=
    (harvestFiles_reorder false ["IFoo"] hperm).2 hsame
  exact ⟨hperm, hsame, catalogue, _, catalogue', _, hfiles, hfiles', hget, hblocks.flatten⟩

end Harvest
end MemberHarvest
