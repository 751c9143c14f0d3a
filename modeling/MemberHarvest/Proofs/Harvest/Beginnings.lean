import MemberHarvest.Proofs.Harvest.Requests

/-!
# Proofs/Harvest/Beginnings — names that begin with other names

Names are looked for as parts of lines, and nothing is asked of the character behind them. So a file
that declares a name also declares every beginning of it, and likewise for implementations. Where a
name is in the catalogue, so is each requested beginning of it, and the file that declares the
beginning first does not stand behind the one that declares the name first. Hence a file with
records for a name has all records for the requested beginnings of that name as well
(`harvestFiles_beginning`).
-/

namespace MemberHarvest

variable {lines : List String} {files : List SourceFile} {file : SourceFile}
  {names : List String} {n s : String}

/-! ## One file -/

/-- A text that holds a needle holds its beginnings. -/
theorem Text.occurs_of_prefix {needle needle' text : List Char} (hbegins : needle <+: needle')
    (h : occurs needle' text = true) : occurs needle text = true :=
  occurs_iff.2 (hbegins.isInfix.trans (occurs_iff.1 h))

/-- Behind the same text, a name begins with the beginning of the name. -/
theorem prefix_append_toList (front : List Char) (n s : String) :
    front ++ n.toList <+: front ++ (n ++ s).toList := by
  rw [String.toList_append, List.prefix_append_right_inj]
  exact List.prefix_append _ _

/-- **A file that declares a name declares its beginnings.** The text that declares is searched for
anywhere in a line, and nothing is asked about what follows the name. -/
theorem Declaration.declares_of_declares_append (h : declares lines (n ++ s) = true) :
    declares lines n = true := by
  obtain ⟨l, hl, hocc⟩ := List.any_eq_true.1 h
  exact List.any_eq_true.2 ⟨l, hl, Text.occurs_of_prefix (prefix_append_toList keyword n s) hocc⟩

/-- **A file that implements a name implements its beginnings.** Here too the name may be followed
by anything. -/
theorem Extraction.implements_of_implements_append (h : implements lines (n ++ s) = true) :
    implements lines n = true := by
  obtain ⟨l, hl, hocc⟩ := List.any_eq_true.1 h
  refine List.any_eq_true.2 ⟨l, hl, ?_⟩
  rw [Bool.or_eq_true] at hocc ⊢
  exact hocc.imp (Text.occurs_of_prefix (prefix_append_toList [':'] n s))
    (Text.occurs_of_prefix (prefix_append_toList [','] n s))

/-! ## The first declaring file -/

namespace Catalogue

/-- A file has a position among the files, declares the name, and no file in front of it does. -/
structure IsFirstDeclaring (files : List SourceFile) (name : String) (i : ℕ) (f : SourceFile) :
    Prop where
  file : files[i]? = some f
  declares : Declaration.declares f.lines name = true
  before : ∀ g ∈ files.take i, Declaration.declares g.lines name = false

/-- A file that declares a name first has a first place among the files. -/
theorem exists_isFirstDeclaring {name : String} {f : SourceFile}
    (h : firstDeclaring? files name = some f) :
    ∃ i, IsFirstDeclaring files name i f := by
  obtain ⟨hdeclares, front, behind, rfl, hfront⟩ := List.find?_eq_some_iff_append.1 h
  refine ⟨front.length, by simp, hdeclares, fun g hg => ?_⟩
  rw [List.take_left] at hg
  simpa using hfront g hg

/-- The first file to declare a beginning of a name does not stand behind the first one to declare
the name. -/
theorem IsFirstDeclaring.le_of_append {i j : ℕ} {f f' : SourceFile}
    (hf : IsFirstDeclaring files n i f) (hf' : IsFirstDeclaring files (n ++ s) j f') : i ≤ j := by
  by_contra hlt
  have hmem : f' ∈ files.take i :=
    List.mem_of_getElem? ((List.getElem?_take_of_lt (Nat.lt_of_not_le hlt)).trans hf'.file)
  exact absurd (Declaration.declares_of_declares_append hf'.declares) (by simp [hf.before f' hmem])

/-- **With a name, the catalogue of files holds its requested beginnings.** The first file that
declares the beginning need not be the one that declares the name, but it is not behind it. -/
theorem get?_beginning (hn : n ∈ names) {d' : Declaration}
    (h : (ofFiles files names).get? (n ++ s) = some d') :
    ∃ i j f f', IsFirstDeclaring files n i f ∧ IsFirstDeclaring files (n ++ s) j f' ∧ i ≤ j ∧
      (ofFiles files names).get? n = some (Declaration.ofLines f.lines n) ∧
      d' = Declaration.ofLines f'.lines (n ++ s) := by
  rw [get?_ofFiles] at h
  split at h
  · obtain ⟨f', hfirst', rfl⟩ := Option.map_eq_some_iff.1 h
    obtain ⟨j, hf'⟩ := exists_isFirstDeclaring hfirst'
    have hsome : (firstDeclaring? files n).isSome = true :=
      List.find?_isSome.2
        ⟨f', List.mem_of_getElem? hf'.file, Declaration.declares_of_declares_append hf'.declares⟩
    obtain ⟨f, hfirst⟩ := Option.isSome_iff_exists.1 hsome
    obtain ⟨i, hf⟩ := exists_isFirstDeclaring hfirst
    exact ⟨i, j, f, f', hf, hf', hf.le_of_append hf',
      by rw [get?_ofFiles_of_mem hn, hfirst]; rfl, rfl⟩
  · simp at h

end Catalogue

/-! ## Records -/

namespace Harvest

open Catalogue (IsFirstDeclaring)

variable {fallback : Bool}

/-- The records of a file for a name are one block, once for each time that the name is
requested. -/
theorem recordsOf_records (name : String) :
    recordsOf name (Extraction.records fallback (Catalogue.ofFiles files names) names file) =
      (List.replicate (names.count name) (block fallback files file name)).flatten := by
  rw [recordsOf, records_eq_flatMap_block, filter_flatMap_block (· == name),
    List.filter_beq, List.flatMap_def, List.map_replicate]

/-- A file that implements a name has a record for each member that the catalogue holds under the
name. -/
theorem block_of_get? (hn : n ∈ names) (himplements : Extraction.implements file.lines n = true)
    {space : String} (hspace : Extraction.namespaceName? file.lines = some space) {d : Declaration}
    (hget : (Catalogue.ofFiles files names).get? n = some d) (fallback : Bool) :
    block fallback files file n =
      d.members.map
        (Extraction.record fallback file n space (Extraction.className file.lines n)) := by
  rw [← records_outcome hn, Extraction.outcome, if_pos himplements, hspace, hget]
  rfl

/-- **With records for a name, a file has the records for its requested beginnings.** They are one
block of records for each time that the beginning is requested. -/
theorem recordsOf_beginning (hn : n ∈ names)
    (h : recordsOf (n ++ s) (Extraction.records fallback (Catalogue.ofFiles files names)
      names file) ≠ []) :
    ∃ d space, (Catalogue.ofFiles files names).get? n = some d ∧
      Extraction.namespaceName? file.lines = some space ∧
      recordsOf n (Extraction.records fallback (Catalogue.ofFiles files names) names file) =
        (List.replicate (names.count n)
          (d.members.map (Extraction.record fallback file n space
            (Extraction.className file.lines n)))).flatten := by
  rw [recordsOf_records] at h
  rcases block_cases fallback files file (n ++ s) with hnil
    | ⟨space, members, himplements, hspace, hmembers, -⟩
  · simp [hnil] at h
  have hns : n ++ s ∈ names := by
    by_contra hnot
    rw [List.count_eq_zero_of_not_mem hnot] at h
    exact h rfl
  obtain ⟨f', hfirst', -⟩ := Option.map_eq_some_iff.1 hmembers
  have hget' : (Catalogue.ofFiles files names).get? (n ++ s) =
      some (Declaration.ofLines f'.lines (n ++ s)) := by
    rw [Catalogue.get?_ofFiles_of_mem hns, hfirst']
    rfl
  obtain ⟨-, -, f, -, -, -, -, hget, -⟩ := Catalogue.get?_beginning hn hget'
  have hblock := block_of_get? hn (Extraction.implements_of_implements_append himplements)
    hspace hget fallback
  exact ⟨_, space, hget, hspace, by rw [recordsOf_records, hblock]⟩

/-- **A name brings its beginnings with it.** Where the catalogue holds a name, it holds each
requested beginning of the name, from the same file or one in front of it; every file that
implements the name implements the beginning; and a file with records for the name has, each time
that the beginning is requested, one record for each member that the catalogue holds under the
beginning. -/
theorem harvestFiles_beginning (fallback : Bool) (files : List SourceFile) (s : String)
    (hn : n ∈ names) :
    ∃ catalogue records,
      (harvestFiles fallback names files).outcome = .ok (catalogue, records) ∧
        (∀ d', catalogue.get? (n ++ s) = some d' →
          ∃ i j f f', IsFirstDeclaring files n i f ∧ IsFirstDeclaring files (n ++ s) j f' ∧ i ≤ j ∧
            catalogue.get? n = some (Declaration.ofLines f.lines n) ∧
            d' = Declaration.ofLines f'.lines (n ++ s)) ∧
        (∀ lines, Extraction.implements lines (n ++ s) = true →
          Extraction.implements lines n = true) ∧
        records = files.flatMap (Extraction.records fallback catalogue names) ∧
        ∀ file, recordsOf (n ++ s) (Extraction.records fallback catalogue names file) ≠ [] →
          ∃ d space, catalogue.get? n = some d ∧ Extraction.namespaceName? file.lines = some space ∧
            recordsOf n (Extraction.records fallback catalogue names file) =
              (List.replicate (names.count n)
                (d.members.map
                  (Extraction.record fallback file n space
                    (Extraction.className file.lines n)))).flatten :=
  ⟨Catalogue.ofFiles files names, fileRecords fallback names files, rfl,
    fun _ => Catalogue.get?_beginning hn, fun _ => Extraction.implements_of_implements_append, rfl,
    fun _ => recordsOf_beginning hn⟩

/-! ## An interface whose name begins with that of another one -/

/-- A class that implements an interface with a longer name, and mentions no other one. -/
def longerImplementation : SourceFile :=
  ⟨.ofString "Impl.cs",
    ["namespace NS;", "class Impl : IFooBar", "  public int Run()", "    =>", "      1;",
      "  private int x;"]⟩

/-- The class between the files that declare the two interfaces. -/
def longerName : List SourceFile :=
  [⟨.ofString "IFoo.cs", ["interface IFoo { int Run(); }"]⟩, longerImplementation,
    ⟨.ofString "IFooBar.cs",
      ["interface IFooBar", "\x7b", "  int Run();", "  int Stop();", "\x7d"]⟩]

/-- With the text `interface IFooBar` in a file, `IFoo` is declared by it too. -/
theorem harvestFiles_beginning_longerName :
    "IFoo" ∈ ["IFooBar", "IFoo"] ∧
      ∃ catalogue records, (harvestFiles false ["IFooBar", "IFoo"] longerName).outcome =
        .ok (catalogue, records) ∧
        catalogue.get? ("IFoo" ++ "Bar") = some ⟨"IFooBar", ["Run", "Stop"]⟩ ∧
        (∃ i j f f', IsFirstDeclaring longerName "IFoo" i f ∧
          IsFirstDeclaring longerName ("IFoo" ++ "Bar") j f' ∧ i ≤ j) ∧
        recordsOf ("IFoo" ++ "Bar")
          (Extraction.records false catalogue ["IFooBar", "IFoo"] longerImplementation) ≠ [] ∧
        ∃ d space, catalogue.get? "IFoo" = some d ∧
          recordsOf "IFoo"
            (Extraction.records false catalogue ["IFooBar", "IFoo"] longerImplementation) =
            d.members.map (Extraction.record false longerImplementation "IFoo" space "Impl") := by
  have hn : "IFoo" ∈ ["IFooBar", "IFoo"] := by decide
  obtain ⟨catalogue, records, houtcome, hget, -, -, hrecords⟩ :=
    harvestFiles_beginning false longerName "Bar" hn
  obtain ⟨rfl, rfl⟩ := Prod.mk.inj (Except.ok.inj houtcome)
  have hlonger : (Catalogue.ofFiles longerName ["IFooBar", "IFoo"]).get? ("IFoo" ++ "Bar") =
      some ⟨"IFooBar", ["Run", "Stop"]⟩ := by decide +kernel
  have hrecorded : recordsOf ("IFoo" ++ "Bar") (Extraction.records false
      (Catalogue.ofFiles longerName ["IFooBar", "IFoo"]) ["IFooBar", "IFoo"] longerImplementation) ≠
        [] := by
    decide +kernel
  obtain ⟨i, j, f, f', hf, hf', hle, -⟩ := hget _ hlonger
  obtain ⟨d, space, hd, -, hshorter⟩ := hrecords longerImplementation hrecorded
  have hclass : Extraction.className longerImplementation.lines "IFoo" = "Impl" := by decide +kernel
  have hcount : ["IFooBar", "IFoo"].count "IFoo" = 1 := by decide
  rw [hclass, hcount, List.replicate_one, List.flatten_singleton] at hshorter
  exact ⟨hn, _, _, houtcome, hlonger, ⟨i, j, f, f', hf, hf', hle⟩, hrecorded, d,
    space, hd, hshorter⟩

end Harvest
end MemberHarvest
