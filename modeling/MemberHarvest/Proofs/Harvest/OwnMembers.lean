import MemberHarvest.Harvest.Files
import MemberHarvest.Proofs.Interface.MemberLines
import MemberHarvest.Proofs.Interface.Visits
import MemberHarvest.Proofs.Member.Settled

/-!
# Proofs/Harvest/OwnMembers — the members of a file are found in that file

A member is read off a line, and its name stands in that line. So in the file that declares it, the
search for the first line that holds the name ends on that line or in front of it
(`exists_signatureLine?_le`); the empty name stands in every line and is found on the first one.
Hence the record that this file gives of one of its own members starts behind a line of the file,
and at the latest behind the line that the member was read off (`harvestFiles_located`). In another
file the name of a member may be missing, and then a record starts at 0.
-/

namespace MemberHarvest

open Declaration (NamedAt ReadOff memberNames)

/-! ## The search for a member's name -/

namespace Body

variable {lines : List String} {member : String} {i : ℕ}

/-- **A member is found on the line that names it, or in front of it.** It need not be found on that
very line, since the name may stand in a line before. -/
theorem exists_signatureLine?_le (h : NamedAt lines i member) :
    ∃ s, signatureLine? lines member = some s ∧ s ≤ i := by
  obtain ⟨l, hi, hl⟩ := h
  have hholds : Text.occurs member.toList l.toList = true := Text.occurs_iff.2 hl.isInfix
  have hlt : lines.findIdx (fun l => Text.occurs member.toList l.toList) < lines.length :=
    List.findIdx_lt_length_of_exists ⟨l, List.mem_of_getElem? hi, hholds⟩
  exact ⟨_, List.findIdx?_eq_some_iff_findIdx_eq.2 ⟨hlt, rfl⟩,
    Catalogue.findIdx_le_of_getElem? hi hholds⟩

/-- So its body starts behind some line, and not later than behind the line that names it. -/
theorem startLine_bounds (h : NamedAt lines i member) :
    1 ≤ startLine lines member ∧ startLine lines member ≤ i + 1 := by
  obtain ⟨s, hs, hle⟩ := exists_signatureLine?_le h
  have hstart : startLine lines member = s + 1 := by rw [startLine, hs]
  omega

end Body

/-! ## Records -/

/-- What a record of a member says of the lines that the member was read off: some line names the
member, and the record starts behind a line, not later than behind any line that names the
member. -/
structure Record.IsLocated (lines : List String) (r : Record) : Prop where
  named : ∃ i, NamedAt lines i r.memberName
  one_le : 1 ≤ r.location.startLine
  le : ∀ i, NamedAt lines i r.memberName → r.location.startLine ≤ i + 1

namespace Extraction

variable {fallback : Bool} {c : Catalogue} {names : List String} {file : SourceFile} {r : Record}

/-- A member that is found in a file has a record with a line of this file. -/
theorem isLocated_record {member : String} (h : member ∈ memberNames file.lines) (fallback : Bool)
    (interfaceName namespaceName className : String) :
    (record fallback file interfaceName namespaceName className member).IsLocated file.lines := by
  obtain ⟨i, hi⟩ := Declaration.exists_namedAt_of_mem h
  refine ⟨⟨i, hi⟩, Int.ofNat_le.2 (Body.startLine_bounds hi).1, fun j hj => ?_⟩
  have hle : Body.startLine file.lines member ≤ j + 1 := (Body.startLine_bounds hj).2
  simp only [record]
  omega

/-- A record of a file is the record of a member that the catalogue holds under its interface. -/
theorem exists_declaration_of_mem_records (h : r ∈ records fallback c names file) :
    ∃ d, c.get? r.interfaceName = some d ∧ r.memberName ∈ d.members ∧
      r = record fallback file r.interfaceName r.namespaceName r.className r.memberName := by
  obtain ⟨o, ho, hr⟩ := List.mem_flatMap.1 h
  obtain ⟨name, -, rfl⟩ := List.mem_map.1 ho
  have hsettles := settles_outcome fallback c file name
  generalize outcome fallback c file name = settled at hsettles hr
  cases hsettles with
  | absent => exact absurd hr List.not_mem_nil
  | noNamespace => exact absurd hr List.not_mem_nil
  | noDeclaration => exact absurd hr List.not_mem_nil
  | found _ _ mem name_eq =>
    obtain ⟨member, hmember, rfl⟩ := List.mem_map.1 hr
    exact ⟨_, Catalogue.get?_eq_some_iff.2 ⟨mem, name_eq⟩, hmember, rfl⟩

/-- Under the interface of a record, the catalogue of files holds what the first declaring file
says. -/
theorem get?_ofFiles_of_mem_records {files : List SourceFile} {f : SourceFile}
    (hr : r ∈ records fallback (Catalogue.ofFiles files names) names file)
    (hfirst : Catalogue.firstDeclaring? files r.interfaceName = some f) :
    (Catalogue.ofFiles files names).get? r.interfaceName =
      some (.ofLines f.lines r.interfaceName) := by
  obtain ⟨d, hd, -⟩ := exists_declaration_of_mem_records hr
  rw [Catalogue.get?_ofFiles] at hd ⊢
  split at hd
  · rename_i hname
    rw [if_pos hname, hfirst, Option.map_some]
  · exact absurd hd (Option.some_ne_none d).symm

/-- **A file locates the members that it declares itself.** In another file's class the member may
be missing, and then its record is at the beginning of the file. -/
theorem isLocated_of_mem_records (hr : r ∈ records fallback c names file)
    (hown : c.get? r.interfaceName = some (.ofLines file.lines r.interfaceName)) :
    r.IsLocated file.lines := by
  obtain ⟨d, hd, hmember, heq⟩ := exists_declaration_of_mem_records hr
  obtain rfl : d = .ofLines file.lines r.interfaceName := Option.some.inj (hd.symm.trans hown)
  rw [heq]
  exact isLocated_record hmember fallback _ _ _

end Extraction

/-! ## The harvest -/

namespace Harvest

/-- **Every member is located in the file that it was read off.** One member is read off each line
that holds a parenthesis, in the order of the lines, and is found on that line or in front of it.
Where the catalogue has what the file says of an interface, as it has in a harvest if no earlier
file declares the interface, the records that the file gives for the interface start behind a line,
and not later than behind the line that their member was read off. -/
theorem harvestFiles_located (file : SourceFile) :
    (∃ is, ReadOff file.lines is (memberNames file.lines)) ∧
      (∀ i member, NamedAt file.lines i member →
        ∃ s, Body.signatureLine? file.lines member = some s ∧ s ≤ i) ∧
      (∀ fallback c names, ∀ r ∈ Extraction.records fallback c names file,
        c.get? r.interfaceName = some (.ofLines file.lines r.interfaceName) →
          r.IsLocated file.lines) ∧
      ∀ fallback names files, ∃ catalogue records,
        (harvestFiles fallback names files).outcome = .ok (catalogue, records) ∧
          records = files.flatMap (Extraction.records fallback catalogue names) ∧
          ∀ r ∈ Extraction.records fallback catalogue names file,
            Catalogue.firstDeclaring? files r.interfaceName = some file →
              r.IsLocated file.lines := by
  refine ⟨⟨_, Declaration.readOff_memberNames file.lines⟩,
    fun i member => Body.exists_signatureLine?_le, fun fallback c names r =>
    Extraction.isLocated_of_mem_records, fun fallback names files => ?_⟩
  refine ⟨_, _, rfl, rfl, fun r hr hfirst => ?_⟩
  exact Extraction.isLocated_of_mem_records hr (Extraction.get?_ofFiles_of_mem_records hr hfirst)

/-- An interface and a class in one file: `Now` is mentioned in front of its line and named twice,
one line names the empty member, and the line of `Tick` is the first that holds the name. -/
def stopwatch : SourceFile :=
  ⟨.ofString "Stopwatch.cs",
    ["namespace Time;", "// Now, in ticks", "interface IStopwatch", "  long Now ();", "(",
      "  void\u00a0Tick\t(int n);", "class Stopwatch : IStopwatch", "  public long Now() => now;"]⟩

/-- A class that declares its interface in its own file: one record starts at its member's
declaration. -/
theorem harvestFiles_located_stopwatch :
    (NamedAt stopwatch.lines 7 "Now" ∧ ∃ s, Body.signatureLine? stopwatch.lines "Now" = some s ∧
      s ≤ 7) ∧ Catalogue.firstDeclaring? [stopwatch] "IStopwatch" = some stopwatch ∧
      ∃ catalogue records, (harvestFiles false ["IStopwatch"] [stopwatch]).outcome =
        .ok (catalogue, records) ∧
        records.map (fun r => (r.memberName, r.location.startLine)) =
          [("Now", 2), ("", 1), ("Tick", 6), ("Now", 2)] ∧
        ∀ r ∈ Extraction.records false catalogue ["IStopwatch"] stopwatch,
          r.interfaceName = "IStopwatch" → r.IsLocated stopwatch.lines := by
  have hnamed : NamedAt stopwatch.lines 7 "Now" :=
    ⟨_, rfl, Declaration.namesMember_iff.2 ⟨by decide +kernel, by decide +kernel⟩⟩
  have hfirst : Catalogue.firstDeclaring? [stopwatch] "IStopwatch" = some stopwatch := by
    decide +kernel
  obtain ⟨-, hfound, -, hharvest⟩ := harvestFiles_located stopwatch
  obtain ⟨catalogue, records, houtcome, -, hlocated⟩ := hharvest false ["IStopwatch"] [stopwatch]
  obtain ⟨rfl, rfl⟩ := Prod.mk.inj (Except.ok.inj houtcome)
  refine ⟨⟨hnamed, hfound 7 "Now" hnamed⟩, hfirst, _, _, houtcome, ?_,
    fun r hr hname => hlocated r hr (hname ▸ hfirst)⟩
  decide +kernel

end Harvest
end MemberHarvest
