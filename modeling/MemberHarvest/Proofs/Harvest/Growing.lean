import MemberHarvest.Proofs.Harvest.Requests

/-!
# Proofs/Harvest/Growing — what further files add to a harvest

Files that are added behind the others take nothing away. The catalogue keeps its declarations where
they are (`declarations_ofFiles_append`), since the first declaration of a name stays. The records
of the first files stay in their order, with others between them: a further file may declare a name
that none of the first files declares, and then all files give records for it
(`harvestFiles_append`).
-/

namespace MemberHarvest

/-! ## The catalogue -/

namespace Catalogue

/-- What is registered stands behind the declarations that are there. -/
theorem declarations_register (c : Catalogue) (d : Declaration) :
    c.declarations <+: (c.register d).declarations := by
  by_cases h : c.contains d.interfaceName = true
  · simp only [register_of_contains h, List.prefix_rfl]
  · rw [declarations_register_of_not_contains h]
    exact List.prefix_append _ _

/-- Declarations that are registered later come behind those that are there. -/
theorem declarations_registerAll (c : Catalogue) (ss : List Sighting) :
    c.declarations <+: (c.registerAll ss).1.declarations := by
  induction ss generalizing c with
  | nil => exact List.prefix_rfl
  | cons s ss ih => exact (declarations_register c s.declaration).trans (ih _)

/-- **Further files only add declarations at the end.** The first file that declares a name stays
the first one when files are added behind it. -/
theorem declarations_ofFiles_append (files extra : List SourceFile) (names : List String) :
    (ofFiles files names).declarations <+: (ofFiles (files ++ extra) names).declarations := by
  rw [ofFiles, ofFiles, sightings_append, registerAll_append]
  exact declarations_registerAll _ _

/-- The declaration of a name stays where declarations are added at the end. -/
theorem get?_of_prefix {c c' : Catalogue} (h : c.declarations <+: c'.declarations)
    {name : String} {d : Declaration} (hd : c.get? name = some d) : c'.get? name = some d := by
  obtain ⟨hmem, hname⟩ := get?_eq_some_iff.1 hd
  exact get?_eq_some_iff.2 ⟨h.subset hmem, hname⟩

/-- The first file that declares a name, before the further files. -/
theorem firstDeclaring?_append (files extra : List SourceFile) (name : String) :
    firstDeclaring? (files ++ extra) name =
      (firstDeclaring? files name).or (firstDeclaring? extra name) :=
  List.find?_append

end Catalogue

/-! ## The records -/

namespace Harvest

variable {fallback : Bool} {files extra : List SourceFile} {file : SourceFile}
  {names : List String} {name : String}

/-- Whether some file declares a name. -/
def isDeclared (files : List SourceFile) (name : String) : Bool :=
  files.any fun f => Declaration.declares f.lines name

/-- **Further files do not change the members of a name that is declared.** A name that is not
declared yet may be by a further file, and then it has members from there. -/
theorem declaredMembers?_append_of_isDeclared (h : isDeclared files name = true)
    (extra : List SourceFile) :
    declaredMembers? (files ++ extra) name = declaredMembers? files name := by
  obtain ⟨f, hf⟩ : ∃ f, Catalogue.firstDeclaring? files name = some f := by
    rw [← Option.isSome_iff_exists, Catalogue.firstDeclaring?, List.find?_isSome]
    exact List.any_eq_true.1 h
  rw [declaredMembers?, declaredMembers?, Catalogue.firstDeclaring?_append, hf, Option.some_or]

/-- A name that no file declares has no members. -/
theorem declaredMembers?_of_not_isDeclared (h : isDeclared files name = false) :
    declaredMembers? files name = none := by
  rw [declaredMembers?, Option.map_eq_none_iff, Catalogue.firstDeclaring?, List.find?_eq_none]
  exact List.any_eq_false.1 h

/-- The blocks of the files themselves are those among the blocks of more files whose names they
declare. -/
theorem block_eq_ite (extra : List SourceFile) :
    block fallback files file name =
      if isDeclared files name then block fallback (files ++ extra) file name else [] := by
  split
  · rename_i h
    rw [block, block, declaredMembers?_append_of_isDeclared h]
  · rename_i h
    rw [block, declaredMembers?_of_not_isDeclared (by simpa using h)]
    split <;> simp

/-- Of the records that further files allow, those of the names declared before are the ones that
there were. -/
theorem flatMap_block_append (names : List String) (extra : List SourceFile) :
    names.flatMap (block fallback files file) =
      (names.flatMap (block fallback (files ++ extra) file)).filter fun r =>
        isDeclared files r.interfaceName := by
  rw [List.filter_flatMap]
  refine congrArg names.flatMap (funext fun name => ?_)
  rw [filter_block, block_eq_ite extra]

/-- **Of the records that the files give together with further ones, their own are those for names
that they declare.** So records are added, but none that was there is changed or moved. -/
theorem fileRecords_eq_filter (extra : List SourceFile) :
    fileRecords fallback names files =
      (files.flatMap
        (Extraction.records fallback (Catalogue.ofFiles (files ++ extra) names) names)).filter
        fun r => isDeclared files r.interfaceName := by
  rw [fileRecords_eq_flatMap_block,
    funext (records_eq_flatMap_block fallback (files ++ extra) names), List.filter_flatMap]
  exact congrArg files.flatMap (funext fun file => flatMap_block_append names extra)

/-- **Adding files at the end never takes anything away.** The declarations of the catalogue stay,
and the records stay in their order. Records are added for names that none of the first files
declares, and behind all of them those of the further files. -/
theorem harvestFiles_append (fallback : Bool) (names : List String)
    (files extra : List SourceFile) :
    ∃ catalogue records catalogue' before behind,
      (harvestFiles fallback names files).outcome = .ok (catalogue, records) ∧
        (harvestFiles fallback names (files ++ extra)).outcome =
          .ok (catalogue', before ++ behind) ∧
        catalogue.declarations <+: catalogue'.declarations ∧
        (∀ name d, catalogue.get? name = some d → catalogue'.get? name = some d) ∧
        records.Sublist (before ++ behind) ∧
        before = files.flatMap (Extraction.records fallback catalogue' names) ∧
        behind = extra.flatMap (Extraction.records fallback catalogue' names) ∧
        records = before.filter (fun r => isDeclared files r.interfaceName) := by
  have hprefix := Catalogue.declarations_ofFiles_append files extra names
  have hrecords : fileRecords fallback names files = _ := fileRecords_eq_filter extra
  have happend : (harvestFiles fallback names (files ++ extra)).outcome =
      .ok (Catalogue.ofFiles (files ++ extra) names, _ ++ _) :=
    congrArg (fun rs => Except.ok (Catalogue.ofFiles (files ++ extra) names, rs))
      List.flatMap_append
  refine ⟨_, _, _, _, _, rfl, happend, hprefix, fun name d => Catalogue.get?_of_prefix hprefix, ?_,
    rfl, rfl, hrecords⟩
  rw [hrecords]
  exact List.filter_sublist.trans (List.sublist_append_left _ _)

end Harvest
end MemberHarvest
