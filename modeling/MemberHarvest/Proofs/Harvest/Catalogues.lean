import MemberHarvest.Proofs.Harvest.Projects
import MemberHarvest.Proofs.NamedValues

/-!
# Proofs/Harvest/Catalogues — the catalogues that a listing keeps

A listing puts the catalogues of projects under their names, one after another. So every name comes
up once, and under it stands the catalogue of the last project that has it (`lookup_insertAll_map`).
The listing agrees with the harvest on every project just where projects of one name have one
catalogue (`catalogues_agree`); `catalogue_lost` is a listing of two projects in which a catalogue
is lost.
-/

namespace MemberHarvest.Harvest

variable {w : Workspace} {encoding : String} {names : List String} {ps : List Project}

/-! ## Listings and harvests -/

/-- **A listing puts the catalogue of each project under its name.** It fails with the first project
whose files cannot be read, as a harvest does. -/
theorem outcome_catalogues (w : Workspace) (encoding : String) (names : List String)
    (ps : List Project) :
    (catalogues w encoding names ps).outcome =
      insertAll <$> ps.mapM fun p => (fun fs => (p.name, Catalogue.ofFiles fs names)) <$>
        files w encoding p := by
  have hproject (p : Project) : (catalogueProject w encoding names p).outcome =
      (fun fs => (p.name, Catalogue.ofFiles fs names)) <$> files w encoding p := by
    simp only [catalogueProject, Journaled.outcome_bind, Journaled.outcome_liftM]
    cases files w encoding p <;> rfl
  simp only [catalogues, Journaled.outcome_bind, Journaled.outcome_mapM, hproject]
  cases ps.mapM fun p => (fun fs => (p.name, Catalogue.ofFiles fs names)) <$>
    files w encoding p <;> rfl

/-- The catalogues are missing just where some source file cannot be read. -/
theorem outcome_catalogues_eq_error_iff {e : Failure} :
    (catalogues w encoding names ps).outcome = .error e ↔
      ps.mapM (files w encoding) = .error e := by
  rw [outcome_catalogues, Outcome.map_eq_error_iff, Outcome.mapM_eq_error_iff,
    Outcome.mapM_eq_error_iff]
  simp only [Outcome.exists_map_eq_ok_iff, Outcome.map_eq_error_iff]

/-- **Under a name that several projects have, only the last catalogue is kept.** The name keeps the
place of its first project. -/
theorem outcome_catalogues_of_files {filesOf : Project → List SourceFile}
    (h : ∀ p ∈ ps, files w encoding p = .ok (filesOf p)) :
    (catalogues w encoding names ps).outcome =
      .ok (insertAll (ps.map fun p => (p.name, Catalogue.ofFiles (filesOf p) names))) := by
  have hentries : ∀ p ∈ ps, (fun fs => (p.name, Catalogue.ofFiles fs names)) <$>
      files w encoding p = .ok (p.name, Catalogue.ofFiles (filesOf p) names) := by
    intro p hp
    rw [h p hp]
    rfl
  rw [outcome_catalogues, Outcome.mapM_eq_ok_map hentries]
  rfl

/-- Whether a listing holds the catalogue of every project under its name. -/
def ListsAll (w : Workspace) (encoding : String) (names : List String) (ps : List Project)
    (es : List (String × Catalogue)) : Prop :=
  ∀ p ∈ ps, ∃ fs, files w encoding p = .ok fs ∧ es.lookup p.name = some (Catalogue.ofFiles fs names)

/-- Only where projects of one name have one catalogue, a listing holds them all. -/
theorem listsAll_iff {filesOf : Project → List SourceFile}
    (h : ∀ p ∈ ps, files w encoding p = .ok (filesOf p)) :
    ListsAll w encoding names ps
      (insertAll (ps.map fun p => (p.name, Catalogue.ofFiles (filesOf p) names))) ↔
      ∀ p ∈ ps, ∀ q ∈ ps, p.name = q.name →
        Catalogue.ofFiles (filesOf p) names = Catalogue.ofFiles (filesOf q) names := by
  rw [← forall_lookup_insertAll_iff Project.name fun p => Catalogue.ofFiles (filesOf p) names]
  refine forall₂_congr fun p hp => ?_
  simp only [h p hp, Except.ok.injEq, exists_eq_left']

/-- **A listing agrees with the harvest but for repeated names.** It fails as the harvest does.
Otherwise each name stands in it once, with the catalogue in which the harvest looked up the members
of the last project of that name; and so no catalogue is lost just where projects of one name have
one catalogue. -/
theorem catalogues_agree (w : Workspace) (encoding : String) (fallback : Bool) (names : List String)
    (ps : List Project) :
    (∃ e, (catalogues w encoding names ps).outcome = .error e ∧
        (harvestProjects w encoding fallback names ps).outcome = .error e) ∨
      ∃ (filesOf : Project → List SourceFile) (catalogueOf : Project → Catalogue)
        (es : List (String × Catalogue)),
        (∀ p ∈ ps, files w encoding p = .ok (filesOf p) ∧
        catalogueOf p = Catalogue.ofFiles (filesOf p) names) ∧
        (harvestProjects w encoding fallback names ps).outcome =
          .ok (ps.flatMap fun p =>
            (filesOf p).flatMap (Extraction.records fallback (catalogueOf p) names)) ∧
        (catalogues w encoding names ps).outcome = .ok es ∧
        es.map Prod.fst = (ps.map Project.name).eraseDups ∧
        (∀ name, es.lookup name = (ps.reverse.find? fun p => p.name == name).map catalogueOf) ∧
        (ListsAll w encoding names ps es ↔
          ∀ p ∈ ps, ∀ q ∈ ps, p.name = q.name → catalogueOf p = catalogueOf q) := by
  cases hfiles : ps.mapM (files w encoding) with
  | error e =>
    refine .inl ⟨e, outcome_catalogues_eq_error_iff.2 hfiles, ?_⟩
    rw [outcome_harvestProjects, hfiles]
    rfl
  | ok fss =>
    obtain ⟨filesOf, hfilesOf⟩ :=
      Outcome.exists_forall_eq_ok (Outcome.exists_mapM_eq_ok_iff.1 ⟨fss, hfiles⟩)
    refine .inr ⟨filesOf, fun p => Catalogue.ofFiles (filesOf p) names, _,
      fun p hp => ⟨hfilesOf p hp, rfl⟩, ?_, outcome_catalogues_of_files hfilesOf, ?_,
      lookup_insertAll_map _ _ ps, listsAll_iff hfilesOf⟩
    · rw [outcome_harvestProjects, Outcome.mapM_eq_ok_map hfilesOf]
      exact congrArg Except.ok (List.flatMap_map _ _ _)
    · rw [keys_insertAll, List.map_map]
      rfl

/-! ## Two projects of one name -/

/-- A workspace in which `IFoo` is declared twice, with a member each. -/
def twoDeclarations : Workspace where
  tree := (FileTree.empty.put ["A.cs"]
    (.file (Text.Utf8.encode "public interface IFoo \x7b void Run(); \x7d".toList))).put ["B.cs"]
      (.file (Text.Utf8.encode "public interface IFoo \x7b void Stop(); \x7d".toList))
  current := []

/-- A project with the first of them. -/
def runLib : Project := ⟨"Lib", .ofString "a/Lib.csproj", [⟨"A.cs", true⟩]⟩

/-- A project of the same name with the second. -/
def stopLib : Project := ⟨"Lib", .ofString "b/Lib.csproj", [⟨"B.cs", true⟩]⟩

/-- The listing loses the catalogue of the first project, which the harvest looks its members up
in. -/
theorem catalogue_lost :
    ∃ es, (catalogues twoDeclarations Settings.defaultEncoding ["IFoo"] [runLib, stopLib]).outcome =
      .ok es ∧
      ¬ ListsAll twoDeclarations Settings.defaultEncoding ["IFoo"] [runLib, stopLib] es := by
  have hok : ([runLib, stopLib].mapM (files twoDeclarations Settings.defaultEncoding)).isOk =
      true := by
    decide +kernel
  have hdiffer : (fun fs => (Catalogue.ofFiles fs ["IFoo"]).declarations) <$>
        files twoDeclarations Settings.defaultEncoding runLib ≠
      (fun fs => (Catalogue.ofFiles fs ["IFoo"]).declarations) <$>
        files twoDeclarations Settings.defaultEncoding stopLib := by
    decide +kernel
  cases hfiles : [runLib, stopLib].mapM (files twoDeclarations Settings.defaultEncoding) with
  | error e => exact nomatch hfiles ▸ hok
  | ok fss =>
    obtain ⟨filesOf, hfilesOf⟩ :=
      Outcome.exists_forall_eq_ok (Outcome.exists_mapM_eq_ok_iff.1 ⟨fss, hfiles⟩)
    refine ⟨_, outcome_catalogues_of_files hfilesOf, fun hall => hdiffer ?_⟩
    have hsame := (listsAll_iff hfilesOf).1 hall runLib (by simp) stopLib (by simp) rfl
    rw [hfilesOf runLib (by simp), hfilesOf stopLib (by simp)]
    exact congrArg (fun c => Except.ok c.declarations) hsame

end MemberHarvest.Harvest
