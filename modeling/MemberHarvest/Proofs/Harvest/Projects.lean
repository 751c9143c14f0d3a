import MemberHarvest.Harvest.Projects
import MemberHarvest.Proofs.Source.Pool
import MemberHarvest.Proofs.Source.Reading

/-!
# Proofs/Harvest/Projects — the harvest of projects is the harvest of each of them

The files of a project are read by workers, which answer as one of them would (`harvestsTo_iff`).
Where every source file of every project is readable, the records are those of each project's own
files, project by project; otherwise the first path that is not readable ends the harvest
(`harvestsTo_perProject`).
-/

namespace MemberHarvest.Harvest

variable {w : Workspace} {encoding : String} {workers : ℕ} {fallback : Bool} {names : List String}
  {ps : List Project}

/-- What a harvest of projects may come to, where workers read the files of each: the records of its
own files before those of the projects behind it, or the failure to read them. -/
inductive HarvestsTo (w : Workspace) (encoding : String) (workers : ℕ) (fallback : Bool)
    (names : List String) :
    List Project → Except Failure (List Record) → Prop
  | done : HarvestsTo w encoding workers fallback names [] (.ok [])
  | unread {p : Project} {ps : List Project} {e : Failure}
      (reads : Pool.Answers (Source.read w encoding) p.sourcePaths workers (.error e)) :
    HarvestsTo w encoding workers fallback names (p :: ps) (.error e)
  | next {p : Project} {ps : List Project} {fs : List SourceFile} {r : Except Failure (List Record)}
      (reads : Pool.Answers (Source.read w encoding) p.sourcePaths workers (.ok fs))
      (rest : HarvestsTo w encoding workers fallback names ps r) :
    HarvestsTo w encoding workers fallback names (p :: ps)
      ((fileRecords fallback names fs ++ ·) <$> r)

/-! ## The outcome of a harvest -/

/-- The records of a project are those of its source files, if all can be read. -/
theorem outcome_harvestProject (w : Workspace) (encoding : String) (fallback : Bool)
    (names : List String) (p : Project) :
    (harvestProject w encoding fallback names p).outcome =
      fileRecords fallback names <$> files w encoding p := by
  simp only [harvestProject, Journaled.outcome_bind, Journaled.outcome_liftM]
  cases files w encoding p <;> rfl

/-- **A harvest comes to the records of each project's files, one project after another.** Each
project has a catalogue of its own, so a name that one of them declares is not known in the
others. -/
theorem outcome_harvestProjects (w : Workspace) (encoding : String) (fallback : Bool)
    (names : List String) (ps : List Project) :
    (harvestProjects w encoding fallback names ps).outcome =
      List.flatMap (fileRecords fallback names) <$> ps.mapM (files w encoding) := by
  simp only [harvestProjects, Journaled.outcome_bind, Journaled.outcome_mapM,
    outcome_harvestProject, Outcome.mapM_map_comp]
  cases ps.mapM (files w encoding) <;> rfl

/-- The first project's records come first, and its failure ends the harvest. -/
theorem outcome_harvestProjects_cons (w : Workspace) (encoding : String) (fallback : Bool)
    (names : List String) (p : Project) (ps : List Project) :
    (harvestProjects w encoding fallback names (p :: ps)).outcome =
      files w encoding p >>= fun fs =>
        (fileRecords fallback names fs ++ ·) <$>
          (harvestProjects w encoding fallback names ps).outcome := by
  simp only [outcome_harvestProjects, List.mapM_cons, List.flatMap_cons, map_eq_pure_bind,
    bind_assoc, pure_bind]

/-- **Workers harvest what one of them would.** This is where the pool is used: its answer is the
one of tasks that are done in turn. -/
theorem harvestsTo_iff {r : Except Failure (List Record)} :
    HarvestsTo w encoding workers fallback names ps r ↔
      r = (harvestProjects w encoding fallback names ps).outcome := by
  induction ps generalizing r with
  | nil =>
    constructor
    · rintro ⟨⟩
      rfl
    · rintro rfl
      exact .done
  | cons p ps ih =>
    have reads_iff {x : Except Failure (List SourceFile)} :
        Pool.Answers (Source.read w encoding) p.sourcePaths workers x ↔ x = files w encoding p :=
      Pool.answers_iff
    rw [outcome_harvestProjects_cons]
    constructor
    · rintro (_ | reads | ⟨reads, rest⟩)
      · rw [← reads_iff.1 reads]
        rfl
      · rw [← reads_iff.1 reads, ih.1 rest]
        rfl
    · rintro rfl
      cases hp : files w encoding p with
      | error e => exact .unread (reads_iff.2 hp.symm)
      | ok fs => exact .next (reads_iff.2 hp.symm) (ih.2 rfl)

/-! ## Projects whose files are readable -/

/-- **The source files of a project are the files that its entries name.** Entries with another
extension, and those without a path, are passed over. -/
theorem mem_sourcePaths_iff {p : Project} {path : Path} :
    path ∈ p.sourcePaths ↔
      ∃ e ∈ p.entries, e.isRegular = true ∧ e.filePath ≠ "" ∧ .ofString e.filePath = path := by
  simp [Project.sourcePaths, and_assoc]

/-- Whether all source files of the projects are readable. -/
def AllReadable (w : Workspace) (ps : List Project) : Prop :=
  ∀ p ∈ ps, ∀ e ∈ p.entries, e.isRegular = true → e.filePath ≠ "" →
    Source.Readable w (.ofString e.filePath)

/-- All files are readable, whichever project they belong to. -/
theorem allReadable_iff :
    AllReadable w ps ↔ ∀ path ∈ ps.flatMap Project.sourcePaths, Source.Readable w path := by
  simp only [AllReadable, List.mem_flatMap, mem_sourcePaths_iff]
  constructor
  · rintro h path ⟨p, hp, e, he, hregular, hnonempty, rfl⟩
    exact h p hp e he hregular hnonempty
  · exact fun h p hp e he hregular hnonempty => h _ ⟨p, hp, e, he, hregular, hnonempty, rfl⟩

/-- Reading project by project is reading all paths, and only the grouping of the files differs. -/
theorem mapM_files (w : Workspace) (encoding : String) (ps : List Project) :
    List.flatten <$> ps.mapM (files w encoding) =
      (ps.flatMap Project.sourcePaths).mapM (Source.read w encoding) :=
  (Outcome.mapM_flatMap _ _ _).symm

/-- The files that readable projects hold, project by project. -/
theorem exists_files_of_allReadable (h : AllReadable w ps) :
    ∃ fss, List.Forall₂ (fun p fs => List.Forall₂ (Source.Holds w) p.sourcePaths fs) ps fss ∧
      ps.mapM (files w Settings.defaultEncoding) = .ok fss := by
  have hall : ∀ p ∈ ps, ∃ fs, files w Settings.defaultEncoding p = .ok fs := by
    intro p hp
    refine Outcome.exists_mapM_eq_ok_iff.2 fun path hpath => Source.readable_iff.1 ?_
    exact allReadable_iff.1 h path (List.mem_flatMap.2 ⟨p, hp, hpath⟩)
  obtain ⟨fss, hfss⟩ := Outcome.exists_mapM_eq_ok_iff.2 hall
  refine ⟨fss, (Outcome.mapM_eq_ok_iff.1 hfss).imp fun p fs hfs => ?_, hfss⟩
  exact (Outcome.mapM_eq_ok_iff.1 hfs).imp fun _ _ => Source.read_eq_ok_iff.1

/-- The first path that is not readable is the one that the failure names. -/
theorem exists_unreadable (h : ¬ AllReadable w ps)
    (hnul : ∀ path ∈ ps.flatMap Project.sourcePaths, path.holdsNul = false) :
    ∃ front path rest cause, ps.flatMap Project.sourcePaths = front ++ path :: rest ∧
      (∀ q ∈ front, Source.Readable w q) ∧ ¬ Source.Readable w path ∧
      ps.mapM (files w Settings.defaultEncoding) = .error (.read path cause) := by
  cases hfiles : ps.mapM (files w Settings.defaultEncoding) with
  | ok fss =>
    have hok : (ps.flatMap Project.sourcePaths).mapM (Source.read w Settings.defaultEncoding) =
        .ok fss.flatten := by
      rw [← mapM_files, hfiles]
      rfl
    have hread := Outcome.exists_mapM_eq_ok_iff.1 ⟨_, hok⟩
    exact absurd (allReadable_iff.2 fun path hpath => Source.readable_iff.2 (hread path hpath)) h
  | error e =>
    have herror : (ps.flatMap Project.sourcePaths).mapM (Source.read w Settings.defaultEncoding) =
        .error e := by
      rw [← mapM_files, hfiles]
      rfl
    obtain ⟨front, path, rest, hpaths, hfront, hpath⟩ := Outcome.mapM_eq_error_iff.1 herror
    have hunread : ¬ Source.Readable w path := by
      rw [Source.readable_iff]
      rintro ⟨file, hfile⟩
      exact nomatch hpath.symm.trans hfile
    obtain ⟨cause, hcause⟩ := Source.read_of_not_readable (hnul path (by simp [hpaths])) hunread
    obtain rfl : e = .read path cause := Except.error.inj (hpath.symm.trans hcause)
    exact ⟨front, path, rest, cause, hpaths, fun q hq => Source.readable_iff.2 (hfront q hq),
      hunread, rfl⟩

/-- **Projects are harvested each for itself,** whatever the number of workers: where all their
source files are readable, the records are those of each project's own files, project by project;
and otherwise the harvest fails with the first path that is not readable. -/
theorem harvestsTo_perProject (w : Workspace) (fallback : Bool) (names : List String)
    (ps : List Project) (hnul : ∀ p ∈ ps, ∀ e ∈ p.entries, '\x00' ∉ e.filePath.toList) :
    (AllReadable w ps →
        ∃ fss, List.Forall₂ (fun p fs => List.Forall₂ (Source.Holds w) p.sourcePaths fs) ps fss ∧
          (harvestProjects w Settings.defaultEncoding fallback names ps).outcome =
            .ok (fss.flatMap (fileRecords fallback names)) ∧
          ∀ workers r, HarvestsTo w Settings.defaultEncoding workers fallback names ps r ↔
            r = .ok (fss.flatMap (fileRecords fallback names))) ∧
      (¬ AllReadable w ps →
        ∃ front path rest cause, ps.flatMap Project.sourcePaths = front ++ path :: rest ∧
          (∀ q ∈ front, Source.Readable w q) ∧ ¬ Source.Readable w path ∧
          (harvestProjects w Settings.defaultEncoding fallback names ps).outcome =
            .error (.read path cause) ∧
          ∀ workers r, HarvestsTo w Settings.defaultEncoding workers fallback names ps r ↔
            r = .error (.read path cause)) := by
  refine ⟨fun h => ?_, fun h => ?_⟩
  · obtain ⟨fss, hfss, hfiles⟩ := exists_files_of_allReadable h
    have houtcome : (harvestProjects w Settings.defaultEncoding fallback names ps).outcome =
        .ok (fss.flatMap (fileRecords fallback names)) := by
      rw [outcome_harvestProjects, hfiles]
      rfl
    exact ⟨fss, hfss, houtcome, fun workers r => houtcome ▸ harvestsTo_iff⟩
  · have hpaths : ∀ path ∈ ps.flatMap Project.sourcePaths, path.holdsNul = false := by
      intro path hpath
      obtain ⟨p, hp, hpath⟩ := List.mem_flatMap.1 hpath
      obtain ⟨e, he, -, -, rfl⟩ := mem_sourcePaths_iff.1 hpath
      exact Path.holdsNul_ofString (hnul p hp e he)
    obtain ⟨front, path, rest, cause, hsplit, hfront, hunread, hfiles⟩ := exists_unreadable h hpaths
    have houtcome : (harvestProjects w Settings.defaultEncoding fallback names ps).outcome =
        .error (.read path cause) := by
      rw [outcome_harvestProjects, hfiles]
      rfl
    exact ⟨front, path, rest, cause, hsplit, hfront, hunread, houtcome,
      fun workers r => houtcome ▸ harvestsTo_iff⟩

/-! ## Two projects with unreadable files -/

/-- A workspace with a text, `IFoo.cs`, and with bytes that are none, `Bad.cs`. -/
def textAndBytes : Workspace where
  tree := (FileTree.empty.put ["IFoo.cs"] (.file (Text.Utf8.encode "interface IFoo".toList))).put
    ["Bad.cs"] (.file [0xFF])
  current := []

/-- A project with a file that is missing, and a project with a file that does not decode. -/
def unreadableProjects : List Project :=
  [⟨"A", .ofString "A.csproj",
    [⟨"IFoo.cs", true⟩, ⟨"", true⟩, ⟨"Tool.csx", false⟩, ⟨"Gone.cs", true⟩]⟩,
    ⟨"B", .ofString "B.csproj", [⟨"Bad.cs", true⟩]⟩]

/-- With any number of workers, the first file that is missing ends the harvest. -/
theorem harvestsTo_perProject_unreadableProjects :
    (∀ p ∈ unreadableProjects, ∀ e ∈ p.entries, '\x00' ∉ e.filePath.toList) ∧
      ¬ AllReadable textAndBytes unreadableProjects ∧
      ∀ workers r,
        HarvestsTo textAndBytes Settings.defaultEncoding workers false ["IFoo"]
          unreadableProjects r ↔
          r = .error (.read (.ofString "Gone.cs") (.refused ⟨.missing, "Gone.cs", none⟩)) := by
  have hnul : ∀ p ∈ unreadableProjects, ∀ e ∈ p.entries, '\x00' ∉ e.filePath.toList := by decide
  have hgone : ¬ AllReadable textAndBytes unreadableProjects := by
    intro h
    obtain ⟨file, bytes, text, hbytes, -⟩ :=
      h _ List.mem_cons_self ⟨"Gone.cs", true⟩ (by decide) rfl (by decide)
    exact nomatch hbytes
  obtain ⟨front, path, rest, cause, -, -, -, houtcome, hall⟩ :=
    (harvestsTo_perProject textAndBytes false ["IFoo"] unreadableProjects hnul).2 hgone
  have hfirst :
      (harvestProjects textAndBytes Settings.defaultEncoding false ["IFoo"]
      unreadableProjects).outcome =
      .error (.read (.ofString "Gone.cs") (.refused ⟨.missing, "Gone.cs", none⟩)) := by
    decide +kernel
  rw [hfirst] at houtcome
  obtain ⟨rfl, rfl⟩ := Failure.read.inj (Except.error.inj houtcome)
  exact ⟨hnul, hgone, hall⟩

end MemberHarvest.Harvest
