import MemberHarvest.Proofs.Harvest.Running
import MemberHarvest.Proofs.Path.Joined
import MemberHarvest.Proofs.Project.Roundabout
import MemberHarvest.Proofs.Workspace.Resaving

/-!
# Proofs/Harvest/Repeating — a harvest that is repeated changes nothing

Once a harvest has written its document, the same harvest collects the same records and writes the
same document again (`run_again`), even where the document lies in the solution. It does so because
the document is foreign to the solution: no search takes it for a source or a project file. What a
search can do is come upon it by a path that is too long to be looked at, and then the second
harvest fails and leaves everything as it is.
-/

namespace MemberHarvest.Harvest

open Outcome
open Project (IsForeign IsKnown TargetObscures)
open MemberHarvest.Path (Place)

variable {w u : Workspace} {d : Place} {s : Settings} {records : List Record}

/-! ## Collecting again -/

/-- A source file is read again as before. -/
theorem read_repeats (h : w.Replaced u d) (hd : IsForeign d) (encoding : String) {path : Path}
    (hpath : IsKnown path) :
    RepeatsUnless (fun _ => False) (Source.read w encoding path) (Source.read u encoding path) := by
  rw [Source.read, Source.read, h.host]
  split
  · exact .refl _
  · exact (Project.readBytes_repeats h hd hpath).mapError.bind fun _ _ => .refl _

/-- **The same records are collected again,** unless an item of a project file reaches the new file
by a path that is too long. -/
theorem collect_repeats (h : w.Replaced u d) (hd : IsForeign d) (hshort : ¬ (Path.ofPlace d).IsLong)
    (s : Settings) :
    RepeatsUnless (fun e => ∃ target, u.expandHome (.ofString s.solution) = .ok target ∧
      TargetObscures u d target e) (collect w s).outcome (collect u s).outcome := by
  rw [outcome_collect, outcome_collect]
  refine (Project.loadAll_repeats h hd hshort s.solution).bind fun ps hps => ?_
  rw [outcome_harvestProjects, outcome_harvestProjects]
  refine .map (.mapM fun p hp => .mapM fun path hpath => ?_)
  exact (read_repeats h hd s.encoding (Project.isKnown_of_mem_sourcePaths hps hp hpath)).mono
    fun _ => False.elim

/-! ## Running again -/

/-- A document that is written has been saved. -/
theorem save_of_write {wrap : Bool} {destination : Path}
    (h : write w wrap records destination = (u, .ok ())) :
    ∃ text, Record.document wrap records = .ok text ∧
      w.save destination (Text.Utf8.encode text.toList) = (u, .ok ()) := by
  cases hdoc : Record.document wrap records with
  | error e =>
    rw [write_of_document_error hdoc] at h
    exact nomatch (Prod.mk.inj h).2
  | ok text =>
    rw [write_of_document hdoc] at h
    obtain ⟨hsaved, houtcome⟩ := Prod.mk.inj h
    exact ⟨text, rfl, Prod.ext hsaved (mapError_eq_ok_iff.1 houtcome)⟩

/-- Where the destination is saved, the same records are collected again. -/
theorem collect_of_saved {destination : Path} {bytes : Text.Bytes}
    (hforeign : ∀ ext ∈ Project.fileEndings, ¬ Path.EndsIn ext destination.name.toList)
    (hplace : destination.placeOf w.current = destination.parent.placeOf w.current ++
      [destination.name])
    (hreceives : w.Receives destination)
    (hu : u = { w with tree := w.tree.put (destination.placeOf w.current) (.file bytes) })
    (s : Settings) :
    RepeatsUnless (fun e => ∃ target, u.expandHome (.ofString s.solution) = .ok target ∧
        TargetObscures u (destination.placeOf w.current) target e)
      (collect w s).outcome (collect u s).outcome := by
  cases hadmits : w.tree.admitsAt (destination.placeOf w.current) with
  | false =>
    have hsame : u = w := by rw [hu, FileTree.put_of_not_admitsAt hadmits]
    rw [hsame]
    exact .refl _
  | true =>
    have hreplaced : w.Replaced u (destination.placeOf w.current) :=
      hu ▸ Workspace.replaced_put hadmits bytes
    have hname : (Path.ofPlace (destination.placeOf w.current)).name = destination.name := by
      rw [hplace]
      simp [Path.ofPlace, Path.name]
    refine collect_repeats hreplaced (fun ext hext => ?_) (hreceives.not_isLong hplace) s
    rw [hname]
    exact hforeign ext hext

/-- **A harvest that is repeated changes nothing,** and comes to the same records. The second one
fails only if an item of a project file comes upon the destination by a path that is too long. -/
theorem run_again {destination : Path} (hrun : (run w s).2.outcome = .ok records)
    (hdestination : w.expandHome (.ofString s.output) = .ok destination)
    (hparent : w.isDirectory destination.parent = .ok true)
    (hforeign : ∀ ext ∈ Project.fileEndings, ¬ Path.EndsIn ext destination.name.toList) :
    let u := (run w s).1
    (run u s).1 = u ∧
      ((run u s).2.outcome = .ok records ∨
        ∃ target e, u.expandHome (.ofString s.solution) = .ok target ∧
          TargetObscures u (destination.placeOf w.current) target e ∧
            (run u s).2.outcome = .error e) := by
  intro u
  obtain ⟨hcollect, p, hp, hwrite⟩ := collect_and_write_of_run hrun
  obtain rfl : destination = p := Except.ok.inj (hdestination.symm.trans hp)
  obtain ⟨text, hdoc, hsave⟩ := save_of_write hwrite
  obtain ⟨hreceives, hplace, hu⟩ := Workspace.save_eq_ok hparent hsave
  have hagain : u.save destination (Text.Utf8.encode text.toList) = (u, .ok ()) :=
    Workspace.save_again hparent hsave
  have hwrite' : write u s.wrapItems records destination = (u, .ok ()) := by
    rw [write_of_document hdoc, hagain]
    rfl
  have hhost : u.host = w.host := (congrArg Workspace.host hu :)
  have hhome : u.expandHome (.ofString s.output) = .ok destination :=
    (Workspace.expandHome_congr hhost _).trans hdestination
  rcases collect_of_saved hforeign hplace hreceives hu s records hcollect with hcollect'
    | ⟨e, ⟨target, he⟩, hcollect'⟩
  · have hrun' := run_of_collect_ok hcollect'
    rw [hhome] at hrun'
    obtain ⟨hsame, houtcome⟩ := Prod.mk.inj hrun'
    rw [hwrite'] at hsame houtcome
    exact ⟨hsame, .inl houtcome⟩
  · obtain ⟨hsame, houtcome⟩ := run_of_collect_error hcollect'
    exact ⟨hsame, .inr ⟨target, e, he.1, he.2, houtcome⟩⟩

/-- A project whose file includes a source file and the document that is to be written. -/
def greedyProject : Workspace where
  tree := [(["S"], .directory),
    (["S", "A.csproj"],
      .file (Text.Utf8.encode "<Project><Compile Include='A.cs; out.json' /></Project>".toList)),
    (["S", "A.cs"], .file (Text.Utf8.encode
      "namespace N; interface IFoo \x7b void Run(); \x7d class Foo : IFoo".toList))].foldl
    (fun t e => t.put e.1 e.2) FileTree.empty
  current := []

/-- A harvest that writes its document beside the project. -/
def besideProject : Settings :=
  ⟨"S/A.csproj", "S/out.json", ["IFoo"], [], "utf-8-sig", false, false, 1, "INFO"⟩

/-- The record of the source file. -/
def runBeside : Record := ⟨"IFoo", "IFoo", "Foo", "Run", "", ⟨"/S/A.cs", 1, 0⟩⟩

/-- A document beside the project that includes it by name is written twice alike. -/
theorem run_again_besideProject :
    (run greedyProject besideProject).2.outcome = .ok [runBeside] ∧
      greedyProject.expandHome (.ofString besideProject.output) = .ok (.ofString "S/out.json") ∧
      greedyProject.isDirectory (Path.ofString "S/out.json").parent = .ok true ∧
      (∀ ext ∈ Project.fileEndings, ¬ Path.EndsIn ext (Path.ofString "S/out.json").name.toList) ∧
      (run (run greedyProject besideProject).1 besideProject).1 =
        (run greedyProject besideProject).1 ∧
      ((run (run greedyProject besideProject).1 besideProject).2.outcome = .ok [runBeside] ∨
        ∃ target e, (run greedyProject besideProject).1.expandHome
          (.ofString besideProject.solution) = .ok target ∧
          TargetObscures (run greedyProject besideProject).1
            ((Path.ofString "S/out.json").placeOf greedyProject.current) target e ∧
          (run (run greedyProject besideProject).1 besideProject).2.outcome = .error e) := by
  have hrun : (run greedyProject besideProject).2.outcome = .ok [runBeside] := by decide +kernel
  have hdestination : greedyProject.expandHome (.ofString besideProject.output) =
      .ok (.ofString "S/out.json") := by
    decide
  have hparent : greedyProject.isDirectory (Path.ofString "S/out.json").parent =
      .ok true := by decide
  have hforeign : ∀ ext ∈ Project.fileEndings,
      ¬ Path.EndsIn ext (Path.ofString "S/out.json").name.toList := by decide
  exact ⟨hrun, hdestination, hparent, hforeign, run_again hrun hdestination hparent hforeign⟩

/-! ## A roundabout project

The project file of this project includes what lies beside it, by a path that goes many times into
the directory beside it and out again. That path is just short enough for what is there at first,
and too long for the document.
-/

/-- The name of a directory, and that of a document beside it. -/
def longDirectory : String := repeated 'd' 90
def longDocument : String := repeated 'o' 240

/-- A project file with a roundabout item. -/
def roundaboutFile : Text.Bytes :=
  Text.Utf8.encode
    ("<Project><Compile Include='".toList ++ Glob.roundaboutText 41 ++ "' /></Project>".toList)

/-- A project without source files, which includes whatever lies beside its file. -/
def roundaboutProject : Workspace where
  tree := ((FileTree.empty.put ["S"] .directory).put ["S", longDirectory] .directory).put ["S",
    "A.csproj"] (.file roundaboutFile)
  current := []

/-- A harvest that writes its document beside this project. -/
def besideRoundabout : Settings :=
  ⟨"S/A.csproj", "S/" ++ longDocument, ["IFoo"], [], "utf-8-sig", false, false, 1, "INFO"⟩

/-- The path of the project file, and that of the document. -/
def roundaboutTarget : Path := ⟨.here, ["S", "A.csproj"]⟩
def roundaboutDocument : Path := ⟨.here, ["S", longDocument]⟩

/-! ### Its names and places -/

theorem size_longDirectory : Text.Utf8.size longDirectory.toList = 90 := size_repeated (by decide)

theorem size_longDocument : Text.Utf8.size longDocument.toList = 240 := size_repeated (by decide)

theorem isName_longDirectory : FileTree.isName longDirectory = true :=
  isName_repeated (by decide) (by decide) (by decide) (by decide)

theorem isName_longDocument : FileTree.isName longDocument = true :=
  isName_repeated (by decide) (by decide) (by decide) (by decide)

theorem longDirectory_ne : longDirectory ≠ "A.csproj" := repeated_ne ⟨'A', by decide, by decide⟩

theorem longDocument_ne : longDocument ≠ "A.csproj" := repeated_ne ⟨'A', by decide, by decide⟩

theorem longDocument_ne_longDirectory : longDocument ≠ longDirectory := by
  refine repeated_ne ⟨'d', ?_, by decide⟩
  rw [longDirectory, toList_repeated]
  exact List.mem_replicate.2 ⟨by decide, rfl⟩

/-- What lies where in the project. -/
theorem find?_roundaboutProject (q : Place) : roundaboutProject.tree.find? q =
    if q = ["S", "A.csproj"] then some (.file roundaboutFile) else if q = ["S", longDirectory]
      then some .directory
    else if q = ["S"] ∨ q = [] then some .directory else none := by
  have hroot : FileTree.empty.admitsAt ["S"] = true := by decide
  have hS (q : Place) := FileTree.find?_put hroot .directory q
  have hinner : (FileTree.empty.put ["S"] .directory).admitsAt ["S", longDirectory] = true := by
    refine FileTree.admitsAt_append (p := ["S"]) ?_ isName_longDirectory ?_ <;>
      simp [FileTree.isDirectory, hS]
  have hD (q : Place) := FileTree.find?_put hinner .directory q
  have hfile : ((FileTree.empty.put ["S"] .directory).put ["S", longDirectory] .directory).admitsAt
      ["S", "A.csproj"] = true := by
    refine FileTree.admitsAt_append (p := ["S"]) ?_ (by decide) ?_ <;>
      simp [FileTree.isDirectory, hD, hS, longDirectory_ne.symm]
  simp only [roundaboutProject, FileTree.find?_put hfile, hD, hS, FileTree.find?_empty]
  split
  · rfl
  split
  · rfl
  by_cases hq : q = ["S"] <;> simp [hq]

theorem find?_roundaboutTarget :
    roundaboutProject.tree.find? ["S", "A.csproj"] = some (.file roundaboutFile) := by
  rw [find?_roundaboutProject, if_pos rfl]

theorem isDirectory_roundaboutProject : roundaboutProject.tree.isDirectory ["S"] = true := by
  simp [FileTree.isDirectory, find?_roundaboutProject]

/-- Only one directory lies in the project's directory. -/
theorem isDirectory_roundaboutProject_iff (m : String) :
    roundaboutProject.tree.isDirectory (["S"] ++ [m]) = true ↔ m = longDirectory := by
  by_cases hm : m = "A.csproj" <;>
    simp [FileTree.isDirectory, find?_roundaboutProject, hm, longDirectory_ne.symm]

/-- The project file is the only file. -/
theorem isFile_roundaboutProject_iff (q : Place) :
    roundaboutProject.tree.isFile q = true ↔ q = ["S", "A.csproj"] := by
  rw [FileTree.isFile_iff, find?_roundaboutProject]
  split
  · simp_all
  split
  · simp_all
  split <;> simp_all

/-! ### Loading it -/

/-- The item of the project file is a roundabout. -/
theorem elements_roundaboutFile :
    (Xml.elements .empty roundaboutFile).map (fun es =>
      (Project.included es, es.any Project.namesKit)) = .ok ([Glob.roundaboutItem 41], false) := by
  decide +kernel

/-- The project's item goes round through its directory forty-one times. -/
theorem goesRound_roundaboutProject : Project.GoesRound roundaboutProject roundaboutTarget 41 where
  isFile := by
    have hbytes : roundaboutProject.readBytes roundaboutTarget = .ok roundaboutFile :=
      Workspace.readBytes_of_find? rfl (by decide) find?_roundaboutTarget
    exact Workspace.isFile_eq_ok_true_iff.2 ⟨roundaboutFile, hbytes⟩
  reads := by
    obtain ⟨es, hes, heq⟩ := map_eq_ok_iff.1 elements_roundaboutFile
    obtain ⟨hincluded, hkit⟩ := Prod.mk.inj heq
    have hbytes : roundaboutProject.readBytes (roundaboutProject.resolve roundaboutTarget) =
        .ok roundaboutFile :=
      Workspace.readBytes_of_find? (a := .root) rfl (by decide) find?_roundaboutTarget
    refine ⟨es, bind_eq_ok_iff.2 ⟨roundaboutFile, ?_, mapError_eq_ok_iff.2 hes⟩, hincluded, hkit⟩
    exact mapError_eq_ok_iff.2 hbytes

/-- What is too long behind the roundabout. -/
theorem isLong_behind_iff (m : String) :
    ((Workspace.rounds longDirectory 41 (.ofPlace ["S"])).child m).IsLong ↔
      238 < Text.Utf8.size m.toList := by
  have hslash : Text.Utf8.size (Path.ofPlace ["S"]).anchor.text.toList = 1 := by decide
  have hbase : Path.namesSize (Path.ofPlace ["S"]).names = 2 := by decide
  rw [Path.IsLong, FileTree.maxPath, Workspace.size_child_rounds, hslash, hbase, size_longDirectory]
  omega

/-- The project, or one with the document beside it, is loaded just where no name beside its file is
too long. -/
theorem exists_loadAll_roundaboutProject_iff (h : Project.GoesRound u roundaboutTarget 41)
    (hcurrent : u.current = []) (hdirectory : ∀ q,
    u.tree.isDirectory q = roundaboutProject.tree.isDirectory q) :
    (∃ projects, (Project.loadAll u [] "S/A.csproj").outcome = .ok projects) ↔
      ∀ m, (u.tree.find? (["S"] ++ [m])).isSome = true → Text.Utf8.size m.toList ≤ 238 := by
  have hplace : (u.resolve roundaboutTarget).parent = .ofPlace ["S"] := by
    rw [Workspace.resolve, hcurrent]
    rfl
  have hround : ¬ (Workspace.rounds longDirectory 41 (.ofPlace ["S"])).IsLong := by
    intro hlong
    have hempty := (isLong_behind_iff "").1 (Workspace.isLong_of_child hlong)
    exact absurd hempty (by decide)
  have hhome : u.expandHome (.ofString "S/A.csproj") = .ok ⟨.here, ["S", "A.csproj"]⟩ := rfl
  have hloads := Project.exists_loadAll_iff h hhome (by decide) (by decide) hplace
    ((hdirectory _).trans isDirectory_roundaboutProject)
    (fun m => by rw [hdirectory, isDirectory_roundaboutProject_iff]) hround []
  simpa only [isLong_behind_iff, Nat.not_lt] using hloads

/-! ### Writing beside it -/

/-- A text with a slash spells the path to a name below a directory. -/
theorem ofString_below {n : String} (hn : FileTree.isName n = true) :
    Path.ofString ("S/" ++ n) = ⟨.here, ["S", n]⟩ := by
  obtain ⟨hempty, hdot, -, hslash, -, -⟩ := FileTree.isName_iff.1 hn
  have htext : "S/" ++ n = String.ofList (['S'] ++ '/' :: n.toList) := String.toList_inj.1 (by simp)
  rw [htext, Path.ofString_append_slash (by simp) (by decide) ⟨hempty, hdot, hslash⟩]
  rfl

theorem expandHome_besideRoundabout :
    roundaboutProject.expandHome (.ofString besideRoundabout.output) = .ok roundaboutDocument := by
  have hdestination : Path.ofString besideRoundabout.output = roundaboutDocument :=
    ofString_below isName_longDocument
  rw [hdestination]
  rfl

theorem markFor_roundaboutDocument :
    roundaboutProject.markFor roundaboutDocument = Workspace.draftMark 0 := by
  have hmem : '0' ∈ (Workspace.draftName longDocument (Workspace.draftMark 0)).toList := by
    have hmark : '0' ∈ (Workspace.draftMark 0).toList := by decide
    simp [Workspace.draftName, String.toList_append, hmark]
  have hfile : Workspace.draftName longDocument (Workspace.draftMark 0) ≠ "A.csproj" := by
    intro h
    rw [h] at hmem
    exact absurd hmem (by decide)
  have hdir : Workspace.draftName longDocument (Workspace.draftMark 0) ≠ longDirectory :=
    (repeated_ne ⟨'0', hmem, by decide⟩).symm
  have hfree : roundaboutProject.tree.find?
      (["S"] ++ [Workspace.draftName longDocument (Workspace.draftMark 0)]) = none := by
    simp [find?_roundaboutProject, hfile, hdir]
  exact Workspace.freshMark_of_free hfree

/-- The document is not there before the first run. -/
theorem locate_roundaboutDocument :
    roundaboutProject.locate roundaboutDocument = .error .missing := by
  have hshort : ¬ roundaboutDocument.IsLong := by
    have hsize := Path.size_toString (p := roundaboutDocument) (by simp [roundaboutDocument])
    have hS : Path.namesSize ["S"] = 2 := by decide
    have hnames : Path.namesSize roundaboutDocument.names =
        Path.namesSize ["S"] + Path.namesSize [longDocument] :=
      Path.namesSize_append ["S"] [longDocument]
    have hanchor : Text.Utf8.size roundaboutDocument.anchor.text.toList = 0 := by decide
    rw [hnames, hS, Path.namesSize_singleton, size_longDocument, hanchor] at hsize
    rw [Path.IsLong, FileTree.maxPath]
    omega
  have hS : FileTree.isTooLong "S" = false := by decide
  have hname := FileTree.isName_iff.1 isName_longDocument
  have hstart : roundaboutProject.start roundaboutDocument = [] := rfl
  rw [Workspace.locate_of_not_isLong hshort, hstart, roundaboutDocument]
  simp [FileTree.walk, Path.step, FileTree.isDirectory, find?_roundaboutProject, hS,
    hname.2.2.1, hname.2.2.2.2.2, longDocument_ne, longDocument_ne_longDirectory]

theorem size_draftMark_zero : Text.Utf8.size (Workspace.draftMark 0).toList = 8 := by decide

/-- There is nothing in the way of the document. -/
theorem receives_roundaboutDocument : roundaboutProject.Receives roundaboutDocument where
  holdsNul := by
    have hname := (FileTree.isName_iff.1 isName_longDocument).2.2.2.2.1
    simp [Path.holdsNul, roundaboutDocument, hname]
  parent := by
    have hnode := FileTree.isSome_of_isDirectory isDirectory_roundaboutProject
    have hstart : roundaboutProject.StartsAt ⟨.here, ["S"]⟩ ["S"] :=
      ⟨by decide, FileTree.walk_below (p := []) hnode, isDirectory_roundaboutProject⟩
    exact hstart.isDirectory_eq_ok (by decide)
  isDirectory := by
    rw [Workspace.isDirectory, Workspace.probe, locate_roundaboutDocument]
    split <;> rfl
  draftName := by
    have hname : roundaboutDocument.name = longDocument := rfl
    rw [markFor_roundaboutDocument, FileTree.isTooLong, Workspace.size_draftName, hname,
      size_longDocument, size_draftMark_zero]
    decide
  draftPath := by
    have hname : roundaboutDocument.name = longDocument := rfl
    have hplace : roundaboutDocument.parent.placeOf roundaboutProject.current = ["S"] := rfl
    have hS : Path.namesSize ["S"] = 2 := by decide
    rw [markFor_roundaboutDocument, hplace, Workspace.size_draftPath (by decide), hS, hname,
      size_longDocument, size_draftMark_zero]
    decide

/-- The document is no file that a harvest looks for. -/
theorem not_endsIn_longDocument :
    ∀ ext ∈ Project.fileEndings, ¬ Path.EndsIn ext longDocument.toList := by
  intro ext hext hends
  have hdots : ∀ ext ∈ Project.fileEndings, '.' ∈ ext.toList := by decide
  obtain ⟨b, hb, hlower⟩ := List.mem_map.1 (hends.subset (hdots ext hext))
  rw [longDocument, toList_repeated] at hb
  obtain rfl := List.eq_of_mem_replicate hb
  exact absurd hlower (by decide)

/-! ### Harvesting it twice -/

/-- There is nothing to collect, but it is collected. -/
theorem collect_roundaboutProject :
    (collect roundaboutProject besideRoundabout).outcome = .ok [] := by
  have hsources : ∀ q, roundaboutProject.tree.isFile q = true →
      Project.isSource (.ofPlace q) = false := by
    intro q hq
    rw [(isFile_roundaboutProject_iff q).1 hq]
    decide
  have hloads : ∃ projects, (Project.loadAll roundaboutProject [] "S/A.csproj").outcome =
      .ok projects := by
    refine (exists_loadAll_roundaboutProject_iff goesRound_roundaboutProject rfl fun _ =>
      rfl).2 fun m hm => ?_
    obtain rfl | rfl : m = "A.csproj" ∨ m = longDirectory := by
      by_contra hm'
      rw [not_or] at hm'
      simp [find?_roundaboutProject, hm'.1, hm'.2] at hm
    · decide
    · rw [size_longDirectory]
      decide
  have hhome : roundaboutProject.expandHome (.ofString "S/A.csproj") = .ok roundaboutTarget := rfl
  have hcsproj := Project.outcome_loadAll_of_csproj hhome goesRound_roundaboutProject.isFile
    (by decide) (by decide) []
  obtain ⟨keep, hload⟩ := Project.outcome_load_roundabout goesRound_roundaboutProject
  rw [hcsproj, hload] at hloads
  obtain ⟨projects, hprojects⟩ := hloads
  obtain ⟨project, hproject, rfl⟩ := map_eq_ok_iff.1 hprojects
  obtain ⟨files, hfiles, rfl⟩ := map_eq_ok_iff.1 hproject
  obtain rfl := Project.globSources_eq_nil hsources hfiles
  rw [outcome_collect]
  change ((Project.loadAll roundaboutProject [] "S/A.csproj").outcome >>= _) = _
  rw [hcsproj, hload, hfiles]
  rfl

/-- The first run succeeds, with no records. -/
theorem outcome_run_roundaboutProject :
    (run roundaboutProject besideRoundabout).2.outcome = .ok [] := by
  have hrun := run_of_collect_ok collect_roundaboutProject
  have hfits : ∀ r ∈ ([] : List Record), r.location.FitsWords := by simp
  have hwrite := write_of_receives hfits receives_roundaboutDocument besideRoundabout.wrapItems
  rw [expandHome_besideRoundabout] at hrun
  rw [(Prod.mk.inj hrun).2, hwrite]
  rfl

/-- Once there is a document beside its file, the project is not loaded. -/
theorem loadAll_ne_ok_of_document (h : roundaboutProject.Replaced u ["S", longDocument])
    {projects : List Project} :
    (Project.loadAll u [] "S/A.csproj").outcome ≠ .ok projects := by
  intro hload
  have hknown : IsKnown roundaboutTarget := ⟨".csproj", by decide, by decide⟩
  have hround := goesRound_roundaboutProject.of_replaced h not_endsIn_longDocument hknown
  have hshort :=
    (exists_loadAll_roundaboutProject_iff hround h.current h.tree.isDirectory_eq).1
    ⟨projects, hload⟩ longDocument (FileTree.isSome_of_isFile h.tree.isFile)
  rw [size_longDocument] at hshort
  exact absurd hshort (by decide)

/-- This harvest is not repeated: the second one fails, where an item of the project file comes upon
the document by a path that is too long. -/
theorem run_again_roundabout :
    ¬ ∀ (w : Workspace) (s : Settings) (records : List Record) (destination : Path),
    (run w s).2.outcome = .ok records → w.expandHome (.ofString s.output) = .ok destination →
    w.isDirectory destination.parent = .ok true →
    (∀ ext ∈ Project.fileEndings, ¬ Path.EndsIn ext destination.name.toList) →
    (run (run w s).1 s).1 = (run w s).1 ∧ (run (run w s).1 s).2.outcome = .ok records := by
  intro h
  have hrun := outcome_run_roundaboutProject
  have hparent := receives_roundaboutDocument.parent
  obtain ⟨-, hagain⟩ := h _ _ _ _ hrun expandHome_besideRoundabout hparent not_endsIn_longDocument
  obtain ⟨-, p, hp, hwrite⟩ := collect_and_write_of_run hrun
  obtain rfl : roundaboutDocument = p := Except.ok.inj (expandHome_besideRoundabout.symm.trans hp)
  obtain ⟨text, -, hsave⟩ := save_of_write hwrite
  obtain ⟨-, -, hu⟩ := Workspace.save_eq_ok hparent hsave
  have hplace : roundaboutDocument.placeOf roundaboutProject.current = ["S", longDocument] :=
    Path.placeOf_eq_append (p := roundaboutDocument) rfl
      (FileTree.isName_iff.1 isName_longDocument).2.2.1 []
  rw [hplace] at hu
  obtain ⟨hcollect, -⟩ := collect_and_write_of_run hagain
  rw [outcome_collect] at hcollect
  obtain ⟨projects, hload, -⟩ := bind_eq_ok_iff.1 hcollect
  refine loadAll_ne_ok_of_document ?_ hload
  have hadmits : roundaboutProject.tree.admitsAt ["S", longDocument] = true := by
    refine FileTree.admitsAt_append (p := ["S"]) isDirectory_roundaboutProject
      isName_longDocument ?_
    rw [Bool.eq_false_iff, Ne, isDirectory_roundaboutProject_iff]
    exact longDocument_ne_longDirectory
  exact hu ▸ Workspace.replaced_put hadmits _

end MemberHarvest.Harvest
