import MemberHarvest.Proofs.Path.Ending
import MemberHarvest.Proofs.Project.Compile
import MemberHarvest.Proofs.Project.SolutionLine
import MemberHarvest.Proofs.Text.DisplayLines
import MemberHarvest.Proofs.Text.Utf8
import MemberHarvest.Project.Loading

/-!
# Proofs/Project/Listing — the projects that a solution lists

`Tells` goes through lines and keeps the name and path of each project file that one of them lists.
Any lines tell one list of projects (`tells_iff`), and for the lines that a solution is built from
that list is what is read from it, each path resolved from the directory of the solution
(`listed_of_displays`).
-/

namespace MemberHarvest.Project

open Outcome
open SolutionLine (parse?)

/-! ## Lines in turn -/

/-- Lines list project files, with these names and paths in this order. -/
inductive Tells : List (List Char) → List (List Char × List Char) → Prop
  | nil : Tells [] []
  | project {line name raw : List Char} {lines : List (List Char)}
    {projects : List (List Char × List Char)}
    (lists : SolutionLine.Lists line name raw) (ends : Path.EndsIn ".csproj" raw)
    (rest : Tells lines projects) :
    Tells (line :: lines) ((name, raw) :: projects)
  | other {line : List Char} {lines : List (List Char)} {projects : List (List Char × List Char)}
    (none : ∀ name raw, SolutionLine.Lists line name raw → ¬ Path.EndsIn ".csproj" raw)
    (rest : Tells lines projects) :
    Tells (line :: lines) projects

variable {w : Workspace} {path : Path} {bytes : Text.Bytes} {text : List Char}
  {lines : List (List Char)} {projects : List (List Char × List Char)}

/-- **Lines list just the project files that are read from them.** The parser takes the lines that
have the form of a project line, and of these the ones are kept whose path ends like a project
file. -/
theorem tells_iff : Tells lines projects ↔
    (lines.filterMap parse?).filter (fun line =>
      ".csproj".toList.isSuffixOf (line.2.map Char.toLower)) = projects := by
  have hends (raw : List Char) : ".csproj".toList.isSuffixOf (raw.map Char.toLower) = true ↔
      Path.EndsIn ".csproj" raw := List.isSuffixOf_iff_suffix
  constructor
  · intro h
    induction h with
    | nil => rfl
    | @project line name raw lines projects lists ends _ ih =>
      rw [List.filterMap_cons_some (SolutionLine.parse?_eq_some_iff.2 lists), List.filter_cons,
        if_pos ((hends raw).2 ends), ih]
    | @other line lines projects none _ ih =>
      cases hparse : parse? line with
      | none => rw [List.filterMap_cons_none hparse, ih]
      | some found =>
        have hother := none found.1 found.2 (SolutionLine.parse?_eq_some_iff.1 hparse)
        rw [List.filterMap_cons_some hparse, List.filter_cons,
          if_neg fun h => hother ((hends _).1 h), ih]
  · rintro rfl
    induction lines with
    | nil => exact .nil
    | cons line lines ih =>
      cases hparse : parse? line with
      | none =>
        rw [List.filterMap_cons_none hparse]
        refine .other (fun name raw lists => ?_) ih
        rw [SolutionLine.parse?_eq_some_iff.2 lists] at hparse
        cases hparse
      | some found =>
        have hlists := SolutionLine.parse?_eq_some_iff.1 hparse
        rw [List.filterMap_cons_some hparse]
        by_cases hend : Path.EndsIn ".csproj" found.2
        · rw [List.filter_cons, if_pos ((hends _).2 hend)]
          exact .project hlists hend ih
        · rw [List.filter_cons, if_neg fun h => hend ((hends _).1 h)]
          refine .other (fun name raw lists => ?_) ih
          obtain ⟨-, rfl⟩ := hlists.unique lists
          exact hend

/-- What is listed comes from a line. -/
theorem Tells.exists_line (h : Tells lines projects) {project : List Char × List Char}
    (hmem : project ∈ projects) :
    ∃ line ∈ lines, SolutionLine.Lists line project.1 project.2 ∧
      Path.EndsIn ".csproj" project.2 := by
  induction h with
  | nil => simp at hmem
  | project lists ends _ ih =>
    rcases List.mem_cons.1 hmem with rfl | hmem
    · exact ⟨_, List.mem_cons_self, lists, ends⟩
    · obtain ⟨line, hline, hlists⟩ := ih hmem
      exact ⟨line, List.mem_cons_of_mem _ hline, hlists⟩
  | other _ _ ih =>
    obtain ⟨line, hline, hlists⟩ := ih hmem
    exact ⟨line, List.mem_cons_of_mem _ hline, hlists⟩

/-! ## Solutions -/

/-- A listed project: its name, and the place of its path from a directory. -/
def located (cwd : Path.Place) (base : Path) (project : List Char × List Char) : String × Path :=
  (String.ofList project.1, base.resolveRelative cwd (String.ofList project.2))

/-- A listed project is located unless its path holds NUL. -/
theorem locate_project {base : Path} (hbase : base.holdsNul = false) (cwd : Path.Place)
    (project : List Char × List Char) :
    (do return (String.ofList project.1, ← locate cwd base (String.ofList project.2)) :
      Except Failure _) =
      if '\x00' ∈ project.2 then .error .nulInPath else .ok (located cwd base project) := by
  rw [locate_eq hbase, String.toList_ofList]
  split <;> rfl

/-- The projects of a solution are those that its lines tell, each located from the solution's
directory, unless one of them holds a NUL character. -/
theorem listed_of_tells (hread : w.readBytes path = .ok bytes) (hbytes : Text.Stores bytes text)
    (htells : Tells (Text.displayLines text) projects) :
    listed w path = if ∃ project ∈ projects, '\x00' ∈ project.2 then .error .nulInPath
      else .ok (projects.map (located w.current path.parent)) := by
  have hbase : path.parent.holdsNul = false :=
    Path.holdsNul_parent (Workspace.readBytes_eq_ok_iff.1 hread).1
  have hlisted : listed w path = projects.mapM fun project =>
      if '\x00' ∈ project.2 then .error .nulInPath
        else .ok (located w.current path.parent project) := by
    rw [listed, mapError_eq_ok_iff.2 hread, ok_bind,
      mapError_eq_ok_iff.2 (Text.decode_of_stores hbytes), ok_bind]
    simp only [tells_iff.1 htells]
    exact mapM_congr fun project _ => locate_project hbase w.current project
  rw [hlisted]
  split
  · rename_i hnul
    obtain ⟨project, hproject, hmem⟩ := hnul
    have hfails : FailsAs (· = Failure.nulInPath) (projects.mapM fun project =>
        if '\x00' ∈ project.2 then .error .nulInPath
          else .ok (located w.current path.parent project)) := by
      refine .mapM fun project _ => ?_
      split
      · exact .error rfl
      · exact .ok _
    obtain ⟨_, rfl, herror⟩ := hfails.exists_eq_error fun hok => by
      obtain ⟨found, hfound⟩ := exists_mapM_eq_ok_iff.1 hok project hproject
      rw [if_pos hmem] at hfound
      cases hfound
    exact herror
  · rename_i hnul
    exact mapM_eq_ok_map fun project hproject => if_neg fun hmem => hnul ⟨project, hproject, hmem⟩

/-- **A solution is read by its lines.** The lines that its text is built from tell one list of
projects. It is read in that order, with each path resolved, unless a path among them holds NUL;
what is read comes from a line that lists it, and no line lists two names or paths. -/
theorem listed_of_displays (hread : w.readBytes path = .ok bytes) (hbytes : Text.Stores bytes text)
    (hlines : Text.Displays text lines) :
    (∃ projects, Tells lines projects ∧
      (∀ projects', Tells lines projects' → projects' = projects) ∧
      listed w path = if ∃ project ∈ projects, '\x00' ∈ project.2 then .error .nulInPath
        else .ok (projects.map (located w.current path.parent))) ∧
    (∀ found, listed w path = .ok found → ∀ project ∈ found, ∃ line ∈ lines, ∃ name raw,
      SolutionLine.Lists line name raw ∧ Path.EndsIn ".csproj" raw ∧
        project = located w.current path.parent (name, raw)) ∧
    ∀ line name raw name' raw', SolutionLine.Lists line name raw →
      SolutionLine.Lists line name' raw' → name = name' ∧ raw = raw' := by
  obtain rfl := Text.displayLines_of_displays hlines
  have htells := tells_iff.2 (rfl : _ = ((Text.displayLines text).filterMap parse?).filter _)
  have hlisted := listed_of_tells hread hbytes htells
  refine ⟨⟨_, htells, fun projects' h => (tells_iff.1 h).symm, hlisted⟩,
    fun found hfound project hproject => ?_, fun line name raw name' raw' h h' => h.unique h'⟩
  rw [hlisted] at hfound
  split at hfound
  · cases hfound
  · cases hfound
    obtain ⟨pair, hpair, rfl⟩ := List.mem_map.1 hproject
    obtain ⟨line, hline, hlists, hends⟩ := htells.exists_line hpair
    exact ⟨line, hline, pair.1, pair.2, hlists, hends, rfl⟩

/-- The lines of a solution: of a heading, of a project, of a folder, and of a project without its
second identifier. -/
def mixedLines : List (List Char) :=
  ["Solution File".toList,
    "Project(\"\x7bX\", \"x.csproj\x7d\")\t=\"A\" ,\" src\\A.CsProj\", \"\x7b\"\x7d\" ".toList,
    "Project(\"\x7bX\x7d\") = \"Docs\", \"Docs\", \"\x7bY\x7d\"".toList,
    "Project(\"\x7bX\x7d\") = \"B\", \"B.csproj\"".toList]

/-- A solution of these lines, each with another end. -/
def mixedText : List Char :=
  (mixedLines.zip ["\r\n".toList, ['\n'], ['\x0b'], []]).flatMap fun l => l.1 ++ l.2

/-- A directory with that solution. -/
def mixedSolution : Workspace where
  tree := [(["S"], .directory), (["S", "All.sln"], .file (Text.Utf8.encode mixedText))].foldl
    (fun t e => t.put e.1 e.2) FileTree.empty
  current := []

/-- A solution with lines of several kinds and line ends of several kinds. One of them tells a
project. -/
theorem listed_of_displays_mixed :
    mixedSolution.readBytes (.ofString "S/All.sln") = .ok (Text.Utf8.encode mixedText) ∧
      Text.Stores (Text.Utf8.encode mixedText) mixedText ∧ Text.Displays mixedText mixedLines ∧
      listed mixedSolution (.ofString "S/All.sln") =
        .ok [("A", .ofPlace ["S", "src", "A.CsProj"])] := by
  have hread : mixedSolution.readBytes (.ofString "S/All.sln") =
      .ok (Text.Utf8.encode mixedText) := by decide +kernel
  have hbytes : Text.Stores (Text.Utf8.encode mixedText) mixedText := .inr ⟨rfl, by decide⟩
  have hlines : Text.Displays mixedText mixedLines := Text.displayLines_eq_iff.1 (by decide +kernel)
  have htells : Tells mixedLines [("A".toList, " src\\A.CsProj".toList)] :=
    tells_iff.2 (by decide +kernel)
  obtain ⟨⟨projects, -, hunique, hlisted⟩, -, -⟩ := listed_of_displays hread hbytes hlines
  obtain rfl := hunique _ htells
  refine ⟨hread, hbytes, hlines, hlisted.trans ?_⟩
  decide +kernel

end MemberHarvest.Project
