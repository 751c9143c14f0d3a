import MemberHarvest.Proofs.Path.Order
import MemberHarvest.Proofs.Path.Written
import MemberHarvest.Proofs.Project.Loading
import MemberHarvest.Proofs.Workspace.Searching

/-!
# Proofs/Project/Discovery — what a directory stands for

A directory stands for the project files below it that are not in an output directory
(`IsProjectFile`), and without any it is a project with the source files below it (`IsSourceFile`).
Loading a directory loads exactly these files, in the order of their places (`loadAll_directory`),
unless the search comes to a path that is too long to be looked at.
-/

namespace MemberHarvest.Project

open Outcome
open MemberHarvest.Path (Place)

variable {w : Workspace} {base : Path} {place q : Place} {ignore : List String}

/-! ## The files below a directory -/

/-- A file lies below a directory and in none of the output directories below it. -/
structure LiesBelow (w : Workspace) (place q : Place) : Prop where
  below : place <+: q
  isFile : w.tree.isFile q = true
  outside : ∀ n ∈ (q.drop place.length).dropLast, Path.lowerAscii n ∉ outputDirectories

/-- Whether a name is that of a project file. -/
def IsProjectName (n : String) : Prop := ".csproj".toList <:+ n.toList

instance : DecidablePred IsProjectName := fun _ => inferInstanceAs (Decidable (_ <:+ _))

/-- A project file below a directory. -/
def IsProjectFile (w : Workspace) (place q : Place) : Prop :=
  LiesBelow w place q ∧ IsProjectName (Path.ofPlace q).name

/-- A source file below a directory that no pattern leaves out. -/
def IsSourceFile (w : Workspace) (place : Place) (ignore : List String) (q : Place) : Prop :=
  LiesBelow w place q ∧ isSource (.ofPlace q) = true ∧
    isLeftOut (.ofPlace place) ignore (.ofPlace q) = false

/-- A path that a search for names below a directory comes to is not too long. -/
def InReach (w : Workspace) (base : Path) (named : String → Prop) : Prop :=
  ∀ q, w.ComesTo named (base.placeOf w.current) q → ¬ (w.spelled base q).IsLong

/-- The refusal of a path that is too long, where a search for names below a directory comes to
one. -/
def OutOfReach (w : Workspace) (base : Path) (named : String → Prop) (e : Failure) : Prop :=
  ∃ q, w.ComesTo named (base.placeOf w.current) q ∧ (w.spelled base q).IsLong ∧
    e = .refused ⟨.nameTooLong, (w.spelled base q).toString, none⟩

/-- Files with a property can be listed. -/
theorem exists_lists {P : Place → Prop} (h : ∀ q, P q → w.tree.isFile q = true) :
    ∃ qs, Path.Lists P qs := by
  classical
  have hdistinct : ((w.tree.nodes.map (·.1)).filter P).Nodup := w.tree.distinct.filter _
  refine ⟨_, Path.lists_sortPlaces hdistinct fun q => ?_⟩
  simp only [List.mem_filter, decide_eq_true_eq, and_iff_right_iff_imp]
  exact fun hq => FileTree.mem_places_of_isFile (h q hq)

/-- Files with a property are listed, if all that the tree holds are looked through. -/
theorem lists_of_places {P : Place → Prop} (h : ∀ q, P q → w.tree.isFile q = true) {qs : List Place}
    (hsorted : qs.Pairwise (· < ·)) (hmem : ∀ q ∈ qs, P q)
    (hall : ∀ q ∈ w.tree.nodes.map (·.1), P q → q ∈ qs) :
    Path.Lists P qs :=
  ⟨hsorted, fun q => ⟨hmem q, fun hq => hall q (FileTree.mem_places_of_isFile (h q hq)) hq⟩⟩

/-- What lies below the root is in reach, if no path to what the tree holds is too long. -/
theorem inReach_of_places {named : String → Prop} (hplace : base.placeOf w.current ≠ [])
    (hall : ∀ q ∈ w.tree.nodes.map (·.1), w.ComesTo named (base.placeOf w.current) q →
      ¬ (w.spelled base q).IsLong) :
    InReach w base named := by
  intro q hq
  have hne : q ≠ [] := fun hnil => hplace (List.prefix_nil.1 (hnil ▸ hq.1))
  exact hall q (FileTree.mem_places_of_isSome hne hq.isSome) hq

/-- A file that is found below a place is build output if a directory on the way down to it is one
of the output directories. -/
theorem isBuildOutput_spelled (h : w.StartsAt base place) :
    isBuildOutput base (w.spelled base q) = false ↔
      ∀ n ∈ (q.drop place.length).dropLast, Path.lowerAscii n ∉ outputDirectories := by
  rw [isBuildOutput, Path.below?, if_pos ⟨rfl, List.prefix_append _ _⟩]
  simp [Workspace.spelled, h.placeOf_eq]

/-- Found paths are sorted by their places. -/
theorem sort_spelled (h : w.StartsAt base place) {qs : List Place}
    (hqs : ∀ q ∈ qs, place <+: q ∧ (w.tree.find? q).isSome = true) (keep : Path → Bool) :
    Path.sort (((qs.map (w.spelled base)).filter keep).map w.resolve) =
      (Path.sortPlaces (qs.filter fun q => keep (w.spelled base q))).map Path.ofPlace := by
  rw [← Path.sort_map_ofPlace, List.filter_map, List.map_map]
  refine congrArg Path.sort (List.map_congr_left fun q hq => ?_)
  obtain ⟨hpq, hnode⟩ := hqs q (List.mem_filter.1 hq).1
  exact congrArg Path.ofPlace (h.placeOf_spelled hpq hnode)

/-- Where everything is in reach, a glob finds the files that are listed. -/
theorem exists_glob (h : w.StartsAt base place) {text : String} {pattern : Pattern}
    {named : String → Prop} (htext : Glob.ofString text = .ok ⟨[.everywhere, .wild pattern], false⟩)
    (hfits : ∀ n, pattern.fits n.toList = true ↔ named n) (hreach : InReach w base named)
    (keep : Path → Bool)
    {P : Place → Prop} (hP : ∀ q, P q ↔
      (place <+: q ∧ w.tree.isFile q = true ∧ named (Path.ofPlace q).name) ∧
      keep (w.spelled base q) = true) {qs : List Place} (hqs : Path.Lists P qs) :
    ∃ found, w.glob base text = .ok found ∧
      Path.sort ((found.filter keep).map w.resolve) = qs.map Path.ofPlace := by
  rcases h.glob_cases htext hfits with ⟨rs, hglob, hnodup, hmem, -⟩ | ⟨q, hq, hlong, -⟩
  · refine ⟨_, hglob, ?_⟩
    rw [sort_spelled h fun q hq =>
      ⟨((hmem q).1 hq).1, FileTree.isSome_of_isFile ((hmem q).1 hq).2.1⟩]
    refine congrArg _ (Path.Lists.unique (Path.lists_sortPlaces (hnodup.filter _) fun q => ?_) hqs)
    rw [List.mem_filter, hmem, hP]
  · exact absurd hlong (hreach q (h.placeOf_eq ▸ hq))

/-- Where something is out of reach, a glob fails for a path that is too long. -/
theorem glob_of_not_inReach (h : w.StartsAt base place) {text : String} {pattern : Pattern}
    {named : String → Prop} (htext : Glob.ofString text = .ok ⟨[.everywhere, .wild pattern], false⟩)
    (hfits : ∀ n, pattern.fits n.toList = true ↔ named n) (hreach : ¬ InReach w base named) :
    ∃ e, OutOfReach w base named e ∧ w.glob base text = .error e := by
  rcases h.glob_cases htext hfits with ⟨-, -, -, -, hshort⟩ | ⟨q, hq, hlong, hglob⟩
  · exact absurd (fun q hq => hshort q (h.placeOf_eq ▸ hq)) hreach
  · exact ⟨_, ⟨q, h.placeOf_eq.symm ▸ hq, hlong, rfl⟩, hglob⟩

/-! ## Project files -/

/-- The pattern of project files, as it is read. -/
theorem ofString_projectFiles :
    Glob.ofString "**/*.csproj" = .ok
      ⟨[.everywhere, .wild (.any :: ".csproj".toList.map .char)], false⟩ := by
  have hpattern : Pattern.ofString "*.csproj" = .any :: ".csproj".toList.map .char := by
    simp [Pattern.ofString, Pattern.ofChars, Pattern.consAtom]
  rw [← hpattern]
  rfl

/-- **The project files of a directory are those below it,** in order. Each is given by the absolute
path of its place, whatever the directory was spelled like. -/
theorem projectFiles_of_inReach (h : w.StartsAt base place) (hreach : InReach w base IsProjectName)
    {qs : List Place} (hqs : Path.Lists (IsProjectFile w place) qs) :
    projectFiles w base = .ok (qs.map Path.ofPlace) := by
  have hP (q : Place) : IsProjectFile w place q ↔
      (place <+: q ∧ w.tree.isFile q = true ∧ IsProjectName (Path.ofPlace q).name) ∧
        (!isBuildOutput base (w.spelled base q)) = true := by
    rw [Bool.not_eq_true', isBuildOutput_spelled h]
    exact ⟨fun ⟨⟨hbelow, hfile, houtside⟩, hname⟩ => ⟨⟨hbelow, hfile, hname⟩, houtside⟩,
      fun ⟨⟨hbelow, hfile, hname⟩, houtside⟩ => ⟨⟨hbelow, hfile, houtside⟩, hname⟩⟩
  obtain ⟨found, hglob, hsort⟩ :=
    exists_glob h ofString_projectFiles (fun n => Pattern.fits_any_iff) hreach
      (fun p => !isBuildOutput base p) hP hqs
  rw [projectFiles, hglob, ← hsort]
  rfl

/-! ## Source files -/

/-- The pattern of everything, as it is read. -/
theorem ofString_everything :
    Glob.ofString everything = .ok ⟨[.everywhere, .wild (.any :: List.map .char [])], false⟩ := by
  rw [List.map_nil, ← Pattern.ofString_star]
  rfl

/-- **The source files that a glob for everything finds are those below the directory,** in order.
Build output is left out, and so is what has another extension. -/
theorem globSources_of_inReach (h : w.StartsAt (.ofPlace place) place)
    (hreach : InReach w (.ofPlace place) fun _ => True) {qs : List Place}
    (hqs : Path.Lists (fun q => LiesBelow w place q ∧ isSource (.ofPlace q) = true) qs) :
    globSources w (.ofPlace place) everything = .ok (qs.map Path.ofPlace) := by
  have hP (q : Place) : (LiesBelow w place q ∧ isSource (.ofPlace q) = true) ↔
      (place <+: q ∧ w.tree.isFile q = true ∧ True) ∧
        (isSource (w.spelled (.ofPlace place) q) &&
          !isBuildOutput (.ofPlace place) (w.spelled (.ofPlace place) q)) = true := by
    rw [Bool.and_eq_true, Bool.not_eq_true', isBuildOutput_spelled h]
    constructor
    · rintro ⟨⟨hbelow, hfile, houtside⟩, hsource⟩
      exact ⟨⟨hbelow, hfile, trivial⟩, (Workspace.spelled_ofPlace h hbelow).symm ▸ hsource,
        houtside⟩
    · rintro ⟨⟨hbelow, hfile, -⟩, hsource, houtside⟩
      exact ⟨⟨hbelow, hfile, houtside⟩, Workspace.spelled_ofPlace h hbelow ▸ hsource⟩
  obtain ⟨found, hglob, hsort⟩ :=
    exists_glob h ofString_everything (fun n => Pattern.fits_any_iff.trans (by simp)) hreach
      (fun p => isSource p && !isBuildOutput (.ofPlace place) p) hP hqs
  rw [globSources, hglob, ← hsort]
  rfl

/-- The entries of a project with the source files that are listed. -/
theorem entriesOf_map_ofPlace {qs rs : List Place}
    (hqs : Path.Lists (fun q => LiesBelow w place q ∧ isSource (.ofPlace q) = true) qs)
    (hrs : Path.Lists (IsSourceFile w place ignore) rs) :
    entriesOf (.ofPlace place) ignore (qs.map Path.ofPlace) = rs.map fun q =>
      entry (.ofPlace q) := by
  have hkept : qs.filter (fun q => !isLeftOut (.ofPlace place) ignore (.ofPlace q)) = rs := by
    refine (hqs.filter _).unique ⟨hrs.sorted, fun q => ?_⟩
    rw [hrs.mem, IsSourceFile, Bool.not_eq_true', and_assoc]
  rw [entriesOf, List.filter_map, List.map_map, ← hkept]
  rfl

/-! ## Loading a directory -/

theorem outcome_loadAll_of_isDirectory {d : String} (ignore : List String)
    (hhome : w.expandHome (.ofString d) = .ok base) (hdir : w.isDirectory base = .ok true) :
    (loadAll w ignore d).outcome = (loadDirectory w ignore base).outcome := by
  have hnode : (loadNode w ignore base).outcome = (loadDirectory w ignore base).outcome := by
    rw [outcome_loadNode, hdir]
    rfl
  rw [outcome_loadAll, hhome]
  exact hnode

/-- **A directory that is not in reach is not loaded.** The first path that is too long ends the
search. -/
theorem loadDirectory_of_not_inReach (h : w.StartsAt base place) (ignore : List String)
    (hreach : ¬ InReach w base IsProjectName) :
    ∃ e, OutOfReach w base IsProjectName e ∧ (loadDirectory w ignore base).outcome = .error e := by
  obtain ⟨e, he, hglob⟩ :=
    glob_of_not_inReach h ofString_projectFiles (fun n => Pattern.fits_any_iff) hreach
  refine ⟨e, he, ?_⟩
  rw [outcome_loadDirectory, projectFiles, hglob]
  rfl

/-- **A directory is loaded as the project files below it, or else as the source files below it.**
Both are listed without exception and in order. A search that comes to a path which is too long to
be looked at ends in its refusal. -/
theorem loadAll_directory {d : String} (ignore : List String)
    (hhome : w.expandHome (.ofString d) = .ok base) (hdir : w.isDirectory base = .ok true) :
    let place := base.placeOf w.current
    let outcome := (loadAll w ignore d).outcome
    ∃ projects sources, Path.Lists (IsProjectFile w place) projects ∧
      Path.Lists (IsSourceFile w place ignore) sources ∧
      (InReach w base IsProjectName → projects ≠ [] →
        outcome = projects.mapM fun q => (load w ignore none (.ofPlace q)).outcome) ∧
      (InReach w base IsProjectName → projects = [] → InReach w (.ofPlace place) (fun _ => True) →
        outcome = .ok
          [⟨(Path.ofPlace place).name, .ofPlace place, sources.map fun q => entry (.ofPlace q)⟩]) ∧
      (¬ InReach w base IsProjectName → ∃ e, OutOfReach w base IsProjectName e ∧
        outcome = .error e) ∧
      (InReach w base IsProjectName → projects = [] → ¬ InReach w (.ofPlace place) (fun _ => True) →
        ∃ e, OutOfReach w (.ofPlace place) (fun _ => True) e ∧ outcome = .error e) := by
  intro place outcome
  have hstart : w.StartsAt base place := Workspace.startsAt_of_isDirectory hdir
  have hstart' : w.StartsAt (.ofPlace place) place := Workspace.startsAt_ofPlace hstart.isDirectory
  have hdirectory : outcome = (loadDirectory w ignore base).outcome :=
    outcome_loadAll_of_isDirectory ignore hhome hdir
  have houtcome := hdirectory.trans (outcome_loadDirectory w ignore base)
  obtain ⟨projects, hprojects⟩ : ∃ qs, Path.Lists (IsProjectFile w place) qs :=
    exists_lists fun q hq => hq.1.isFile
  obtain ⟨sources, hsources⟩ : ∃ qs, Path.Lists (IsSourceFile w place ignore) qs :=
    exists_lists fun q hq => hq.1.isFile
  obtain ⟨found, hfound⟩ : ∃ qs,
      Path.Lists (fun q => LiesBelow w place q ∧ isSource (.ofPlace q) = true) qs :=
    exists_lists fun q hq => hq.1.isFile
  refine ⟨projects, sources, hprojects, hsources, fun hreach hsome => ?_,
    fun hreach hnone hreach' => ?_, fun hreach => ?_, fun hreach hnone hreach' => ?_⟩
  · rw [houtcome, projectFiles_of_inReach hstart hreach hprojects]
    cases projects with
    | nil => exact absurd rfl hsome
    | cons q qs => exact List.mapM_map
  · subst hnone
    rw [houtcome, projectFiles_of_inReach hstart hreach hprojects,
      ← entriesOf_map_ofPlace hfound hsources]
    change (globSources w (.ofPlace place) everything >>= _) = _
    rw [globSources_of_inReach hstart' hreach' hfound]
    rfl
  · rw [hdirectory]
    exact loadDirectory_of_not_inReach hstart ignore hreach
  · obtain ⟨e, he, hglob⟩ :=
      glob_of_not_inReach hstart' ofString_everything
        (fun n => Pattern.fits_any_iff.trans (by simp)) hreach'
    refine ⟨e, he, ?_⟩
    subst hnone
    rw [houtcome, projectFiles_of_inReach hstart hreach hprojects]
    change (globSources w (.ofPlace place) everything >>= _) = _
    rw [globSources, hglob]
    rfl

/-! ## Directories of similar names -/

instance (w : Workspace) (place q : Place) : Decidable (LiesBelow w place q) :=
  decidable_of_iff (place <+: q ∧ w.tree.isFile q = true ∧
      ∀ n ∈ (q.drop place.length).dropLast, Path.lowerAscii n ∉ outputDirectories)
    ⟨fun ⟨hbelow, hfile, houtside⟩ => ⟨hbelow, hfile, houtside⟩,
      fun h => ⟨h.below, h.isFile, h.outside⟩⟩

instance (w : Workspace) (place q : Place) : Decidable (IsProjectFile w place q) :=
  inferInstanceAs (Decidable (_ ∧ _))

/-- A directory with project files in directories of similar names, of which one is for output. -/
def neighbours : Workspace where
  tree := [(["S"], .directory), (["S", "a"], .directory), (["S", "a-b"], .directory),
    (["S", "Obj"], .directory), (["S", "a-b", "X.csproj"], .file []),
    (["S", "a", "Y.csproj"], .file []), (["S", "Obj", "Z.csproj"], .file [])].foldl
    (fun t e => t.put e.1 e.2) FileTree.empty
  current := []

/-- Two directories, one of which is named like the other and more. The order is that of the names,
in which `a` comes before `a-b`. -/
theorem loadAll_directory_neighbours :
    neighbours.expandHome (.ofString "S") = .ok (.ofString "S") ∧
      neighbours.isDirectory (.ofString "S") = .ok true ∧
        InReach neighbours (.ofString "S") IsProjectName ∧
      (loadAll neighbours [] "S").outcome =
        [["S", "a", "Y.csproj"], ["S", "a-b", "X.csproj"]].mapM fun q =>
          (load neighbours [] none (.ofPlace q)).outcome := by
  have hhome : neighbours.expandHome (.ofString "S") = .ok (.ofString "S") := by decide
  have hdir : neighbours.isDirectory (.ofString "S") = .ok true := by decide
  have hreach : InReach neighbours (.ofString "S") IsProjectName := by
    have hall : ∀ q ∈ neighbours.tree.nodes.map (·.1),
        Text.Utf8.size (neighbours.spelled (.ofString "S") q).toString.toList ≤
          FileTree.maxPath := by
      decide
    intro q hq hlong
    have hne : q ≠ [] := by
      rintro rfl
      exact absurd hq.1 (by decide)
    exact absurd hlong (Nat.not_lt.2 (hall q (FileTree.mem_places_of_isSome hne hq.isSome)))
  obtain ⟨projects, sources, hprojects, -, hsome, -⟩ := loadAll_directory [] hhome hdir
  have hlists :
      Path.Lists (IsProjectFile neighbours (Path.placeOf neighbours.current (.ofString "S")))
      [["S", "a", "Y.csproj"], ["S", "a-b", "X.csproj"]] := by
    refine ⟨by decide, fun q => ⟨fun hq => ?_, fun hq => ?_⟩⟩
    · revert q
      decide
    · have hall : ∀ q ∈ neighbours.tree.nodes.map (·.1), IsProjectFile neighbours ["S"] q →
          q ∈ [["S", "a", "Y.csproj"], ["S", "a-b", "X.csproj"]] := by
        decide
      exact hall q (FileTree.mem_places_of_isFile hq.1.isFile) hq
  obtain rfl := hprojects.unique hlists
  exact ⟨hhome, hdir, hreach, hsome hreach (by simp)⟩

/-! ## A long way to a directory -/

/-- A text that goes into a directory and out of it again, and into it in the end. -/
def detour : Nat → List Char
  | 0 => ['S']
  | k + 1 => 'S' :: '/' :: '.' :: '.' :: '/' :: detour k

/-- The names in such a text. -/
def detourNames : Nat → List String
  | 0 => ["S"]
  | k + 1 => "S" :: ".." :: detourNames k

theorem ofString_detour (k : Nat) :
    Path.ofString (String.ofList (detour k)) = ⟨.here, detourNames k⟩ := by
  have hnames : Path.namesOf (detour k) = detourNames k := by
    induction k with
    | zero => rfl
    | succ k ih =>
      rw [detourNames, ← ih]
      simp [detour, Path.namesOf, List.splitOnP_cons_eq_if_modifyHead]
  have hanchor : Path.anchorOf (detour k) = .here := by cases k <;> rfl
  rw [Path.ofString, String.toList_ofList, hnames, hanchor]

/-- Each round of the detour takes five bytes. -/
theorem namesSize_detourNames (k : Nat) : Path.namesSize (detourNames k) = 5 * k + 2 := by
  have hin : Text.Utf8.size "S".toList = 1 := by decide
  have hout : Text.Utf8.size "..".toList = 2 := by decide
  induction k with
  | zero => decide
  | succ k ih =>
    simp only [detourNames, Path.namesSize, ih, hin, hout]
    omega

/-- A directory with one project file. -/
def loneProject : Workspace where
  tree := (FileTree.empty.put ["S"] .directory).put ["S", "A.csproj"]
    (.file (Text.Utf8.encode "<Project/>".toList))
  current := []

/-- The length of what is found at the end of the detour. -/
theorem size_child_detourNames (k : Nat) (n : String) :
    Text.Utf8.size ((Path.mk .here (detourNames k)).child n).toString.toList =
      5 * k + 2 + Text.Utf8.size n.toList := by
  have hsize := Path.size_toString (p := (Path.mk .here (detourNames k)).child n)
    (by simp [Path.child])
  have hanchor : Text.Utf8.size Path.Anchor.here.text.toList = 0 := by decide
  simp only [Path.child, Path.namesSize_append, namesSize_detourNames, Path.namesSize_singleton,
    hanchor] at hsize ⊢
  omega

theorem size_detourNames (k : Nat) :
    Text.Utf8.size (Path.mk .here (detourNames k)).toString.toList = 5 * k + 1 := by
  have hsize := Path.size_toString (p := ⟨.here, detourNames k⟩) (by cases k <;> simp [detourNames])
  have hanchor : Text.Utf8.size Path.Anchor.here.text.toList = 0 := by decide
  rw [namesSize_detourNames, hanchor] at hsize
  omega

/-- What is found at the end of the detour is too long from some round on. -/
theorem isLong_child_detourNames_iff {k : Nat} {n : String} :
    ((Path.mk .here (detourNames k)).child n).IsLong ↔
    FileTree.maxPath < 5 * k + 2 + Text.Utf8.size n.toList := by
  rw [Path.IsLong, size_child_detourNames]

theorem holdsNul_detourNames (k : Nat) : (Path.mk .here (detourNames k)).holdsNul = false := by
  have hin : "S".toList.contains '\x00' = false := by decide
  have hout : "..".toList.contains '\x00' = false := by decide
  induction k with
  | zero => decide
  | succ k ih =>
    rw [Path.holdsNul] at ih ⊢
    simp only [detourNames, List.any_cons, ih, hin, hout, Bool.or_false]

/-- Each round comes back to the directory it started in. -/
theorem walk_detourNames (hdir : w.tree.isDirectory ["S"] = true) (k : Nat) :
    w.tree.walk [] (detourNames k) = .ok ["S"] := by
  have hroot : w.tree.isDirectory [] = true := by
    simpa using FileTree.isDirectory_dropLast (p := ["S"]) (FileTree.isSome_of_isDirectory hdir)
  have hinto : w.StartsAt ((Path.ofPlace []).child "S") ([] ++ ["S"]) :=
    (Workspace.startsAt_ofPlace hroot).into hdir
  have hround : w.tree.walk [] ["S", ".."] = .ok [] := hinto.outOf.walk
  induction k with
  | zero => exact hinto.walk
  | succ k ih =>
    change w.tree.walk [] (["S", ".."] ++ detourNames k) = _
    rw [FileTree.walk_append, hround]
    exact ih

/-- **A long way to a directory leads to it,** if it is not too long. The detour enters the
directory and goes back as often as it is told to. -/
theorem isDirectory_detourNames (hcurrent : w.current = []) (hdir : w.tree.isDirectory ["S"] = true)
    {k : Nat} (h : 5 * k + 1 ≤ FileTree.maxPath) :
    w.isDirectory ⟨.here, detourNames k⟩ = .ok true ∧
      Path.placeOf w.current ⟨.here, detourNames k⟩ = ["S"] := by
  have hlocate : w.locate ⟨.here, detourNames k⟩ = .ok ["S"] := by
    rw [Workspace.locate, FileTree.locate, size_detourNames, if_neg (by omega), hcurrent]
    exact walk_detourNames hdir k
  refine ⟨?_, (FileTree.locate_eq_placeOf hlocate).symm⟩
  simp [Workspace.isDirectory, Workspace.probe, holdsNul_detourNames, hlocate, hdir]

/-- A detour that is not too long leads to the directory `S`. -/
theorem isDirectory_detour {k : Nat} (h : 5 * k + 1 ≤ FileTree.maxPath) :
    loneProject.isDirectory ⟨.here, detourNames k⟩ = .ok true ∧
      Path.placeOf loneProject.current ⟨.here, detourNames k⟩ = ["S"] :=
  isDirectory_detourNames rfl (by decide) h

/-- Seven bytes later, the path of the project file is. -/
theorem isLong_spelled_detour {k : Nat}
    (hplace : Path.placeOf loneProject.current ⟨.here, detourNames k⟩ = ["S"])
    (h : FileTree.maxPath < 5 * k + 10) :
    (loneProject.spelled ⟨.here, detourNames k⟩ ["S", "A.csproj"]).IsLong := by
  have hspelled : loneProject.spelled ⟨.here, detourNames k⟩ ["S", "A.csproj"] =
      (Path.mk .here (detourNames k)).child "A.csproj" := by
    rw [Workspace.spelled, hplace]
    rfl
  have hname : Text.Utf8.size "A.csproj".toList = 8 := by decide
  rw [hspelled, isLong_child_detourNames_iff, hname]
  exact h

/-- The project file of the directory is not loaded where the directory is spelled in too long a
way. -/
theorem detour_tooLong : ¬ ∀ (w : Workspace) (d : String) (base : Path) (ignore : List String),
    w.expandHome (.ofString d) = .ok base → w.isDirectory base = .ok true →
    ∃ projects sources, Path.Lists (IsProjectFile w (base.placeOf w.current)) projects ∧
      Path.Lists (IsSourceFile w (base.placeOf w.current) ignore) sources ∧
      (projects ≠ [] →
        (loadAll w ignore d).outcome = projects.mapM fun q =>
          (load w ignore none (.ofPlace q)).outcome) ∧
      (projects = [] →
        (loadAll w ignore d).outcome =
          .ok [⟨(base.resolve w.current).name, base.resolve w.current,
            sources.map fun q => entry (.ofPlace q)⟩]) := by
  intro h
  obtain ⟨hdir, hplace⟩ := isDirectory_detour (k := 818) (by decide)
  have hhome : loneProject.expandHome (.ofString (String.ofList (detour 818))) =
      .ok ⟨.here, detourNames 818⟩ := by
    rw [ofString_detour]
    rfl
  obtain ⟨projects, sources, hprojects, -, hsome, -⟩ := h loneProject _ _ [] hhome hdir
  rw [hplace] at hprojects
  have hfile : IsProjectFile loneProject ["S"] ["S", "A.csproj"] := by decide
  have honly : Path.Lists (IsProjectFile loneProject ["S"]) [["S", "A.csproj"]] := by
    have hall : ∀ q ∈ loneProject.tree.nodes.map (·.1), IsProjectFile loneProject ["S"] q →
        q = ["S", "A.csproj"] := by
      decide
    refine ⟨List.pairwise_singleton _ _,
      fun q => List.mem_singleton.trans ⟨fun hq => hq ▸ hfile, fun hq => ?_⟩⟩
    exact hall q (FileTree.mem_places_of_isFile hq.1.isFile) hq
  obtain rfl := hprojects.unique honly
  have hload : (load loneProject [] none (.ofPlace ["S", "A.csproj"])).outcome =
      .ok ⟨"A", .ofPlace ["S", "A.csproj"], []⟩ := by
    decide +kernel
  have hstart := Workspace.startsAt_of_isDirectory hdir
  have hreach : ¬ InReach loneProject ⟨.here, detourNames 818⟩ IsProjectName := by
    intro hreach
    refine hreach ["S", "A.csproj"] ?_ ?_
    · rw [hplace]
      exact ⟨by decide, .inr ⟨by decide, hfile.2⟩⟩
    · exact isLong_spelled_detour hplace (by decide)
  obtain ⟨e, -, herror⟩ := loadDirectory_of_not_inReach hstart [] hreach
  rw [outcome_loadAll_of_isDirectory [] hhome hdir, herror] at hsome
  simp [hload] at hsome

end MemberHarvest.Project
