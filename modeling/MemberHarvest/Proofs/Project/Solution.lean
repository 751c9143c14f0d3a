import MemberHarvest.Proofs.Path.Ending
import MemberHarvest.Proofs.Path.Joined
import MemberHarvest.Proofs.Project.Discovery

/-!
# Proofs/Project/Solution — a solution and the directory that it lies in

A solution may list just the project files below its own directory, in their order (`Mirrors`). Then
it stands for the same projects as the directory: both ways of finding the files come to the same
places and names, and everything behind them is one (`loadAll_solution`). Three things can come
between: a path that is taken for a home directory because its only name begins with `~`, a path of
the solution that is too long, and a search of the directory that comes to a path which is too long.
In each of these cases the two may differ (`solution_differs`).
-/

namespace MemberHarvest.Project

open Outcome
open MemberHarvest.Path (Place)

variable {w : Workspace} {base path : Path} {place q : Place} {ignore : List String} {n : String}
  {projects : List Place} {line : List Char × List Char}

/-! ## What a solution lists -/

/-- The projects that the text of a solution lists: their names and paths, as they are written. -/
def listedIn (text : List Char) : List (List Char × List Char) :=
  ((Text.displayLines text).filterMap SolutionLine.parse?).filter fun line =>
    ".csproj".toList.isSuffixOf (line.2.map Char.toLower)

/-- A solution names a project file below its directory: by the file's stem, and by the names that
lead to it, with a slash or a backslash between any two of them. -/
structure Names (place q : Place) (line : List Char × List Char) : Prop where
  name : line.1 = (Path.ofPlace q).stem.toList
  path : Path.slashes line.2 = ("/".intercalate (q.drop place.length)).toList
  trimmed : Text.trim line.2 = line.2

/-- **The text of such a path denotes the names that lead to the file.** The line holds the names
below the directory, with a slash or a backslash between them. -/
theorem Names.ofProjectText (h : Names place q line) (hq : (w.tree.find? q).isSome = true) :
    Path.ofProjectText (String.ofList line.2) = ⟨.here, q.drop place.length⟩ := by
  have hplain : (Path.mk .here (q.drop place.length)).IsPlain := by
    intro n hn
    have hname := FileTree.isName_iff.1 (FileTree.isName_of_mem hq n (List.mem_of_mem_drop hn))
    exact ⟨hname.1, hname.2.1, hname.2.2.2.1⟩
  rw [Path.ofProjectText, String.toList_ofList, h.trimmed, h.path, String.ofList_toList,
    Path.ofString_intercalate hplain]

/-- So it leads from the directory to the place of the file. -/
theorem Names.locate (h : Names place q line) (hstart : w.StartsAt base place) (hpq : place <+: q)
    (hq : (w.tree.find? q).isSome = true) :
    locate w.current base (String.ofList line.2) = .ok (.ofPlace q) := by
  have hjoin : base.join ⟨.here, q.drop place.length⟩ = w.spelled base q := by
    rw [Workspace.spelled, hstart.placeOf_eq]
    rfl
  rw [Project.locate, Path.resolveRelative, h.ofProjectText hq, hjoin,
    hstart.holdsNul_spelled hq, Path.resolve, hstart.placeOf_spelled hpq hq]
  rfl

/-- **A solution that lists project files below its directory is read as their stems and places.**
The stems are the names that the projects would be given without a solution. -/
theorem listed_of_names {bytes : Text.Bytes} {text : List Char} (hstart : w.StartsAt base place)
    (hread : w.readBytes (base.child n) = .ok bytes)
    (htext : Text.Encoding.utf8Marked.decode bytes = .ok text)
    (hprojects : ∀ q ∈ projects, place <+: q ∧ (w.tree.find? q).isSome = true)
    (hlines : List.Forall₂ (Names place) projects (listedIn text)) :
    listed w (base.child n) = .ok (projects.map fun q => ((Path.ofPlace q).stem, .ofPlace q)) := by
  rw [listed, hread]
  simp only [Except.mapError, htext, bind, Except.bind]
  refine mapM_eq_ok_iff.2 (List.forall₂_map_right_iff.2 ?_)
  refine List.Forall₂.flip
    (List.Forall₂.imp (fun q line h => ?_) ((List.forall₂_and_left _ _).2 ⟨hprojects, hlines⟩))
  obtain ⟨⟨hpq, hq⟩, hnames⟩ := h
  rw [flip, Path.parent_child, hnames.locate hstart hpq hq, hnames.name, String.ofList_toList]
  rfl

/-! ## Loading with a name that is known anyhow -/

/-- **To name a project after its file makes no difference.** A project that is not named by a
solution has the stem of its file for a name. -/
theorem load_stem (hq : (w.tree.find? q).isSome = true) (ignore : List String) :
    load w ignore (some (Path.ofPlace q).stem) (.ofPlace q) = load w ignore none (.ofPlace q) := by
  have hplace : Path.placeOf w.current (.ofPlace q) = q :=
    (FileTree.walk_eq_follow (FileTree.walk_below (p := []) hq)).symm
  have hresolve : w.resolve (.ofPlace q) = .ofPlace q := congrArg Path.ofPlace hplace
  have hname : nameOf (some (Path.ofPlace q).stem) (.ofPlace q) = nameOf none (.ofPlace q) := by
    simp [nameOf]
  simp only [load, hresolve, hname]

theorem liftM_ok_bind {α β : Type} (a : α) (f : α → Journaled β) :
    (liftM (.ok a : Except Failure α) : Journaled α) >>= f = f a := pure_bind a f

theorem loadNode_of_isDirectory (hdir : w.isDirectory base = .ok true) (ignore : List String) :
    loadNode w ignore base = loadDirectory w ignore base := by
  rw [loadNode, hdir]
  exact liftM_ok_bind true _

/-- **A directory with project files is loaded as these,** one after the other and with their
journals. -/
theorem loadDirectory_of_projectFiles {files : List Path} (h : projectFiles w base = .ok files)
    (hsome : files ≠ []) (ignore : List String) :
    loadDirectory w ignore base = files.mapM (load w ignore none) := by
  rw [loadDirectory, h, liftM_ok_bind]
  cases files with
  | nil => exact absurd rfl hsome
  | cons file files => rfl

/-- **A solution is loaded as the projects that it lists,** each under the name that it lists. -/
theorem loadNode_of_solution {bytes : Text.Bytes} {entries : List (String × Path)}
    (hread : w.readBytes path = .ok bytes) (hsln : path.hasSuffix ".sln" = true)
    (hlisted : listed w path = .ok entries) (ignore : List String) :
    loadNode w ignore path = entries.mapM fun entry => load w ignore (some entry.1) entry.2 := by
  rw [loadNode, Workspace.isDirectory_of_readBytes hread, liftM_ok_bind, if_neg Bool.false_ne_true,
    Workspace.isFile_eq_ok_true_iff.2 ⟨bytes, hread⟩, liftM_ok_bind, if_pos rfl, if_pos hsln,
      hlisted, liftM_ok_bind]

/-- Where there are projects to load, loading adds no report of its own. -/
theorem loadAll_of_loadNode {α : Type} {s : String} {as : List α} {f : α → Journaled Project}
    (hhome : w.expandHome (.ofString s) = .ok path) (hnode : loadNode w ignore path = as.mapM f)
    (hsome : as ≠ []) :
    loadAll w ignore s = as.mapM f := by
  rw [loadAll, hhome, liftM_ok_bind, hnode]
  cases hloaded : (as.mapM f).outcome with
  | error e =>
    rw [Journaled.bind_of_error _ hloaded, ← hloaded]
  | ok ps =>
    have hps : ps.isEmpty = false := by
      rw [Journaled.outcome_mapM] at hloaded
      have hlength := (mapM_eq_ok_iff.1 hloaded).length_eq
      cases ps with
      | nil => exact absurd (List.length_eq_zero_iff.1 hlength) hsome
      | cons p ps => rfl
    rw [Journaled.bind_of_ok _ hloaded, hps]
    simp only [Bool.false_eq_true, if_false, Journaled.journal_pure, Journaled.outcome_pure,
      List.append_nil, ← hloaded]

/-! ## Home directories -/

/-- A name behind the path of the current directory is taken for a home directory. -/
def SeemsHome (d n : String) : Prop := Path.ofString d = ⟨.here, []⟩ ∧ n.toList.head? = some '~'

instance (d n : String) : Decidable (SeemsHome d n) := inferInstanceAs (Decidable (_ ∧ _))

/-- Any other name stays behind its directory when a leading `~` is replaced. -/
theorem account?_child {p : Path} (h : p = ⟨.here, []⟩ → n.toList.head? ≠ some '~') :
    (p.child n).account? = p.account? := by
  obtain ⟨anchor, names⟩ := p
  cases anchor with
  | here =>
    cases names with
    | nil =>
      have hhead := h rfl
      simp only [Path.account?, Path.child, List.nil_append]
      split
      · rename_i name hn
        exact absurd (congrArg List.head? hn) hhead
      · rfl
    | cons m ms => rfl
  | root => rfl
  | network => rfl

/-- A path that starts from an account has a name. -/
theorem names_ne_nil_of_account? {p : Path} {account : String} (h : p.account? = some account) :
    p.names ≠ [] := by
  intro hnil
  rw [Path.account?, hnil] at h
  split at h <;> simp_all

/-- A file of a directory starts from the same home directory, unless the file's name is what makes
its path begin with `~`. -/
theorem expandHome_child {d s : String} (hhome : w.expandHome (.ofString d) = .ok base)
    (hs : Path.ofString s = (Path.ofString d).child n) (hseems : ¬ SeemsHome d n) :
    w.expandHome (.ofString s) = .ok (base.child n) := by
  have hkept := account?_child fun hd hhead => hseems ⟨hd, hhead⟩
  rw [hs, Workspace.expandHome_eq_ok_iff, hkept]
  obtain ⟨hnone, rfl⟩ | ⟨account, home, haccount, hnul, hhost, rfl⟩ :=
    Workspace.expandHome_eq_ok_iff.1 hhome
  · exact .inl ⟨hnone, rfl⟩
  · refine .inr ⟨account, home, haccount, hnul, hhost, ?_⟩
    simp only [Path.child, List.tail_append_of_ne_nil (names_ne_nil_of_account? haccount),
      List.append_assoc]

/-- The account that a name in front of a path stands for. -/
def accountOf (n : String) : String := String.ofList n.toList.tail

/-- If it is, then the path begins with the account of that name. -/
theorem account?_of_seemsHome {d s : String} (hs : Path.ofString s = (Path.ofString d).child n)
    (hseems : SeemsHome d n) : (Path.ofString s).account? = some (accountOf n) := by
  obtain ⟨name, hn⟩ := List.head?_eq_some_iff.1 hseems.2
  rw [hs, hseems.1, accountOf, hn]
  simp only [Path.account?, Path.child, List.nil_append, hn, List.tail_cons]

/-- Such a path comes to the home directory of the account that the name stands for, if there is
one. -/
theorem expandHome_of_seemsHome {d s : String} (hs : Path.ofString s = (Path.ofString d).child n)
    (hnul : '\x00' ∉ n.toList) (hseems : SeemsHome d n) :
    w.expandHome (.ofString s) =
      match w.host.homeOf? (accountOf n) with
      | some home => .ok home
      | none => .error .noHome := by
  have hnames : (Path.ofString s).names = [n] := by
    rw [hs, hseems.1]
    rfl
  have haccount : '\x00' ∉ (accountOf n).toList := by
    rw [accountOf, String.toList_ofList]
    exact fun h => hnul (List.mem_of_mem_tail h)
  rw [Workspace.expandHome, account?_of_seemsHome hs hseems]
  dsimp only
  rw [if_neg (by simpa using haccount), hnames]
  cases w.host.homeOf? (accountOf n) with
  | none => rfl
  | some home =>
    dsimp only
    rw [List.tail_cons, List.append_nil]

/-! ## A solution and its directory -/

/-- A solution lists just the project files below the directory that it lies in, in their order. -/
structure Mirrors (w : Workspace) (d s : String) (base : Path) (n : String)
    (projects : List Place) : Prop where
  home : w.expandHome (.ofString d) = .ok base
  isDirectory : w.isDirectory base = .ok true
  projectFiles : Path.Lists (IsProjectFile w (base.placeOf w.current)) projects
  nonempty : projects ≠ []
  path : Path.ofString s = (Path.ofString d).child n
  isSolution : (base.child n).hasSuffix ".sln" = true
  lists : ∃ bytes text, w.tree.find? (base.placeOf w.current ++ [n]) = some (.file bytes) ∧
    Text.Encoding.utf8Marked.decode bytes = .ok text ∧
    List.Forall₂ (Names (base.placeOf w.current)) projects (listedIn text)

namespace Mirrors

variable {d s : String}

/-- The search for projects starts where the solution is. -/
theorem startsAt (h : Mirrors w d s base n projects) : w.StartsAt base (base.placeOf w.current) :=
  Workspace.startsAt_of_isDirectory h.isDirectory

theorem isSome_solution (h : Mirrors w d s base n projects) :
    (w.tree.find? (base.placeOf w.current ++ [n])).isSome = true := by
  obtain ⟨bytes, text, hnode, -, -⟩ := h.lists
  rw [hnode]
  rfl

/-- The solution is spelled as the directory with the solution's name behind it. -/
theorem spelled_solution (h : Mirrors w d s base n projects) :
    w.spelled base (base.placeOf w.current ++ [n]) = base.child n := by
  rw [h.startsAt.spelled_concat List.prefix_rfl, h.startsAt.spelled_self]

theorem isSome_of_mem (h : Mirrors w d s base n projects) {q : Place} (hq : q ∈ projects) :
    base.placeOf w.current <+: q ∧ (w.tree.find? q).isSome = true := by
  obtain ⟨hbelow, -⟩ := (h.projectFiles.mem q).1 hq
  exact ⟨hbelow.below, FileTree.isSome_of_isFile hbelow.isFile⟩

/-- **The directory stands for the project files below it.** They are loaded in the order of their
places. -/
theorem loadAll_directory_eq (h : Mirrors w d s base n projects) (ignore : List String)
    (hreach : InReach w base IsProjectName) :
    loadAll w ignore d = (projects.map Path.ofPlace).mapM (load w ignore none) := by
  have hfiles : Project.projectFiles w base = .ok (projects.map Path.ofPlace) :=
    projectFiles_of_inReach h.startsAt hreach h.projectFiles
  have hsome : projects.map Path.ofPlace ≠ [] := by simpa using h.nonempty
  refine loadAll_of_loadNode h.home ?_ hsome
  rw [loadNode_of_isDirectory h.isDirectory, loadDirectory_of_projectFiles hfiles hsome]

/-- **The solution stands for the same project files.** They are loaded in the order of its lines,
which is the same one by hypothesis. -/
theorem loadAll_solution_eq (h : Mirrors w d s base n projects) (ignore : List String)
    (hseems : ¬ SeemsHome d n) (hshort : ¬ (base.child n).IsLong) :
    loadAll w ignore s = (projects.map Path.ofPlace).mapM (load w ignore none) := by
  obtain ⟨bytes, text, hnode, htext, hlines⟩ := h.lists
  have hread : w.readBytes (base.child n) = .ok bytes := by
    rw [← h.spelled_solution] at hshort ⊢
    refine Workspace.readBytes_eq_ok_iff.2
      ⟨h.startsAt.holdsNul_spelled h.isSome_solution, _, ?_, hnode⟩
    exact h.startsAt.locate_spelled (List.prefix_append _ _) h.isSome_solution hshort
  have hlisted := listed_of_names h.startsAt hread htext (fun q hq => h.isSome_of_mem hq) hlines
  have hloads : (projects.map fun q => ((Path.ofPlace q).stem, Path.ofPlace q)).mapM
      (fun entry => load w ignore (some entry.1) entry.2) =
        (projects.map Path.ofPlace).mapM (load w ignore none) := by
    rw [List.mapM_map, List.mapM_map]
    exact mapM_congr fun q hq => load_stem (h.isSome_of_mem hq).2 ignore
  refine loadAll_of_loadNode (expandHome_child h.home h.path hseems) ?_ (by simpa using h.nonempty)
  rw [loadNode_of_solution hread h.isSolution hlisted, hloads]

/-- A solution behind a path that is taken for a home directory is not looked at, but that directory
is. -/
theorem outcome_of_seemsHome (h : Mirrors w d s base n projects) (ignore : List String)
    (hseems : SeemsHome d n) :
    (loadAll w ignore s).outcome =
      match w.host.homeOf? (accountOf n) with
      | some home => (loadNode w ignore home).outcome
      | none => .error .noHome := by
  have hname := FileTree.isName_iff.1 (FileTree.isName_of_mem h.isSome_solution n (by simp))
  rw [outcome_loadAll, expandHome_of_seemsHome h.path hname.2.2.2.2.1 hseems]
  cases w.host.homeOf? (accountOf n) with
  | none => rfl
  | some home => rfl

/-- A solution behind a path that is too long is not looked at. -/
theorem outcome_of_isLong (h : Mirrors w d s base n projects) (ignore : List String)
    (hseems : ¬ SeemsHome d n) (hlong : (base.child n).IsLong) :
    (loadAll w ignore s).outcome = .error (Workspace.tooLong (base.child n)) := by
  have hlook : w.isDirectory (base.child n) = .error (Workspace.tooLong (base.child n)) := by
    rw [← h.spelled_solution] at hlong ⊢
    exact h.startsAt.probe_of_isLong h.isSome_solution hlong _
  have hnode : (loadNode w ignore (base.child n)).outcome =
      .error (Workspace.tooLong (base.child n)) := by
    rw [outcome_loadNode, hlook]
    rfl
  rw [outcome_loadAll, expandHome_child h.home h.path hseems]
  exact hnode

/-- The search of the directory ends at a path that is too long. -/
theorem outcome_of_not_inReach (h : Mirrors w d s base n projects) (ignore : List String)
    (hreach : ¬ InReach w base IsProjectName) :
    ∃ e, OutOfReach w base IsProjectName e ∧ (loadAll w ignore d).outcome = .error e := by
  obtain ⟨e, he, herror⟩ := loadDirectory_of_not_inReach h.startsAt ignore hreach
  exact ⟨e, he, (outcome_loadAll_of_isDirectory ignore h.home h.isDirectory).trans herror⟩

end Mirrors

/-- **A solution that lists the project files below its directory is loaded as the directory is,**
to the same projects or the same failure, and with the same reports. A path that is taken for a home
directory leads there if the system knows it, one that is too long leads to no solution, and a
search that comes to a path which is too long leads to no project. -/
theorem loadAll_solution {d s : String} (h : Mirrors w d s base n projects) (ignore : List String) :
    (¬ SeemsHome d n → ¬ (base.child n).IsLong → InReach w base IsProjectName →
      loadAll w ignore s = loadAll w ignore d) ∧
    (SeemsHome d n → (loadAll w ignore s).outcome =
      match w.host.homeOf? (accountOf n) with
      | some home => (loadNode w ignore home).outcome
      | none => .error .noHome) ∧
    (¬ SeemsHome d n → (base.child n).IsLong →
      (loadAll w ignore s).outcome = .error (Workspace.tooLong (base.child n))) ∧
    (¬ InReach w base IsProjectName →
      ∃ e, OutOfReach w base IsProjectName e ∧ (loadAll w ignore d).outcome = .error e) := by
  refine ⟨fun hseems hshort hreach => ?_, h.outcome_of_seemsHome ignore, h.outcome_of_isLong ignore,
    h.outcome_of_not_inReach ignore⟩
  rw [h.loadAll_solution_eq ignore hseems hshort, h.loadAll_directory_eq ignore hreach]

/-! ## Solutions of two projects -/

/-- A line of a solution that lists a project. -/
def projectLine (name path : String) : List Char :=
  "Project(\"\x7bA\x7d\") = \"".toList ++ name.toList ++ "\", \"".toList ++ path.toList ++
    "\", \"\x7bB\x7d\"\n".toList

/-- A solution of two projects, with either slash. -/
def neighboursText : List Char := projectLine "Y" "a\\Y.csproj" ++ projectLine "X" "a-b/X.csproj"

/-- The directory with project files in directories of similar names, and their solution. -/
def listedNeighbours : Workspace :=
  { neighbours with tree :=
    neighbours.tree.put ["S", "All.sln"] (.file (Text.Utf8.encode neighboursText)) }

/-- A directory with two projects and a solution that lists both of them. -/
theorem loadAll_solution_listedNeighbours :
    Mirrors listedNeighbours "S" "S/All.sln" (.ofString "S") "All.sln"
        [["S", "a", "Y.csproj"], ["S", "a-b", "X.csproj"]] ∧
      loadAll listedNeighbours [] "S/All.sln" = loadAll listedNeighbours [] "S" := by
  have hlists : Path.Lists (IsProjectFile listedNeighbours ["S"])
      [["S", "a", "Y.csproj"], ["S", "a-b", "X.csproj"]] :=
    lists_of_places (fun q hq => hq.1.isFile) (by decide) (by decide) (by decide)
  have hlisted : listedIn neighboursText =
      [("Y".toList, "a\\Y.csproj".toList), ("X".toList, "a-b/X.csproj".toList)] := by
    decide +kernel
  have hnames : List.Forall₂ (Names ["S"]) [["S", "a", "Y.csproj"], ["S", "a-b", "X.csproj"]]
      (listedIn neighboursText) := by
    rw [hlisted]
    exact .cons ⟨by decide, by decide, by decide⟩ (.cons ⟨by decide, by decide, by decide⟩ .nil)
  have hmirrors : Mirrors listedNeighbours "S" "S/All.sln" (.ofString "S") "All.sln"
      [["S", "a", "Y.csproj"], ["S", "a-b", "X.csproj"]] :=
    ⟨by decide, by decide, hlists, by simp, by decide, by decide, _, neighboursText, rfl,
      by decide +kernel, hnames⟩
  have hreach : InReach listedNeighbours (.ofString "S") IsProjectName := by
    have hall : ∀ q ∈ listedNeighbours.tree.nodes.map (·.1),
        ¬ (listedNeighbours.spelled (.ofString "S") q).IsLong := by
      decide
    exact inReach_of_places (by decide) fun q hq _ => hall q hq
  obtain ⟨hequal, -⟩ := loadAll_solution hmirrors []
  exact ⟨hmirrors, hequal (by decide) (by decide) hreach⟩

/-! ## Solutions of one project -/

/-- A directory with one project file and several solutions for it, seen from a current
directory. -/
def mainProject (current : Place) : Workspace where
  tree := [(["S"], .directory),
    (["S", "Main.csproj"], .file (Text.Utf8.encode "<Project/>".toList)),
    (["S", "~Main.sln"], .file (Text.Utf8.encode (projectLine "Main" "Main.csproj"))),
    (["S", "A.sln"], .file (Text.Utf8.encode (projectLine "Main" "Main.csproj"))),
    (["S", "Everything.sln"], .file (Text.Utf8.encode (projectLine "Main" "Main.csproj")))].foldl
      (fun t e => t.put e.1 e.2) FileTree.empty
  current := current

variable {current : Place} {d s : String}

/-- A solution of the directory `S` lists its only project, however the directory is spelled. -/
theorem mirrors_mainProject (hcurrent : current ∈ [[], ["S"]])
    (hhome : (mainProject current).expandHome (.ofString d) = .ok base)
    (hdir : (mainProject current).isDirectory base = .ok true)
    (hplace : base.placeOf current = ["S"])
    (hpath : Path.ofString s = (Path.ofString d).child n)
    (hn : n ∈ ["~Main.sln", "A.sln", "Everything.sln"]) :
    Mirrors (mainProject current) d s base n [["S", "Main.csproj"]] := by
  have hlists : Path.Lists (IsProjectFile (mainProject current) ["S"]) [["S", "Main.csproj"]] := by
    have hmem : ∀ current ∈ [[], ["S"]],
        IsProjectFile (mainProject current) ["S"] ["S", "Main.csproj"] := by
      decide
    have hall : ∀ current ∈ [[], ["S"]], ∀ q ∈ (mainProject current).tree.nodes.map (·.1),
        IsProjectFile (mainProject current) ["S"] q → q ∈ [["S", "Main.csproj"]] := by
      decide
    exact lists_of_places (fun q hq => hq.1.isFile) (List.pairwise_singleton _ _)
      (List.forall_mem_singleton.2 (hmem current hcurrent)) (hall current hcurrent)
  have hlisted : listedIn (projectLine "Main" "Main.csproj") =
      [("Main".toList, "Main.csproj".toList)] := by
    decide +kernel
  have hnames : List.Forall₂ (Names ["S"]) [["S", "Main.csproj"]]
      (listedIn (projectLine "Main" "Main.csproj")) := by
    rw [hlisted]
    exact .cons ⟨by decide, by decide, by decide⟩ .nil
  have hnode : ∀ n ∈ ["~Main.sln", "A.sln", "Everything.sln"],
      (mainProject current).tree.find? (["S"] ++ [n]) =
      some (.file (Text.Utf8.encode (projectLine "Main" "Main.csproj"))) := by
    simp only [List.forall_mem_cons]
    exact ⟨rfl, rfl, rfl, nofun⟩
  have hsln : ∀ n ∈ ["~Main.sln", "A.sln", "Everything.sln"],
      Path.lowerAscii (String.ofList (Path.splitName n.toList).2) = ".sln" := by
    decide
  refine ⟨hhome, hdir, ?_, by simp, hpath, ?_, Text.Utf8.encode (projectLine "Main" "Main.csproj"),
    projectLine "Main" "Main.csproj", ?_, by decide +kernel, ?_⟩
  · exact hplace.symm ▸ hlists
  · rw [Path.hasSuffix, Path.suffix, Path.name_child, hsln n hn]
    rfl
  · exact hplace.symm ▸ hnode n hn
  · exact hplace.symm ▸ hnames

/-- The project file is loaded from either place. -/
theorem outcome_load_mainProject (hcurrent : current ∈ [[], ["S"]]) :
    ([["S", "Main.csproj"]].map Path.ofPlace).mapM (fun p =>
      (load (mainProject current) [] none p).outcome) =
      .ok [⟨"Main", .ofPlace ["S", "Main.csproj"], []⟩] := by
  have hload : ∀ current ∈ [[], ["S"]],
      (load (mainProject current) [] none (.ofPlace ["S", "Main.csproj"])).outcome =
      .ok ⟨"Main", .ofPlace ["S", "Main.csproj"], []⟩ := by
    decide +kernel
  rw [List.map_singleton, List.mapM_cons, hload current hcurrent]
  rfl

/-- A search for project files fails only where the project file is too far away. -/
theorem inReach_mainProject_iff (hcurrent : current ∈ [[], ["S"]])
    (hplace : base.placeOf current = ["S"]) :
    InReach (mainProject current) base IsProjectName ↔ ¬ (base.child "Main.csproj").IsLong := by
  have hmem : ∀ current ∈ [[], ["S"]],
      (mainProject current).ComesTo IsProjectName ["S"] ["S", "Main.csproj"] := by
    decide
  have hall : ∀ current ∈ [[], ["S"]], ∀ q ∈ (mainProject current).tree.nodes.map (·.1),
      (mainProject current).ComesTo IsProjectName ["S"] q → q = ["S"] ∨
        q = ["S", "Main.csproj"] := by
    decide
  have hplace' : base.placeOf (mainProject current).current = ["S"] := hplace
  have hspelled (ns : List String) :
      (mainProject current).spelled base ("S" :: ns) = ⟨base.anchor, base.names ++ ns⟩ := by
    rw [Workspace.spelled, hplace']
    rfl
  constructor
  · intro hreach
    have hshort := hreach ["S", "Main.csproj"] (hplace'.symm ▸ hmem current hcurrent)
    rwa [hspelled] at hshort
  · intro hshort
    refine inReach_of_places (by simp [hplace']) fun q hq hcomes => ?_
    rcases hall current hcurrent q hq (hplace' ▸ hcomes) with rfl | rfl
    · rw [hspelled, List.append_nil]
      exact fun hlong => hshort (Workspace.isLong_of_child hlong)
    · exact hspelled _ ▸ hshort

/-- A detour leads to the directory `S`, as long as it is not too long. -/
theorem isDirectory_detour_mainProject {k : Nat} (hk : 5 * k + 1 ≤ FileTree.maxPath) :
    (mainProject []).isDirectory ⟨.here, detourNames k⟩ = .ok true ∧
      Path.placeOf [] ⟨.here, detourNames k⟩ = ["S"] :=
  isDirectory_detourNames (w := mainProject []) rfl (by decide) hk

/-- So a solution at the end of the detour lists the project as well. -/
theorem mirrors_detour {k : Nat} (hk : 5 * k + 1 ≤ FileTree.maxPath)
    (hn : n ∈ ["~Main.sln", "A.sln", "Everything.sln"]) :
    Mirrors (mainProject []) (String.ofList (detour k))
      (String.ofList (detour k ++ '/' :: n.toList))
      ⟨.here, detourNames k⟩ n [["S", "Main.csproj"]] := by
  obtain ⟨hdir, hplace⟩ := isDirectory_detour_mainProject hk
  have hhome : (mainProject []).expandHome (.ofString (String.ofList (detour k))) =
      .ok ⟨.here, detourNames k⟩ := by
    rw [ofString_detour]
    cases k <;> rfl
  have hplain : ∀ n ∈ ["~Main.sln", "A.sln", "Everything.sln"], n ≠ "" ∧ n ≠ "." ∧
      '/' ∉ n.toList := by
    decide
  have hne : detour k ≠ [] := by cases k <;> simp [detour]
  have hhead : (detour k).head? ≠ some '/' := by cases k <;> simp [detour]
  exact mirrors_mainProject (by simp) hhome hdir hplace
    (Path.ofString_append_slash hne hhead (hplain n hn)) hn

theorem not_seemsHome_detour (k : Nat) (n : String) : ¬ SeemsHome (String.ofList (detour k)) n := by
  rw [SeemsHome, ofString_detour]
  cases k <;> simp [detourNames]

/-- A solution and its directory differ in each of the three cases that are left out. -/
theorem solution_differs :
    (¬ ∀ (w : Workspace) (d s : String) (base : Path) (n : String) (projects : List Place)
      (ignore : List String), Mirrors w d s base n projects → ¬ (base.child n).IsLong →
      InReach w base IsProjectName → (loadAll w ignore s).outcome = (loadAll w ignore d).outcome) ∧
    (¬ ∀ (w : Workspace) (d s : String) (base : Path) (n : String) (projects : List Place)
      (ignore : List String), Mirrors w d s base n projects → ¬ SeemsHome d n →
      InReach w base IsProjectName → (loadAll w ignore s).outcome = (loadAll w ignore d).outcome) ∧
    (¬ ∀ (w : Workspace) (d s : String) (base : Path) (n : String) (projects : List Place)
      (ignore : List String), Mirrors w d s base n projects → ¬ SeemsHome d n →
      ¬ (base.child n).IsLong → (loadAll w ignore s).outcome = (loadAll w ignore d).outcome) := by
  refine ⟨fun hagree => ?_, fun hagree => ?_, fun hagree => ?_⟩
  · -- the solution `~Main.sln` of the current directory
    have hmirrors : Mirrors (mainProject ["S"]) "." "./~Main.sln" ⟨.here, []⟩ "~Main.sln"
        [["S", "Main.csproj"]] :=
      mirrors_mainProject (by simp) (by decide) (by decide) (by decide) (by decide) (by simp)
    have hreach : InReach (mainProject ["S"]) ⟨.here, []⟩ IsProjectName :=
      (inReach_mainProject_iff (by simp) (by decide)).2 (by decide)
    have hequal := hagree _ _ _ _ _ _ [] hmirrors (by decide) hreach
    have hhome : (mainProject ["S"]).host.homeOf? (accountOf "~Main.sln") = none := by decide
    rw [hmirrors.outcome_of_seemsHome [] (by decide), hhome,
      hmirrors.loadAll_directory_eq [] hreach, Journaled.outcome_mapM,
      outcome_load_mainProject (by simp)] at hequal
    cases hequal
  · -- a directory from which the project file can be reached, but not the longer name of the
    -- solution
    have hmirrors := mirrors_detour (k := 816) (n := "Everything.sln") (by decide) (by simp)
    have hlong : ((Path.mk .here (detourNames 816)).child "Everything.sln").IsLong :=
      isLong_child_detourNames_iff.2 (by decide)
    have hreach : InReach (mainProject []) ⟨.here, detourNames 816⟩ IsProjectName :=
      (inReach_mainProject_iff (by simp) (isDirectory_detour_mainProject (by decide)).2).2
        (isLong_child_detourNames_iff.not.2 (by decide))
    have hequal := hagree _ _ _ _ _ _ [] hmirrors (not_seemsHome_detour _ _) hreach
    rw [hmirrors.outcome_of_isLong [] (not_seemsHome_detour _ _) hlong,
      hmirrors.loadAll_directory_eq [] hreach, Journaled.outcome_mapM,
      outcome_load_mainProject (by simp)] at hequal
    cases hequal
  · -- a directory from which the shorter name of the solution can be reached, but not the project
    -- file
    have hmirrors := mirrors_detour (k := 817) (n := "A.sln") (by decide) (by simp)
    have hshort : ¬ ((Path.mk .here (detourNames 817)).child "A.sln").IsLong :=
      isLong_child_detourNames_iff.not.2 (by decide)
    have hreach : ¬ InReach (mainProject []) ⟨.here, detourNames 817⟩ IsProjectName := by
      rw [inReach_mainProject_iff (by simp) (isDirectory_detour_mainProject (by decide)).2, not_not]
      exact isLong_child_detourNames_iff.2 (by decide)
    have hequal := hagree _ _ _ _ _ _ [] hmirrors (not_seemsHome_detour _ _) hshort
    obtain ⟨e, -, herror⟩ := hmirrors.outcome_of_not_inReach [] hreach
    rw [hmirrors.loadAll_solution_eq [] (not_seemsHome_detour _ _) hshort, herror,
      Journaled.outcome_mapM, outcome_load_mainProject (by simp)] at hequal
    cases hequal

end MemberHarvest.Project
