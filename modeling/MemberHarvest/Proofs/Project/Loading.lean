import MemberHarvest.Project.Loading
import MemberHarvest.Proofs.Project.Compile
import MemberHarvest.Proofs.Source.Reading

/-!
# Proofs/Project/Loading — what comes of loading projects

Loading comes to projects or to a failure that names a path, or to one that names none: the home
directory of an account that has none (`Workspace.HomeFault`), or what `Escape` lists for the path
behind `~` (`loadAll_cases`). The latter come from solutions (`SolutionFault`), from the project
files that a path stands for (`FileFault`), and from paths that are too long to look at. Each step
hands on the failures of the steps in it (`load_failsAs`, `listed_failsAs`, `loadNode_failsAs`).
-/

namespace MemberHarvest.Project

open Outcome

variable {w : Workspace} {path : Path} {ignore : List String}

/-! ## Outcomes without reports -/

/-- What loading a project file comes to, without its journal. -/
theorem outcome_load (w : Workspace) (ignore : List String) (name? : Option String) (path : Path) :
    (load w ignore name? path).outcome = (do
      if ← w.isFile path then
        let files ← selected w (w.resolve path).parent (← readElements w (w.resolve path))
        return ⟨nameOf name? (w.resolve path), w.resolve path,
          entriesOf (w.resolve path).parent ignore files⟩
      else .error (.load path .noProjectFile)) := by
  simp only [load, Journaled.outcome_bind, Journaled.outcome_ite, Journaled.outcome_liftM,
    Journaled.outcome_reports, Journaled.outcome_report, Journaled.outcome_pure,
    Journaled.outcome_fail]
  rfl

/-- What loading a directory comes to, without its journal. -/
theorem outcome_loadDirectory (w : Workspace) (ignore : List String) (base : Path) :
    (loadDirectory w ignore base).outcome = (do
      match ← projectFiles w base with
      | [] =>
        let files ← globSources w (w.resolve base) everything
        return [⟨(w.resolve base).name, w.resolve base, entriesOf (w.resolve base) ignore files⟩]
      | files => files.mapM fun p => (load w ignore none p).outcome) := by
  simp only [loadDirectory, Journaled.outcome_bind, Journaled.outcome_liftM]
  refine congrArg _ (funext fun files => ?_)
  cases files with
  | nil =>
    simp only [Journaled.outcome_bind, Journaled.outcome_liftM, Journaled.outcome_reports,
      Journaled.outcome_pure]
    rfl
  | cons p files => rw [Journaled.outcome_mapM]

/-- What loading comes to once the home directory is put in, without its journal. -/
theorem outcome_loadNode (w : Workspace) (ignore : List String) (path : Path) :
    (loadNode w ignore path).outcome = (do
      if ← w.isDirectory path then (loadDirectory w ignore path).outcome
      else if ← w.isFile path then
        if path.hasSuffix ".sln" then
          (← listed w path).mapM fun entry => (load w ignore (some entry.1) entry.2).outcome
        else if path.hasSuffix ".csproj" then return [← (load w ignore none path).outcome]
        else .error (.load path .unsupported)
      else .error (.load path .noSolution)) := by
  simp only [loadNode, Journaled.outcome_bind, Journaled.outcome_ite, Journaled.outcome_liftM,
    Journaled.outcome_mapM, Journaled.outcome_pure, Journaled.outcome_fail]
  rfl

theorem outcome_loadAll (w : Workspace) (ignore : List String) (path : String) :
    (loadAll w ignore path).outcome =
      w.expandHome (.ofString path) >>= fun target => (loadNode w ignore target).outcome := by
  simp only [loadAll, Journaled.outcome_bind, Journaled.outcome_ite, Journaled.outcome_liftM,
    Journaled.outcome_report, Journaled.outcome_pure]
  refine congrArg _ (funext fun target => ?_)
  cases (loadNode w ignore target).outcome with
  | error e => rfl
  | ok ps => cases h : ps.isEmpty <;> simp [h, bind, Except.bind]

/-! ## Failures without a path -/

/-- What is wrong with the bytes of a solution. -/
inductive SolutionFault (bytes : Text.Bytes) : Failure → Prop
  | undecodable (h : Text.Encoding.utf8Marked.decode bytes = .error .undecodable) :
    SolutionFault bytes .undecodable
  | nul {text line name raw : List Char}
    (decoded : Text.Encoding.utf8Marked.decode bytes = .ok text)
      (mem : line ∈ Text.displayLines text) (lists : SolutionLine.parse? line = some (name, raw))
      (nul : '\x00' ∈ raw) : SolutionFault bytes .nulInPath

/-- What is wrong with a project file, other than that it is missing, refused or malformed. -/
inductive FileFault (w : Workspace) (path : Path) : Failure → Prop
  | xml {bytes : Text.Bytes} {e : Failure} (read : w.readBytes (w.resolve path) = .ok bytes)
      (fault : XmlFault w.host.codecs bytes e) : FileFault w path e
  | item {es : List Xml.Element} {item : String} {e : Failure}
    (read : readElements w (w.resolve path) = .ok es)
      (mem : item ∈ included es) (fault : ItemFault item e) : FileFault w path e

/-- The project files that a path stands for: itself, those that a solution lists, or those below a
directory. -/
inductive StandsFor (w : Workspace) (target : Path) : Path → Prop
  | itself (project : target.hasSuffix ".csproj" = true) : StandsFor w target target
  | listed {entries : List (String × Path)} {entry : String × Path}
    (solution : target.hasSuffix ".sln" = true)
      (h : listed w target = .ok entries) (mem : entry ∈ entries) : StandsFor w target entry.2
  | found {files : List Path} {file : Path} (directory : w.isDirectory target = .ok true)
      (h : projectFiles w target = .ok files) (mem : file ∈ files) : StandsFor w target file

/-- **The failures of loading a path that name no path.** -/
inductive Escape (w : Workspace) (target : Path) : Failure → Prop
  | solution {bytes : Text.Bytes} {e : Failure} (solution : target.hasSuffix ".sln" = true)
      (read : w.readBytes target = .ok bytes) (fault : SolutionFault bytes e) : Escape w target e
  | file {file : Path} {e : Failure} (stands : StandsFor w target file)
    (fault : FileFault w file e) :
    Escape w target e
  | tooLong {e : Failure} (h : w.IsTooLong e) : Escape w target e

/-- Whether a failure says which path is not loaded. -/
def NamesPath (e : Failure) : Prop := ∃ path cause, e = .load path cause

/-- **A project file fails by an error that names it, by what its bytes are, or at a path that is
too long.** -/
theorem load_failsAs (w : Workspace) (ignore : List String) (name? : Option String) (path : Path) :
    FailsAs (fun e => NamesPath e ∨ FileFault w path e ∨ w.IsTooLong e)
      (load w ignore name? path).outcome := by
  rw [outcome_load]
  refine .bind ((w.probe_failsAs _ path).mono fun _ => .inr ∘ .inr) fun there hthere => ?_
  cases there with
  | false => exact .error (.inl ⟨_, _, rfl⟩)
  | true =>
    obtain ⟨bytes, hbytes⟩ := Workspace.isFile_eq_ok_true_iff.1 hthere
    have hnul := Workspace.holdsNul_resolve hbytes
    refine .bind ((readElements_failsAs hnul).mono fun e => ?_) fun es hes => ?_
    · rintro (⟨cause, rfl⟩ | ⟨bytes, hread, hfault⟩)
      · exact .inl ⟨_, cause, rfl⟩
      · exact .inr (.inl (.xml hread hfault))
    · refine .bind ((selected_failsAs (Path.holdsNul_parent hnul) es).mono fun e => ?_) fun _ _ =>
        .ok _
      rintro (⟨item, hmem, hfault⟩ | hlong)
      · exact .inr (.inl (.item hes hmem hfault))
      · exact .inr (.inr hlong)

/-- A project file that the path stands for fails as the path does. -/
theorem load_failsAs_of_standsFor {target file : Path} (h : StandsFor w target file)
    (ignore : List String) (name? : Option String) :
    FailsAs (fun e => NamesPath e ∨ Escape w target e) (load w ignore name? file).outcome := by
  refine (load_failsAs w ignore name? file).mono fun e => Or.imp_right ?_
  rintro (hfault | hlong)
  · exact .file h hfault
  · exact .tooLong hlong

/-- A solution fails by an error that names it, or by what its bytes are. -/
theorem listed_failsAs (hpath : path.holdsNul = false) :
    FailsAs (fun e => NamesPath e ∨ ∃ bytes, w.readBytes path = .ok bytes ∧ SolutionFault bytes e)
      (listed w path) := by
  refine .bind (.mapError fun o ho => ?_) fun bytes hbytes => ?_
  · cases o with
    | nul => exact absurd ho (Workspace.readBytes_ne_nul hpath w)
    | refused r => exact .inl ⟨_, _, rfl⟩
  have hread := mapError_eq_ok_iff.1 hbytes
  refine .bind (.mapError fun cause hcause => ?_) fun text htext => .mapM fun entry hentry => ?_
  · obtain rfl := Source.eq_undecodable_of_decode hcause
    exact .inr ⟨bytes, hread, .undecodable hcause⟩
  · obtain ⟨line, hline, hparse⟩ := List.mem_filterMap.1 (List.mem_filter.1 hentry).1
    have hlocate := locate_failsAs (Path.holdsNul_parent hpath) w.current (String.ofList entry.2)
    refine .bind (hlocate.mono fun e => ?_) fun _ _ => .ok _
    rintro ⟨rfl, hmem⟩
    rw [String.toList_ofList] at hmem
    exact .inr ⟨bytes, hread, .nul (mapError_eq_ok_iff.1 htext) hline hparse hmem⟩

/-- The search for project files has a legal pattern, so it fails at a long path only. -/
theorem projectFiles_failsAs (w : Workspace) (base : Path) :
    FailsAs w.IsTooLong (projectFiles w base) := by
  have htext : (Glob.ofString "**/*.csproj").isOk = true := by decide
  have hglob : FailsAs w.IsTooLong (w.glob base "**/*.csproj") :=
    (w.glob_failsAs base _).mono fun e he => he.resolve_left fun h => nomatch h ▸ htext
  exact .bind hglob fun _ _ => .ok _

/-- A directory fails as one of the project files below it, or at a path that is too long. -/
theorem loadDirectory_failsAs {base : Path} (h : w.isDirectory base = .ok true)
    (ignore : List String) :
    FailsAs (fun e => NamesPath e ∨ Escape w base e) (loadDirectory w ignore base).outcome := by
  rw [outcome_loadDirectory]
  refine .bind ((projectFiles_failsAs w base).mono fun _ => .inr ∘ .tooLong) fun files hfiles => ?_
  split
  · exact .bind ((globSources_everything_failsAs w _).mono fun _ => .inr ∘ .tooLong) fun _ _ =>
      .ok _
  · exact .mapM fun file hfile => load_failsAs_of_standsFor (.found h hfiles hfile) ignore none

/-- **Whatever is loaded, an error that names no path is one of those that escape.** The cases are
those of loading itself: a directory, a solution, a project file or neither. -/
theorem loadNode_failsAs (w : Workspace) (ignore : List String) (target : Path) :
    FailsAs (fun e => NamesPath e ∨ Escape w target e) (loadNode w ignore target).outcome := by
  have htooLong : ∀ e, w.IsTooLong e → NamesPath e ∨ Escape w target e := fun _ => .inr ∘ .tooLong
  rw [outcome_loadNode]
  refine .bind ((w.probe_failsAs _ target).mono htooLong) fun isDirectory hdirectory => ?_
  split
  · rename_i hthere
    exact loadDirectory_failsAs (hthere ▸ hdirectory) ignore
  refine .bind ((w.probe_failsAs _ target).mono htooLong) fun isFile hfile => ?_
  split
  · rename_i hthere
    obtain ⟨bytes, hbytes⟩ := Workspace.isFile_eq_ok_true_iff.1 (hthere ▸ hfile)
    split
    · rename_i hsln
      refine .bind ((listed_failsAs (Workspace.readBytes_eq_ok_iff.1 hbytes).1).mono fun e =>
        Or.imp_right ?_) fun entries hentries => .mapM fun entry hentry => ?_
      · rintro ⟨bytes, hread, hfault⟩
        exact .solution hsln hread hfault
      · exact load_failsAs_of_standsFor (.listed hsln hentries hentry) ignore _
    split
    · rename_i hproject
      exact .bind (load_failsAs_of_standsFor (.itself hproject) ignore none) fun _ _ => .ok _
    · exact .error (.inl ⟨_, _, rfl⟩)
  · exact .error (.inl ⟨_, _, rfl⟩)

/-! ## Every outcome -/

/-- An error of a project file's bytes names no path. -/
theorem FileFault.path?_eq_none {e : Failure} (h : FileFault w path e) : e.path? = none := by
  cases h with
  | xml _ fault =>
    cases fault with
    | encoding => exact Failure.path?_ofEncoding _ _
    | multiByteEncoding => rfl
  | item _ _ fault =>
    cases fault with
    | glob _ fault => cases fault <;> rfl
    | nul => rfl

/-- A project file is undecodable only in an encoding of the registry. -/
theorem FileFault.of_undecodable (h : FileFault w path .undecodable) :
    ∃ name, w.host.codecs.page name = .error .undecodable := by
  generalize he : Failure.undecodable = e at h
  cases h with
  | xml _ fault =>
    cases fault with
    | @encoding name cause hpage _ =>
      cases cause with
      | undecodable => exact ⟨name, hpage⟩
      | _ => exact nomatch he
    | multiByteEncoding => exact nomatch he
  | item _ _ fault =>
    cases fault with
    | glob _ fault => cases fault <;> exact nomatch he
    | nul => exact nomatch he

theorem Escape.path?_eq_none {e : Failure} (h : Escape w path e) : e.path? = none := by
  cases h with
  | solution _ _ fault => cases fault <;> rfl
  | file _ fault => exact fault.path?_eq_none
  | tooLong h =>
    obtain ⟨_, -, rfl⟩ := h
    rfl

/-- The bytes of a solution do not decode, or the registry's page for a project file does not. -/
theorem Escape.of_undecodable (h : Escape w path .undecodable) :
    (path.hasSuffix ".sln" = true ∧ ∃ bytes, w.readBytes path = .ok bytes ∧
        Text.Encoding.utf8Marked.decode bytes = .error .undecodable) ∨
      ∃ file name, StandsFor w path file ∧ w.host.codecs.page name = .error .undecodable := by
  generalize he : Failure.undecodable = e at h
  cases h with
  | solution sln read fault =>
    cases fault with
    | undecodable h => exact .inl ⟨sln, _, read, h⟩
    | nul => exact nomatch he
  | @file file _ stands fault =>
    obtain ⟨name, hpage⟩ := (he ▸ fault).of_undecodable
    exact .inr ⟨file, name, stands, hpage⟩
  | tooLong h =>
    obtain ⟨_, -, rfl⟩ := h
    exact nomatch he

/-- **Each solution whose bytes are not UTF-8 lets the decoding error escape.** Reading translates
what the system refuses, but not what a decoder does. -/
theorem outcome_loadNode_of_undecodable {bytes : Text.Bytes} (ignore : List String)
    (hsln : path.hasSuffix ".sln" = true) (hread : w.readBytes path = .ok bytes)
    (hbytes : Text.Encoding.utf8Marked.decode bytes = .error .undecodable) :
    (loadNode w ignore path).outcome = .error .undecodable := by
  have hlisted : listed w path = .error .undecodable := by
    rw [listed, hread]
    simp only [Except.mapError, hbytes, bind, Except.bind]
  rw [outcome_loadNode, Workspace.isDirectory_of_readBytes hread,
    Workspace.isFile_eq_ok_true_iff.2 ⟨bytes, hread⟩]
  simp only [bind, Except.bind, Bool.false_eq_true, if_false, if_true, hsln, hlisted]

/-- So it is with loading from a text, where the home directory is another cause. -/
theorem loadAll_failsAs (w : Workspace) (ignore : List String) (path : String) :
    FailsAs (fun e => NamesPath e ∨ w.HomeFault (.ofString path) e ∨
        ∃ target, w.expandHome (.ofString path) = .ok target ∧ Escape w target e)
      (loadAll w ignore path).outcome := by
  rw [outcome_loadAll]
  refine .bind ((w.expandHome_failsAs _).mono fun e => .inr ∘ .inl) fun target htarget => ?_
  exact (loadNode_failsAs w ignore target).mono fun e => Or.imp_right fun h =>
    .inr ⟨target, htarget, h⟩

/-- Where loading is undecodable, some bytes are: those of a solution, or of a page of the
registry. -/
theorem of_loadAll_undecodable {path : String}
    (h : (loadAll w ignore path).outcome = .error .undecodable) :
    ∃ target, w.expandHome (.ofString path) = .ok target ∧
      ((target.hasSuffix ".sln" = true ∧ ∃ bytes, w.readBytes target = .ok bytes ∧
          Text.Encoding.utf8Marked.decode bytes = .error .undecodable) ∨
        ∃ file name, StandsFor w target file ∧ w.host.codecs.page name = .error .undecodable) := by
  rcases loadAll_failsAs w ignore path _ h with ⟨_, _, h⟩ | hhome | ⟨target, htarget, hescape⟩
  · exact nomatch h
  · exact nomatch hhome
  · exact ⟨target, htarget, hescape.of_undecodable⟩

/-- **Loading comes to projects, or to a failure that names a path, or to one of the few that do
not.** Among these is that of a solution whose bytes do not decode, which nothing leads to but such
bytes, and pages that the registry itself cannot decode. -/
theorem loadAll_cases (w : Workspace) (ignore : List String) (path : String) :
    ((∃ ps, (loadAll w ignore path).outcome = .ok ps) ∨
      (∃ p cause, (loadAll w ignore path).outcome = .error (.load p cause)) ∨
      ∃ e, (loadAll w ignore path).outcome = .error e ∧ e.path? = none ∧
        (w.HomeFault (.ofString path) e ∨
          ∃ target, w.expandHome (.ofString path) = .ok target ∧ Escape w target e)) ∧
    ((loadAll w ignore path).outcome = .error .undecodable →
      ∃ target, w.expandHome (.ofString path) = .ok target ∧
        ((target.hasSuffix ".sln" = true ∧ ∃ bytes, w.readBytes target = .ok bytes ∧
            Text.Encoding.utf8Marked.decode bytes = .error .undecodable) ∨
          ∃ file name, StandsFor w target file ∧ w.host.codecs.page name = .error .undecodable)) ∧
    ∀ target bytes, w.expandHome (.ofString path) = .ok target → target.hasSuffix ".sln" = true →
      w.readBytes target = .ok bytes → Text.Encoding.utf8Marked.decode bytes = .error .undecodable →
      (loadAll w ignore path).outcome = .error .undecodable := by
  refine ⟨?_, of_loadAll_undecodable, fun target bytes htarget hsln hread hbytes => ?_⟩
  · cases h : (loadAll w ignore path).outcome with
    | ok ps => exact .inl ⟨ps, rfl⟩
    | error e =>
      right
      rcases loadAll_failsAs w ignore path e h with ⟨p, cause, rfl⟩ | hhome
        | ⟨target, htarget, hescape⟩
      · exact .inl ⟨p, cause, rfl⟩
      · exact .inr ⟨e, rfl, hhome.path?_eq_none, .inl hhome⟩
      · exact .inr ⟨e, rfl, hescape.path?_eq_none, .inr ⟨target, htarget, hescape⟩⟩
  · rw [outcome_loadAll, htarget]
    exact outcome_loadNode_of_undecodable ignore hsln hread hbytes

/-- A workspace with a single file. -/
def singleFile (name : String) (bytes : Text.Bytes) : Workspace where
  tree := FileTree.empty.put [name] (.file bytes)
  current := []

example :
    (loadAll (singleFile "Bad.csproj"
      (Text.Utf8.encode "<Project><Compile Include='src/**.cs' /></Project>".toList))
    [] "Bad.csproj").outcome = .error .mixedDoubleStar := by
  decide +kernel

/-- Loading a solution that is no text comes to neither projects nor a failure that names a path. -/
theorem undecodable_escapes :
    ¬ ∀ (w : Workspace) (ignore : List String) (path : String), '\x00' ∉ path.toList →
    (∃ ps, (loadAll w ignore path).outcome = .ok ps) ∨
      ∃ p cause, (loadAll w ignore path).outcome = .error (.load p cause) := by
  intro h
  have hundecodable : (loadAll (singleFile "Bad.sln" [0xFF]) [] "Bad.sln").outcome =
      .error .undecodable := by
    decide +kernel
  rcases h (singleFile "Bad.sln" [0xFF]) [] "Bad.sln" (by decide) with ⟨ps, hps⟩ | ⟨p, cause, hload⟩
  · exact nomatch hundecodable.symm.trans hps
  · exact nomatch hundecodable.symm.trans hload

end MemberHarvest.Project
