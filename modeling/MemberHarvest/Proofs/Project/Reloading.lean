import MemberHarvest.Proofs.Path.Ending
import MemberHarvest.Proofs.Project.Discovery
import MemberHarvest.Proofs.Workspace.Revisiting

/-!
# Proofs/Project/Reloading — loading again after a foreign file was written

A file is foreign to a project if its name ends like none of the files that are looked for
(`IsForeign`). Where such a file was written, even below the directories of the solution, every step
of loading comes to what it came to before. The one exception is a glob in a project file, which
looks at whatever fits it: it may come upon the new file by a path that is too long to be looked at
(`Obscures`).
-/

namespace MemberHarvest.Project

open Outcome
open MemberHarvest.Path (Place EndsIn)

variable {w u : Workspace} {d place : Place} {p f base target file : Path} {ignore : List String}

/-! ## Foreign files -/

/-- How the files end that a harvest looks for. -/
def fileEndings : List String := [".cs", ".csx", ".csproj", ".sln"]

/-- A place is not that of a file which a harvest looks for. -/
def IsForeign (d : Place) : Prop := ∀ ext ∈ fileEndings, ¬ EndsIn ext (Path.ofPlace d).name.toList

/-- A path ends like a file that a harvest looks for. -/
def IsKnown (p : Path) : Prop := ∃ ext ∈ fileEndings, EndsIn ext p.name.toList

/-- A file with a known extension has a name. -/
theorem names_ne_nil_of_isKnown (h : IsKnown p) : p.names ≠ [] := by
  intro hnames
  obtain ⟨ext, hext, hends⟩ := h
  rw [Path.name, hnames] at hends
  revert ext
  decide

/-- Where a file that is looked for lies, it has the name of one. -/
theorem isKnown_resolve (hfile : w.isFile p = .ok true) (hp : IsKnown p) :
    IsKnown (w.resolve p) := by
  rw [IsKnown, Workspace.name_resolve hfile (names_ne_nil_of_isKnown hp)]
  exact hp

/-- **A path to a file that is looked for does not lead to a foreign one.** The last name of the
path is that of the place, and it ends otherwise than the document's. -/
theorem placeOf_ne_of_isKnown (hd : IsForeign d) (hp : IsKnown p) (hfile : w.isFile p = .ok true) :
    p.placeOf w.current ≠ d := by
  rintro rfl
  obtain ⟨ext, hext, hends⟩ := isKnown_resolve hfile hp
  exact hd ext hext hends

/-- **A file that is looked for is read again.** The path leads to the same file as before, whose
bytes are still there. -/
theorem readBytes_repeats (h : w.Replaced u d) (hd : IsForeign d) (hp : IsKnown p)
    {P : Workspace.Obstacle → Prop} :
    RepeatsUnless P (w.readBytes p) (u.readBytes p) := by
  intro bytes hbytes
  have hne := placeOf_ne_of_isKnown hd hp (Workspace.isFile_eq_ok_true_iff.2 ⟨bytes, hbytes⟩)
  exact .inl (h.readBytes_of_ne hne hbytes)

theorem isKnown_of_isSource (h : isSource p = true) : IsKnown p := by
  rw [isSource, Bool.or_eq_true] at h
  rcases h with h | h
  · exact ⟨".cs", by decide, Path.endsIn_of_hasSuffix h⟩
  · exact ⟨".csx", by decide, Path.endsIn_of_hasSuffix h⟩

theorem isKnown_of_isProjectName (h : IsProjectName p.name) : IsKnown p := by
  refine ⟨".csproj", by decide, ?_⟩
  have hmap := h.map Char.toLower
  exact hmap

/-! ## Globs -/

/-- **A glob for files that are looked for finds the same ones again,** unless it reaches the new
file by a path that is too long. -/
theorem glob_repeats (h : w.Replaced u d) (hd : IsForeign d) {pattern : String} {keep : Path → Bool}
    (hkeep : ∀ {v : Workspace} {found : List Path}, v.glob base pattern = .ok found →
      ∀ f ∈ found, keep f = true → IsKnown f) :
    RepeatsUnless
      (fun e => ∃ g f, Glob.ofString pattern = .ok g ∧ u.Obscures d g base f ∧
        e = Workspace.tooLong f)
      ((fun found => Path.sort ((found.filter keep).map w.resolve)) <$> w.glob base pattern)
      ((fun found => Path.sort ((found.filter keep).map u.resolve)) <$> u.glob base pattern) := by
  intro files hfiles
  obtain ⟨found, hfound, rfl⟩ := map_eq_ok_iff.1 hfiles
  rcases h.glob_repeats hfound with ⟨found', hfound', hnodup', hnodup, hmem⟩
    | ⟨g, f, hg, hf, herror⟩
  · left
    have hne {v : Workspace} {found : List Path} {f : Path}
        (hfound : v.glob base pattern = .ok found)
        (hf : f ∈ found) (hkept : keep f = true) : f.placeOf v.current ≠ d := by
      obtain ⟨-, -, -, hfile⟩ := Workspace.reaches_of_mem_glob hfound hf
      exact placeOf_ne_of_isKnown hd (hkeep hfound f hf hkept) hfile
    have hperm : (found'.filter keep).Perm (found.filter keep) := by
      refine (List.perm_ext_iff_of_nodup (hnodup'.filter _) (hnodup.filter _)).2 fun f => ?_
      simp only [List.mem_filter]
      refine and_congr_left fun hkept => ⟨fun hf => ?_, fun hf => ?_⟩
      · exact (hmem f (hne hfound' hf hkept)).1 hf
      · exact (hmem f (h.current ▸ hne hfound hf hkept)).2 hf
    have hresolve : u.resolve = w.resolve := funext h.resolve_eq
    rw [hfound', hresolve]
    exact congrArg Except.ok (Path.sort_map_resolve_eq_of_perm hperm)
  · exact .inr ⟨_, ⟨g, f, hg, hf, rfl⟩, map_eq_error_iff.2 herror⟩

/-- Searching for sources is searching, keeping the sources outside of build output, resolving them
and sorting. -/
theorem globSources_eq (w : Workspace) (base : Path) (pattern : String) :
    globSources w base pattern =
    (fun found =>
      Path.sort ((found.filter fun p => isSource p && !isBuildOutput base p).map w.resolve)) <$>
      w.glob base pattern := by
  rw [globSources, map_eq_pure_bind]

/-- **A search for sources finds the same as before the document was replaced,** unless the document
stands where the search must look. -/
theorem globSources_repeats (h : w.Replaced u d) (hd : IsForeign d) (base : Path)
    (pattern : String) :
    RepeatsUnless
      (fun e => ∃ g f, Glob.ofString pattern = .ok g ∧ u.Obscures d g base f ∧
        e = Workspace.tooLong f)
      (globSources w base pattern) (globSources u base pattern) := by
  rw [globSources_eq, globSources_eq]
  refine glob_repeats h hd fun _ f _ hkept => isKnown_of_isSource ?_
  rw [Bool.and_eq_true] at hkept
  exact hkept.1

/-- **Everything below a directory is found again,** since the new file is not too far away from the
root. Only a path that is too long could end the search, and the new file's is not. -/
theorem everything_repeats (h : w.Replaced u d) (hd : IsForeign d)
    (hshort : ¬ (Path.ofPlace d).IsLong) (hplace : w.tree.isDirectory place = true) :
    RepeatsUnless (fun _ => False) (globSources w (.ofPlace place) everything)
      (globSources u (.ofPlace place) everything) := by
  refine (globSources_repeats h hd _ _).mono fun e => ?_
  rintro ⟨g, f, hg, hf, -⟩
  obtain rfl := Except.ok.inj (ofString_everything.symm.trans hg)
  have hstart : u.StartsAt (.ofPlace place) place :=
    Workspace.startsAt_ofPlace ((h.tree.isDirectory_eq place).trans hplace)
  have hresolve : Path.ofPlace (f.placeOf u.current) = f := hstart.resolve_of_reaches hf.reaches
  rw [hf.placeOf_eq] at hresolve
  exact hshort (hresolve.symm ▸ hf.isLong)

/-- **The project files of a directory are found again.** The new file is not among them, and it is
not asked whether it is one. -/
theorem projectFiles_repeats (h : w.Replaced u d) (hd : IsForeign d) (base : Path) :
    RepeatsUnless (fun _ => False) (projectFiles w base) (projectFiles u base) := by
  have hknown {v : Workspace} {f : Path}
      (hf : v.Reaches false [.everywhere, .wild (.any :: ".csproj".toList.map .char)] base f) :
      IsKnown f ∧ (v.resolve f).name = f.name := by
    obtain ⟨hfit, hname⟩ := Workspace.fits_of_reaches hf
    exact ⟨isKnown_of_isProjectName (Pattern.fits_any_iff.1 hfit), hname⟩
  have heq (v : Workspace) : projectFiles v base =
      (fun found => Path.sort ((found.filter fun p => !isBuildOutput base p).map v.resolve)) <$>
        v.glob base "**/*.csproj" := by
    rw [projectFiles, map_eq_pure_bind]
  rw [heq, heq]
  refine (glob_repeats h hd fun hfound f hf _ => ?_).mono fun e => ?_
  · obtain ⟨g, hg, hreach, -⟩ := Workspace.reaches_of_mem_glob hfound hf
    obtain rfl := Except.ok.inj (ofString_projectFiles.symm.trans hg)
    exact (hknown hreach).1
  · rintro ⟨g, f, hg, hf, -⟩
    obtain rfl := Except.ok.inj (ofString_projectFiles.symm.trans hg)
    obtain ⟨⟨ext, hext, hends⟩, hname⟩ := hknown hf.reaches
    have hplace : (Path.ofPlace d).name = f.name := by rw [← hf.placeOf_eq, ← hname]; rfl
    exact hd ext hext (hplace ▸ hends)

/-! ## One project -/

/-- Items of a project file that reach a place by a path that is too long. -/
def ItemObscures (u : Workspace) (d : Place) (base : Path) (es : List Xml.Element) (f : Path) :
    Prop :=
  ∃ item ∈ included es, isGlob item = true ∧ ∃ g, Glob.ofString (globOf item) = .ok g ∧
    u.Obscures d g base f

/-- A project file whose items reach a place by a path that is too long. -/
def FileObscures (u : Workspace) (d : Place) (file f : Path) : Prop :=
  ∃ es, readElements u (u.resolve file) = .ok es ∧ ItemObscures u d (u.resolve file).parent es f

/-- An item stands for the same files as before, under the same condition. -/
theorem expand_repeats (h : w.Replaced u d) (hd : IsForeign d) (base : Path) (item : String) :
    RepeatsUnless (fun e => isGlob item = true ∧ ∃ g f, Glob.ofString (globOf item) = .ok g ∧
      u.Obscures d g base f ∧ e = Workspace.tooLong f) (expand w base item)
        (expand u base item) := by
  rw [expand, expand, h.current]
  split
  · rename_i hglob
    exact (globSources_repeats h hd base _).mono fun e he => ⟨hglob, he⟩
  · exact .refl _

/-- **The same sources are selected as before,** unless an item must look past the document at a
path that is too long. -/
theorem selected_repeats (h : w.Replaced u d) (hd : IsForeign d)
    (hshort : ¬ (Path.ofPlace d).IsLong) (hplace : w.tree.isDirectory place = true)
    (es : List Xml.Element) :
    RepeatsUnless (fun e => ∃ f, ItemObscures u d (.ofPlace place) es f ∧ e = Workspace.tooLong f)
      (selected w (.ofPlace place) es) (selected u (.ofPlace place) es) := by
  have hmore : RepeatsUnless (fun e => ∃ f, ItemObscures u d (.ofPlace place) es f ∧
      e = Workspace.tooLong f)
      ((included es).mapM (expand w (.ofPlace place)))
      ((included es).mapM (expand u (.ofPlace place))) := by
    refine .mapM fun item hitem => (expand_repeats h hd _ item).mono fun e => ?_
    rintro ⟨hglob, g, f, hg, hf, rfl⟩
    exact ⟨f, ⟨item, hitem, hglob, g, hg, hf⟩, rfl⟩
  rw [selected, selected]
  by_cases hkit : es.any namesKit = true
  · rw [if_pos hkit, if_pos hkit]
    have hfirst := everything_repeats h hd hshort hplace
    exact (hfirst.mono fun _ => False.elim).bind fun _ _ => hmore.bind fun _ _ => .refl _
  · rw [if_neg hkit, if_neg hkit]
    exact (RepeatsUnless.refl _).bind fun _ _ => hmore.bind fun _ _ => .refl _

/-- A project file reads as before, since the document is none. -/
theorem readElements_repeats (h : w.Replaced u d) (hd : IsForeign d) (hp : IsKnown p) :
    RepeatsUnless (fun _ => False) (readElements w p) (readElements u p) := by
  rw [readElements, readElements, h.host]
  exact (readBytes_repeats h hd hp).mapError.bind fun _ _ => .refl _

/-- **A project file is loaded again as before,** unless one of its items reaches the new file by a
path that is too long. -/
theorem load_repeats (h : w.Replaced u d) (hd : IsForeign d) (hshort : ¬ (Path.ofPlace d).IsLong)
    (hfile : IsKnown file) (name? : Option String) :
    RepeatsUnless (fun e => ∃ f, FileObscures u d file f ∧ e = Workspace.tooLong f)
      (load w ignore name? file).outcome (load u ignore name? file).outcome := by
  have hresolve := h.resolve_eq file
  rw [outcome_load, outcome_load, hresolve]
  intro project hproject
  obtain ⟨there, hthere, hproject⟩ := bind_eq_ok_iff.1 hproject
  cases there with
  | false => cases hproject
  | true =>
    have hnode : (w.tree.find? (file.placeOf w.current)).isSome = true := by
      obtain ⟨bytes, hbytes⟩ := Workspace.isFile_eq_ok_true_iff.1 hthere
      obtain ⟨-, place, hplace, hnode⟩ := Workspace.readBytes_eq_ok_iff.1 hbytes
      rw [← FileTree.locate_eq_placeOf hplace, hnode]
      rfl
    obtain ⟨es, hes, hproject⟩ := bind_eq_ok_iff.1 hproject
    obtain ⟨files, hfiles, hproject⟩ := bind_eq_ok_iff.1 hproject
    have hes' : readElements u (w.resolve file) = .ok es :=
      (readElements_repeats h hd (isKnown_resolve hthere hfile)).eq_ok hes
    rw [h.isFile_of_isFile hthere]
    have hselected := selected_repeats h hd hshort (FileTree.isDirectory_dropLast hnode) es
    rcases hselected files hfiles with hu | ⟨e, ⟨f, hf, rfl⟩, hu⟩
    · exact .inl (bind_eq_ok_iff.2 ⟨true, rfl,
        bind_eq_ok_iff.2 ⟨es, hes', bind_eq_ok_iff.2 ⟨files, hu, hproject⟩⟩⟩)
    · refine .inr ⟨_, ⟨f, ⟨es, hresolve.symm ▸ hes', hresolve.symm ▸ hf⟩, rfl⟩, ?_⟩
      exact bind_eq_error_iff.2
        (.inr ⟨true, rfl, bind_eq_error_iff.2 (.inr ⟨es, hes', bind_eq_error_iff.2 (.inl hu)⟩)⟩)

/-! ## Several projects -/

theorem isKnown_of_mem_projectFiles {files : List Path} (h : projectFiles w base = .ok files)
    (hmem : file ∈ files) :
    IsKnown file := by
  obtain ⟨found, hfound, hfiles⟩ := bind_eq_ok_iff.1 h
  obtain rfl := Except.ok.inj hfiles
  rw [Path.sort, List.mem_mergeSort, List.mem_map] at hmem
  obtain ⟨f, hf, rfl⟩ := hmem
  obtain ⟨g, hg, hreach, -⟩ := Workspace.reaches_of_mem_glob hfound (List.mem_filter.1 hf).1
  obtain rfl := Except.ok.inj (ofString_projectFiles.symm.trans hg)
  obtain ⟨hfit, hname⟩ := Workspace.fits_of_reaches hreach
  exact isKnown_of_isProjectName (hname.symm ▸ Pattern.fits_any_iff.1 hfit)

/-- The place that a project text names has the last name of the text. -/
theorem name_resolveRelative {raw n : String}
    (hn : (Path.ofProjectText raw).names.getLast? = some n) (hup : n ≠ "..")
    (cwd : Place) : (base.resolveRelative cwd raw).name = n := by
  have hlast : (base.join (Path.ofProjectText raw)).names.getLast? = some n := by
    rw [Path.join]
    split
    · exact hn
    · simp [hn]
  rw [Path.resolveRelative, Path.resolve, Path.placeOf_eq_append hlast hup]
  simp [Path.ofPlace, Path.name]

theorem isKnown_of_mem_listed {entries : List (String × Path)} {entry : String × Path}
    (h : listed w target = .ok entries) (hmem : entry ∈ entries) : IsKnown entry.2 := by
  obtain ⟨bytes, -, h⟩ := bind_eq_ok_iff.1 h
  obtain ⟨text, -, h⟩ := bind_eq_ok_iff.1 h
  obtain ⟨line, hline, hentry⟩ := exists_of_mem_mapM h hmem
  obtain ⟨located, hlocated, hentry⟩ := bind_eq_ok_iff.1 hentry
  obtain rfl := Except.ok.inj hentry
  rw [locate] at hlocated
  split at hlocated
  · cases hlocated
  obtain rfl := Except.ok.inj hlocated
  have hraw : EndsIn ".csproj" (String.ofList line.2).toList := by
    rw [String.toList_ofList]
    exact List.isSuffixOf_iff_suffix.1 (List.mem_filter.1 hline).2
  have hsolid : (".csproj".toList.all fun c => !Text.isBlank c) = true := by decide
  have hblank : ∀ c ∈ ".csproj".toList, Text.isBlank c = false := by simpa using hsolid
  have hends := Path.endsIn_name_ofProjectText (by decide) (by decide) hblank (by decide) hraw
  have hne : (Path.ofProjectText (String.ofList line.2)).names ≠ [] :=
    names_ne_nil_of_isKnown ⟨".csproj", by decide, hends⟩
  have hlast := List.getLast?_eq_some_getLast hne
  rw [Path.name_eq hlast] at hends
  refine ⟨".csproj", by decide, ?_⟩
  rw [name_resolveRelative hlast]
  · exact hends
  · intro hup
    rw [hup] at hends
    exact absurd hends (by decide)

/-- **A solution lists its projects again.** It is read from the same bytes. -/
theorem listed_repeats (h : w.Replaced u d) (hd : IsForeign d) (htarget : IsKnown target) :
    RepeatsUnless (fun _ => False) (listed w target) (listed u target) := by
  rw [listed, listed, h.current]
  exact (readBytes_repeats h hd htarget).mapError.bind fun _ _ => .refl _

/-- A path stands for a project file whose items reach a place by a path that is too long. -/
def TargetObscures (u : Workspace) (d : Place) (target : Path) (e : Failure) : Prop :=
  ∃ file f, StandsFor u target file ∧ FileObscures u d file f ∧
    e = .refused ⟨.nameTooLong, f.toString, none⟩

/-- A project that stands for a target loads as before, unless the document obscures the target. -/
theorem load_repeats_of_standsFor (h : w.Replaced u d) (hd : IsForeign d)
    (hshort : ¬ (Path.ofPlace d).IsLong) (hfile : IsKnown file) (hstands : StandsFor u target file)
    (name? : Option String) :
    RepeatsUnless (TargetObscures u d target)
      (load w ignore name? file).outcome (load u ignore name? file).outcome :=
  (load_repeats h hd hshort hfile name?).mono fun _ ⟨f, hf, he⟩ => ⟨file, f, hstands, hf, he⟩

theorem loadDirectory_repeats (h : w.Replaced u d) (hd : IsForeign d)
    (hshort : ¬ (Path.ofPlace d).IsLong) (htarget : w.isDirectory target = .ok true) :
    RepeatsUnless (TargetObscures u d target) (loadDirectory w ignore target).outcome
      (loadDirectory u ignore target).outcome := by
  have hfiles := (projectFiles_repeats h hd target).mono (Q := TargetObscures u d target) fun _ =>
    False.elim
  rw [outcome_loadDirectory, outcome_loadDirectory, h.resolve_eq]
  refine hfiles.bind fun files hfound => ?_
  cases files with
  | nil =>
    have heverything := everything_repeats h hd hshort (Workspace.locate_of_isDirectory htarget).2
    exact (heverything.mono fun _ => False.elim).bind fun _ _ => .refl _
  | cons file files =>
    have hfound' : projectFiles u target = .ok (file :: files) :=
      (projectFiles_repeats h hd target).eq_ok hfound
    refine .mapM fun file hmem => ?_
    exact load_repeats_of_standsFor h hd hshort (isKnown_of_mem_projectFiles hfound hmem)
      (.found ((h.isDirectory_eq target).trans htarget) hfound' hmem) none

/-- A file loads as before, be it a solution, a project or neither. -/
theorem loadFile_repeats (h : w.Replaced u d) (hd : IsForeign d)
    (hshort : ¬ (Path.ofPlace d).IsLong) :
    RepeatsUnless (TargetObscures u d target)
      (if target.hasSuffix ".sln" then do
        (← listed w target).mapM fun entry => (load w ignore (some entry.1) entry.2).outcome
      else if target.hasSuffix ".csproj" then return [← (load w ignore none target).outcome]
      else .error (.load target .unsupported))
      (if target.hasSuffix ".sln" then do
        (← listed u target).mapM fun entry => (load u ignore (some entry.1) entry.2).outcome
      else if target.hasSuffix ".csproj" then return [← (load u ignore none target).outcome]
      else .error (.load target .unsupported)) := by
  by_cases hsln : target.hasSuffix ".sln" = true
  · rw [if_pos hsln, if_pos hsln]
    have hknown : IsKnown target := ⟨".sln", by decide, Path.endsIn_of_hasSuffix hsln⟩
    have hlisted := (listed_repeats h hd hknown).mono (Q := TargetObscures u d target) fun _ =>
      False.elim
    refine hlisted.bind fun entries hentries => .mapM fun entry hmem => ?_
    have hentries' : listed u target = .ok entries :=
      (listed_repeats h hd hknown).eq_ok hentries
    exact load_repeats_of_standsFor h hd hshort (isKnown_of_mem_listed hentries hmem)
      (.listed hsln hentries' hmem) _
  · rw [if_neg hsln, if_neg hsln]
    split
    · rename_i hcsproj
      have hknown : IsKnown target := ⟨".csproj", by decide, Path.endsIn_of_hasSuffix hcsproj⟩
      exact (load_repeats_of_standsFor h hd hshort hknown (.itself hcsproj) none).bind fun _ _ =>
        .refl _
    · exact .refl _

/-- **Whatever the target is, it loads as before.** If something obscures the target, then the
failure tells the path by which the document was found. -/
theorem loadNode_repeats (h : w.Replaced u d) (hd : IsForeign d)
    (hshort : ¬ (Path.ofPlace d).IsLong) (target : Path) :
    RepeatsUnless (TargetObscures u d target) (loadNode w ignore target).outcome
      (loadNode u ignore target).outcome := by
  rw [outcome_loadNode, outcome_loadNode, h.isDirectory_eq]
  refine (RepeatsUnless.refl _).bind fun isDirectory hdirectory => ?_
  cases isDirectory with
  | true => exact loadDirectory_repeats h hd hshort hdirectory
  | false =>
    cases hfile : w.isFile target with
    | error e => exact .of_error e _
    | ok isFile =>
      cases isFile with
      | false => exact .of_error _ _
      | true =>
        rw [h.isFile_of_isFile hfile]
        exact (RepeatsUnless.refl (.ok true)).bind fun there hthere => by
          rw [← Except.ok.inj hthere, if_pos rfl, if_pos rfl]
          exact loadFile_repeats h hd hshort

/-- **The projects behind a path are loaded again as before,** unless an item of a project file
reaches the new file by a path that is too long. -/
theorem loadAll_repeats (h : w.Replaced u d) (hd : IsForeign d) (hshort : ¬ (Path.ofPlace d).IsLong)
    (path : String) :
    RepeatsUnless (fun e => ∃ target, u.expandHome (.ofString path) = .ok target ∧
      TargetObscures u d target e)
      (loadAll w ignore path).outcome (loadAll u ignore path).outcome := by
  rw [outcome_loadAll, outcome_loadAll, h.expandHome_eq]
  refine (RepeatsUnless.refl _).bind fun target htarget => ?_
  exact (loadNode_repeats h hd hshort target).mono fun e he => ⟨target, htarget, he⟩

/-! ## The sources of loaded projects -/

/-- The entries of a project are those of files that it was loaded with. -/
def HasEntries (ignore : List String) (project : Project) : Prop :=
  ∃ base files, project.entries = entriesOf base ignore files

/-- The entries of a project that is loaded are those of the files it was loaded with. -/
theorem hasEntries_of_load {name? : Option String} {project : Project}
    (h : (load w ignore name? file).outcome = .ok project) : HasEntries ignore project := by
  rw [outcome_load] at h
  obtain ⟨there, -, h⟩ := bind_eq_ok_iff.1 h
  cases there with
  | false => exact nomatch h
  | true =>
    obtain ⟨es, -, h⟩ := bind_eq_ok_iff.1 h
    obtain ⟨files, -, h⟩ := bind_eq_ok_iff.1 h
    exact ⟨_, files, by rw [← Except.ok.inj h]⟩

theorem hasEntries_of_loadDirectory {ps : List Project}
    (h : (loadDirectory w ignore target).outcome = .ok ps) :
    ∀ project ∈ ps, HasEntries ignore project := by
  rw [outcome_loadDirectory] at h
  obtain ⟨files, -, h⟩ := bind_eq_ok_iff.1 h
  intro project hproject
  cases files with
  | nil =>
    obtain ⟨found, -, h⟩ := bind_eq_ok_iff.1 h
    obtain rfl := Except.ok.inj h
    obtain rfl := List.mem_singleton.1 hproject
    exact ⟨_, found, rfl⟩
  | cons file files =>
    obtain ⟨file, -, hload⟩ := exists_of_mem_mapM h hproject
    exact hasEntries_of_load hload

/-- **The entries of whatever is loaded are those of files that it was loaded with.** -/
theorem hasEntries_of_loadNode {ps : List Project}
    (h : (loadNode w ignore target).outcome = .ok ps) :
    ∀ project ∈ ps, HasEntries ignore project := by
  rw [outcome_loadNode] at h
  obtain ⟨isDirectory, -, h⟩ := bind_eq_ok_iff.1 h
  cases isDirectory with
  | true => exact hasEntries_of_loadDirectory h
  | false =>
    obtain ⟨isFile, -, h⟩ := bind_eq_ok_iff.1 h
    cases isFile with
    | false => exact nomatch h
    | true =>
      intro project hproject
      rw [if_pos rfl] at h
      split at h
      · obtain ⟨entries, -, h⟩ := bind_eq_ok_iff.1 h
        obtain ⟨entry, -, hload⟩ := exists_of_mem_mapM h hproject
        exact hasEntries_of_load hload
      · split at h
        · obtain ⟨loaded, hload, h⟩ := bind_eq_ok_iff.1 h
          obtain rfl := Except.ok.inj h
          obtain rfl := List.mem_singleton.1 hproject
          exact hasEntries_of_load hload
        · exact nomatch h

/-- **The source files of loaded projects are files that are looked for.** So none of them is the
document. -/
theorem isKnown_of_mem_sourcePaths {path : String} {ps : List Project}
    (h : (loadAll w ignore path).outcome = .ok ps) {project : Project} (hproject : project ∈ ps)
    (hf : f ∈ project.sourcePaths) : IsKnown f := by
  rw [outcome_loadAll] at h
  obtain ⟨target, -, h⟩ := bind_eq_ok_iff.1 h
  obtain ⟨base, files, hentries⟩ := hasEntries_of_loadNode h project hproject
  rw [sourcePaths, hentries] at hf
  obtain ⟨e, he, rfl⟩ := List.mem_map.1 hf
  obtain ⟨he, hregular⟩ := List.mem_filter.1 he
  obtain ⟨p, -, rfl⟩ := List.mem_map.1 he
  rw [Bool.and_eq_true] at hregular
  have hends : EndsIn ".cs" p.name.toList := Path.endsIn_of_hasSuffix hregular.1
  have hnames : p.names ≠ [] := names_ne_nil_of_isKnown ⟨".cs", by decide, hends⟩
  refine ⟨".cs", by decide, Path.endsIn_name_ofString (by decide) (by decide) ?_⟩
  exact Path.endsIn_of_suffix hends (Path.suffix_toString hnames)

end MemberHarvest.Project
