import MemberHarvest.Proofs.Project.Reloading
import MemberHarvest.Proofs.Workspace.Roundabout

/-!
# Proofs/Project/Roundabout — a project with a roundabout item

A project file whose only item goes round is loaded just where nothing beside it is too long to be
looked at from the end of the roundabout (`exists_loadAll_iff`). So it may be loaded before a file
is written beside it, and not afterwards.
-/

namespace MemberHarvest.Project

open Outcome
open MemberHarvest.Path (Place)

variable {w u : Workspace} {d : Place} {target : Path} {k : Nat} {n path : String}
  {ignore : List String}

/-- The only item of a project file goes round. -/
structure GoesRound (w : Workspace) (target : Path) (k : Nat) : Prop where
  isFile : w.isFile target = .ok true
  reads : ∃ es, readElements w (w.resolve target) = .ok es ∧ included es = [Glob.roundaboutItem k] ∧
    es.any namesKit = false

/-- The item still goes round after a foreign file was written. -/
theorem GoesRound.of_replaced (h : GoesRound w target k) (hu : w.Replaced u d) (hd : IsForeign d)
    (htarget : IsKnown target) : GoesRound u target k := by
  obtain ⟨es, hes, hitem⟩ := h.reads
  have hes' := (readElements_repeats hu hd (isKnown_resolve h.isFile htarget)).eq_ok hes
  exact ⟨hu.isFile_of_isFile h.isFile, es, hu.resolve_eq target ▸ hes', hitem⟩

/-- The roundabout item is searched for, since it has a wildcard. -/
theorem expand_roundaboutItem (w : Workspace) (base : Path) (k : Nat) :
    expand w base (Glob.roundaboutItem k) = globSources w base (Glob.roundaboutItem k) := by
  have hglob : (Glob.roundaboutItem k).toList.any (fun c => c == '*' || c == '?') = true := by
    rw [Glob.roundaboutItem, String.toList_ofList, List.any_eq_true]
    exact ⟨'*', Glob.star_mem_roundaboutText k, by decide⟩
  have hslashes : String.ofList (Path.slashes (Glob.roundaboutItem k).toList) =
      Glob.roundaboutItem k := by
    rw [Glob.roundaboutItem, String.toList_ofList, Glob.slashes_roundaboutText]
  rw [expand, hglob, if_pos rfl, hslashes]

/-- **Loading the project is a search for its item.** The project file has no other item, and it
gives no files by itself. -/
theorem outcome_load_roundabout (h : GoesRound w target k) : ∃ keep : Path → Bool, ∀ ignore name?,
    (load w ignore name? target).outcome =
      (fun files => ⟨nameOf name? (w.resolve target), w.resolve target,
        entriesOf (w.resolve target).parent ignore (files.eraseDups.filter keep)⟩) <$>
          globSources w (w.resolve target).parent (Glob.roundaboutItem k) := by
  obtain ⟨es, hes, hitem, hkit⟩ := h.reads
  refine ⟨fun p => !Ignore.isIgnored (removed es) ((w.resolve target).parent.relativeText p),
    fun ignore name? => ?_⟩
  rw [outcome_load, h.isFile, hes]
  have hselected : selected w (w.resolve target).parent es =
      (fun files => files.eraseDups.filter fun p =>
        !Ignore.isIgnored (removed es) ((w.resolve target).parent.relativeText p)) <$>
          globSources w (w.resolve target).parent (Glob.roundaboutItem k) := by
    rw [selected, hkit, hitem, List.mapM_cons, expand_roundaboutItem]
    cases globSources w (w.resolve target).parent (Glob.roundaboutItem k) with
    | error e => rfl
    | ok files => simp [bind, Except.bind, pure, Except.pure, Functor.map, Except.map]
  change (selected w (w.resolve target).parent es >>= _) = _
  rw [hselected]
  cases globSources w (w.resolve target).parent (Glob.roundaboutItem k) <;> rfl

/-- A single project file is loaded as one project. -/
theorem outcome_loadAll_of_csproj (hhome : w.expandHome (.ofString path) = .ok target)
    (hfile : w.isFile target = .ok true) (hsln : target.hasSuffix ".sln" = false)
    (hcsproj : target.hasSuffix ".csproj" = true) (ignore : List String) :
    (loadAll w ignore path).outcome = (fun project => [project]) <$>
      (load w ignore none target).outcome := by
  obtain ⟨bytes, hbytes⟩ := Workspace.isFile_eq_ok_true_iff.1 hfile
  rw [outcome_loadAll, hhome]
  change (loadNode w ignore target).outcome = _
  rw [outcome_loadNode, Workspace.isDirectory_of_readBytes hbytes, hfile]
  simp only [bind, Except.bind, Bool.false_eq_true, if_false, if_true, hsln, hcsproj]
  cases (load w ignore none target).outcome <;> rfl

/-- A glob finds no source files where there are none. -/
theorem globSources_eq_nil {base : Path} {pattern : String} {files : List Path}
    (hnone : ∀ q, w.tree.isFile q = true → isSource (.ofPlace q) = false)
    (h : globSources w base pattern = .ok files) : files = [] := by
  rw [globSources_eq] at h
  obtain ⟨found, hfound, rfl⟩ := map_eq_ok_iff.1 h
  have hfilter : found.filter (fun p => isSource p && !isBuildOutput base p) = [] := by
    refine List.filter_eq_nil_iff.2 fun f hf hkept => ?_
    have hsource : isSource f = true := (Bool.and_eq_true _ _ ▸ hkept).1
    obtain ⟨-, -, -, hfile⟩ := Workspace.reaches_of_mem_glob hfound hf
    obtain ⟨bytes, hbytes⟩ := Workspace.isFile_eq_ok_true_iff.1 hfile
    obtain ⟨-, place, hplace, hnode⟩ := Workspace.readBytes_eq_ok_iff.1 hbytes
    have hname : (Path.ofPlace place).name = f.name := by
      rw [FileTree.locate_eq_placeOf hplace]
      exact Workspace.name_resolve hfile (names_ne_nil_of_isKnown (isKnown_of_isSource hsource))
    have hnot := hnone place (FileTree.isFile_iff.2 ⟨bytes, hnode⟩)
    simp only [isSource, Path.hasSuffix, Path.suffix, hname] at hsource hnot
    exact Bool.false_ne_true (hnot.symm.trans hsource)
  rw [hfilter, List.map_nil, Path.sort, List.mergeSort_nil]

/-- **The search comes to an end just where nothing beside the project file is too long to be looked
at.** The search goes round through the only directory beside it. -/
theorem exists_globSources_iff {place : Place} (hdir : w.tree.isDirectory place = true)
    (hn : ∀ m, w.tree.isDirectory (place ++ [m]) = true ↔ m = n)
    (hshort : ¬ (Workspace.rounds n k (.ofPlace place)).IsLong) :
    (∃ files, globSources w (.ofPlace place) (Glob.roundaboutItem k) = .ok files) ↔
      ∀ m, (w.tree.find? (place ++ [m])).isSome = true →
        ¬ ((Workspace.rounds n k (.ofPlace place)).child m).IsLong := by
  have hstart : w.StartsAt (.ofPlace place) place := Workspace.startsAt_ofPlace hdir
  have hbase := hstart.isDirectory_eq_ok fun hlong => hshort (Workspace.isLong_rounds hlong n k)
  rw [globSources_eq, exists_map_eq_ok_iff,
    Workspace.glob_of_isDirectory hbase (Glob.ofString_roundaboutItem k),
    exists_map_eq_ok_iff, hstart.exists_follow_roundabout_iff hn hshort]

/-- **A project with a roundabout item is loaded just where nothing beside its file is too long to
be looked at** from the end of the roundabout. -/
theorem exists_loadAll_iff (h : GoesRound w target k)
    (hhome : w.expandHome (.ofString path) = .ok target) (hsln : target.hasSuffix ".sln" = false)
    (hcsproj : target.hasSuffix ".csproj" = true) {place : Place}
    (hplace : (w.resolve target).parent = .ofPlace place) (hdir : w.tree.isDirectory place = true)
    (hn : ∀ m, w.tree.isDirectory (place ++ [m]) = true ↔ m = n)
    (hshort : ¬ (Workspace.rounds n k (.ofPlace place)).IsLong) (ignore : List String) :
    (∃ projects, (loadAll w ignore path).outcome = .ok projects) ↔
      ∀ m, (w.tree.find? (place ++ [m])).isSome = true →
        ¬ ((Workspace.rounds n k (.ofPlace place)).child m).IsLong := by
  obtain ⟨keep, hload⟩ := outcome_load_roundabout h
  rw [outcome_loadAll_of_csproj hhome h.isFile hsln hcsproj, exists_map_eq_ok_iff, hload,
    exists_map_eq_ok_iff, hplace, exists_globSources_iff hdir hn hshort]

end MemberHarvest.Project
