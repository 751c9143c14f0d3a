import MemberHarvest.Proofs.Project.Locating
import MemberHarvest.Proofs.Project.Solution

/-!
# Proofs/Project/Spelling — what a path names, and how it is spelled

A path may be spelled in many ways: from the current directory or from the root, with detours and
with slashes to spare. Loading asks a path for the node that it names, for its last name, and for
what lies beside it or below it, and every spelling gives the same answers (`Spells`). So the
outcome is the same, but for the spelling that a failure quotes (`loadAll_spelling`). Two things
depend on the spelling itself: a path that begins with `~` leads to a home directory, and a search
of a directory ends at a path that is spelled in too long a way (`spelling_matters`).
-/

namespace MemberHarvest

open Outcome
open MemberHarvest.Path (Place)

/-- A path that begins with `~` leads to a home directory. -/
def Path.LeadsHome (p : Path) : Prop :=
  p.anchor = .here ∧ (p.names.head?.bind fun n => n.toList.head?) = some '~'

instance : DecidablePred Path.LeadsHome := fun _ => inferInstanceAs (Decidable (_ ∧ _))

/-- Any other path starts from no account. -/
theorem Path.account?_of_not_leadsHome {p : Path} (h : ¬ p.LeadsHome) : p.account? = none := by
  rw [account?]
  split
  · rename_i n ns hanchor hnames
    split
    · rename_i name hn
      exact absurd ⟨hanchor, by rw [hnames, List.head?_cons, Option.bind_some, hn, List.head?_cons]⟩
        h
    · rfl
  · rfl

/-- A path without `~` in front is left alone. -/
theorem Workspace.expandHome_of_not_leadsHome {p : Path} (h : ¬ p.LeadsHome) (w : Workspace) :
    w.expandHome p = .ok p := by
  rw [expandHome, Path.account?_of_not_leadsHome h]

namespace Project

variable {w : Workspace} {place : Place} {s t : String}

/-- A text spells the place of a node: it leads there, and not from a home directory. -/
structure Spells (w : Workspace) (s : String) (place : Place) : Prop where
  stays : ¬ (Path.ofString s).LeadsHome
  locate : w.locate (.ofString s) = .ok place
  isSome : (w.tree.find? place).isSome = true

instance (w : Workspace) (s : String) (place : Place) : Decidable (Spells w s place) :=
  decidable_of_iff (¬ (Path.ofString s).LeadsHome ∧ w.locate (.ofString s) = .ok place ∧
      (w.tree.find? place).isSome = true)
    ⟨fun ⟨stays, locate, isSome⟩ => ⟨stays, locate, isSome⟩, fun h => ⟨h.stays, h.locate, h.isSome⟩⟩

/-- Two outcomes agree: they are one, or they fail for the same cause, each for a path of its
own. -/
inductive Agree : Except Failure (List Project) → Except Failure (List Project) → Prop
  | same (outcome : Except Failure (List Project)) : Agree outcome outcome
  | load (p p' : Path) (cause : LoadCause) :
    Agree (.error (.load p cause)) (.error (.load p' cause))
  | refused (s t : String) (cause : FileTree.Cause) :
    Agree (.error (.refused ⟨cause, s, none⟩)) (.error (.refused ⟨cause, t, none⟩))

/-- Projects agree with nothing else. -/
theorem Agree.eq_of_ok {ps : List Project} {outcome : Except Failure (List Project)}
    (h : Agree outcome (.ok ps)) :
    outcome = .ok ps := by
  cases h
  rfl

/-! ## What is asked of a path -/

namespace Spells

theorem expandHome (h : Spells w s place) : w.expandHome (.ofString s) = .ok (.ofString s) :=
  Workspace.expandHome_of_not_leadsHome h.stays w

theorem walk (h : Spells w s place) :
    w.tree.walk (w.start (.ofString s)) (Path.ofString s).names = .ok place :=
  (Workspace.walk_of_locate h.locate).2

theorem holdsNul (h : Spells w s place) : (Path.ofString s).holdsNul = false :=
  FileTree.holdsNul_of_walk h.walk _

theorem placeOf_eq (h : Spells w s place) : (Path.ofString s).placeOf w.current = place :=
  (FileTree.locate_eq_placeOf h.locate).symm

/-- All spellings of a place are resolved alike. -/
theorem resolve_eq (h : Spells w s place) : w.resolve (.ofString s) = .ofPlace place :=
  congrArg Path.ofPlace h.placeOf_eq

/-- What is asked of a path is asked of its place. -/
theorem probe_eq (h : Spells w s place) (test : Place → Bool) :
    w.probe test (.ofString s) = .ok (test place) := by
  rw [Workspace.probe, h.holdsNul, h.locate]
  rfl

/-- All spellings of a file read the same bytes. -/
theorem readBytes_eq (h : Spells w s place) {bytes : Text.Bytes}
    (hfile : w.tree.find? place = some (.file bytes)) :
    w.readBytes (.ofString s) = .ok bytes :=
  Workspace.readBytes_eq_ok_iff.2 ⟨h.holdsNul, place, h.locate, hfile⟩

/-- Only directories are named by an anchor alone. -/
theorem names_ne_nil (hcurrent : w.tree.isDirectory w.current = true) (h : Spells w s place)
    (hfile : w.tree.isDirectory place = false) : (Path.ofString s).names ≠ [] := by
  intro hnil
  have hwalk := h.walk
  rw [hnil] at hwalk
  have hstart : w.tree.isDirectory (w.start (.ofString s)) = true := by
    rw [Workspace.start]
    split
    · simp [FileTree.isDirectory]
    · exact hcurrent
  rw [Except.ok.inj hwalk, hfile] at hstart
  cases hstart

/-- **The last name of a path to a file is the file's own,** so that every spelling has the same
extension. This needs a file, since a directory may be spelled with dots at the end. -/
theorem getLast?_eq (hcurrent : w.tree.isDirectory w.current = true) (h : Spells w s place)
    (hfile : w.tree.isDirectory place = false) :
    (Path.ofString s).names.getLast? = place.getLast? :=
  (FileTree.getLast?_of_walk h.walk (h.names_ne_nil hcurrent hfile) hfile).symm

/-- They have the same extension, since the last name of a file's spelling is the file's name. -/
theorem hasSuffix_eq (hcurrent : w.tree.isDirectory w.current = true) (h : Spells w s place)
    (hfile : w.tree.isDirectory place = false) (ext : String) :
    (Path.ofString s).hasSuffix ext = (Path.ofPlace place).hasSuffix ext := by
  have hname : (Path.ofString s).name = (Path.ofPlace place).name :=
    congrArg (·.getD "") (h.getLast?_eq hcurrent hfile)
  rw [Path.hasSuffix, Path.hasSuffix, Path.suffix, Path.suffix, hname]

/-- What lies beside a file is looked for in one place. -/
theorem placeOf_parent (hcurrent : w.tree.isDirectory w.current = true) (h : Spells w s place)
    (hfile : w.tree.isDirectory place = false) :
    (Path.ofString s).parent.placeOf w.current = place.dropLast := by
  have hlast := h.getLast?_eq hcurrent hfile
  obtain ⟨n, hn⟩ := Option.ne_none_iff_exists'.1
    (List.getLast?_eq_none_iff.not.2 (h.names_ne_nil hcurrent hfile))
  have hmem : n ∈ place := List.mem_of_getLast? (hlast ▸ hn)
  have hup : n ≠ ".." := (FileTree.isName_iff.1 (FileTree.isName_of_mem h.isSome n hmem)).2.2.1
  rw [← h.placeOf_eq, Path.placeOf_eq_append hn hup, List.dropLast_concat]

/-! ## Files -/

theorem isFile_of_not_isDirectory (h : Spells w s place)
    (hfile : w.tree.isDirectory place = false) :
    w.tree.isFile place = true :=
  (FileTree.isDirectory_or_isFile h.isSome).resolve_left (by simp [hfile])

/-- A file is loaded by its extension. -/
theorem outcome_of_isFile (h : Spells w s place) (hfile : w.tree.isDirectory place = false)
    (ignore : List String) :
    (loadAll w ignore s).outcome =
      if (Path.ofString s).hasSuffix ".sln" then do
        (← listed w (.ofString s)).mapM fun entry => (load w ignore (some entry.1) entry.2).outcome
      else if (Path.ofString s).hasSuffix ".csproj" then do
        return [← (load w ignore none (.ofString s)).outcome]
      else .error (.load (.ofString s) .unsupported) := by
  rw [outcome_loadAll, h.expandHome, ok_bind, outcome_loadNode, Workspace.isDirectory,
    h.probe_eq, hfile, ok_bind, if_neg Bool.false_ne_true, Workspace.isFile, h.probe_eq,
    h.isFile_of_not_isDirectory hfile, ok_bind, if_pos rfl]

/-- **A solution lists the same projects, however it is spelled.** The directory of the solution is
resolved before a project is located from it. -/
theorem listed_eq (hcurrent : w.tree.isDirectory w.current = true) (hs : Spells w s place)
    (ht : Spells w t place) (hfile : w.tree.isDirectory place = false) :
    listed w (.ofString s) = listed w (.ofString t) := by
  obtain ⟨bytes, hnode⟩ := FileTree.isFile_iff.1 (hs.isFile_of_not_isDirectory hfile)
  have hlocate (raw : String) : Project.locate w.current (Path.ofString s).parent raw =
      Project.locate w.current (Path.ofString t).parent raw := by
    rw [locate_eq (Path.holdsNul_parent hs.holdsNul), locate_eq (Path.holdsNul_parent ht.holdsNul),
      Path.resolveRelative_eq, Path.resolveRelative_eq, hs.placeOf_parent hcurrent hfile,
      ht.placeOf_parent hcurrent hfile]
  simp only [listed, hs.readBytes_eq hnode, ht.readBytes_eq hnode, hlocate, Except.mapError]

/-- **A project file is loaded as the same project, however it is spelled.** The path is resolved
first, and everything else depends on the resolved one. -/
theorem outcome_load_eq (hs : Spells w s place) (ht : Spells w t place)
    (hfile : w.tree.isDirectory place = false) (ignore : List String) :
    (load w ignore none (.ofString s)).outcome = (load w ignore none (.ofString t)).outcome := by
  rw [outcome_load, outcome_load, Workspace.isFile, Workspace.isFile, hs.probe_eq,
    ht.probe_eq, hs.resolve_eq, ht.resolve_eq, hs.isFile_of_not_isDirectory hfile]
  rfl

/-- **All spellings of a file load alike.** -/
theorem agree_of_isFile (hcurrent : w.tree.isDirectory w.current = true) (hs : Spells w s place)
    (ht : Spells w t place) (hfile : w.tree.isDirectory place = false) (ignore : List String) :
    Agree (loadAll w ignore s).outcome (loadAll w ignore t).outcome := by
  rw [hs.outcome_of_isFile hfile, ht.outcome_of_isFile hfile]
  simp only [hs.hasSuffix_eq hcurrent hfile, ht.hasSuffix_eq hcurrent hfile]
  split
  · rw [listed_eq hcurrent hs ht hfile]
    exact .same _
  split
  · rw [outcome_load_eq hs ht hfile]
    exact .same _
  · -- the file is neither, and each failure quotes its own spelling
    exact .load _ _ _

/-! ## Directories -/

theorem isDirectory_eq (h : Spells w s place) (hdir : w.tree.isDirectory place = true) :
    w.isDirectory (.ofString s) = .ok true := by
  rw [Workspace.isDirectory, h.probe_eq, hdir]

theorem startsAt (h : Spells w s place) (hdir : w.tree.isDirectory place = true) :
    w.StartsAt (.ofString s) place :=
  ⟨h.holdsNul, h.walk, hdir⟩

/-- A directory is loaded as one, however it is spelled. -/
theorem outcome_of_isDirectory (h : Spells w s place) (hdir : w.tree.isDirectory place = true)
    (ignore : List String) :
    (loadAll w ignore s).outcome = (loadDirectory w ignore (.ofString s)).outcome :=
  outcome_loadAll_of_isDirectory ignore h.expandHome (h.isDirectory_eq hdir)

/-- **What is in reach below a directory is loaded in the same way from every spelling.** The files
that a search finds are resolved, and so they do not show how it was started. -/
theorem outcome_loadAll_eq (hs : Spells w s place) (ht : Spells w t place)
    (hdir : w.tree.isDirectory place = true) (hreach : InReach w (.ofString s) IsProjectName)
    (hreach' : InReach w (.ofString t) IsProjectName) (ignore : List String) :
    (loadAll w ignore s).outcome = (loadAll w ignore t).outcome := by
  obtain ⟨projects, hprojects⟩ : ∃ qs, Path.Lists (IsProjectFile w place) qs :=
    exists_lists fun q hq => hq.1.isFile
  rw [hs.outcome_of_isDirectory hdir, ht.outcome_of_isDirectory hdir, outcome_loadDirectory,
    outcome_loadDirectory, projectFiles_of_inReach (hs.startsAt hdir) hreach hprojects,
    projectFiles_of_inReach (ht.startsAt hdir) hreach' hprojects, hs.resolve_eq, ht.resolve_eq]

/-- What is out of reach from a spelling is not loaded. -/
theorem exists_outOfReach (h : Spells w s place) (hdir : w.tree.isDirectory place = true)
    (hreach : ¬ InReach w (.ofString s) IsProjectName) (ignore : List String) :
    ∃ e, OutOfReach w (.ofString s) IsProjectName e ∧ (loadAll w ignore s).outcome = .error e := by
  rw [h.outcome_of_isDirectory hdir]
  exact loadDirectory_of_not_inReach (h.startsAt hdir) ignore hreach

/-- **Two spellings of a directory load alike if both or neither of them have their project files in
reach.** -/
theorem agree_of_isDirectory (hs : Spells w s place) (ht : Spells w t place)
    (hdir : w.tree.isDirectory place = true) (hreach : InReach w (.ofString s) IsProjectName ↔
    InReach w (.ofString t) IsProjectName) (ignore : List String) :
    Agree (loadAll w ignore s).outcome (loadAll w ignore t).outcome := by
  by_cases hsreach : InReach w (.ofString s) IsProjectName
  · rw [outcome_loadAll_eq hs ht hdir hsreach (hreach.1 hsreach)]
    exact .same _
  · obtain ⟨_, ⟨q, -, -, rfl⟩, hserror⟩ := hs.exists_outOfReach hdir hsreach ignore
    obtain ⟨_, ⟨q', -, -, rfl⟩, hterror⟩ := ht.exists_outOfReach hdir (hreach.not.1 hsreach) ignore
    rw [hserror, hterror]
    exact .refused _ _ _

end Spells

/-! ## Every spelling -/

/-- **What a path names decides what is loaded, and not how it is spelled.** All spellings of a file
or directory come to the same projects, or they fail for the same cause, as long as none of them
leads to a home directory. From one spelling of a directory, its search may come to a path that is
too long, and from another one not. Then it ends in the refusal of that path. -/
theorem loadAll_spelling (hcurrent : w.tree.isDirectory w.current = true) (hs : Spells w s place)
    (ht : Spells w t place) (ignore : List String) :
    ((w.tree.isDirectory place = true →
        (InReach w (.ofString s) IsProjectName ↔ InReach w (.ofString t) IsProjectName)) →
      Agree (loadAll w ignore s).outcome (loadAll w ignore t).outcome) ∧
    (w.tree.isDirectory place = true → ¬ InReach w (.ofString s) IsProjectName →
      ∃ e, OutOfReach w (.ofString s) IsProjectName e ∧
        (loadAll w ignore s).outcome = .error e) := by
  refine ⟨fun hreach => ?_, fun hdir hreach => hs.exists_outOfReach hdir hreach ignore⟩
  cases hdir : w.tree.isDirectory place with
  | false => exact Spells.agree_of_isFile hcurrent hs ht hdir ignore
  | true => exact Spells.agree_of_isDirectory hs ht hdir (hreach hdir) ignore

/-- A spelling with empty names, a dot and a way back, beside the absolute one. -/
theorem loadAll_spelling_roundabout :
    Spells (mainProject []) ".//S/../S/" ["S"] ∧ Spells (mainProject []) "/S" ["S"] ∧
      (loadAll (mainProject []) [] ".//S/../S/").outcome =
        .ok [⟨"Main", .ofPlace ["S", "Main.csproj"], []⟩] := by
  have hs : Spells (mainProject []) ".//S/../S/" ["S"] := by decide
  have ht : Spells (mainProject []) "/S" ["S"] := by decide
  have hsreach : InReach (mainProject []) (.ofString ".//S/../S/") IsProjectName :=
    (inReach_mainProject_iff (by simp) (by decide)).2 (by decide)
  have htreach : InReach (mainProject []) (.ofString "/S") IsProjectName :=
    (inReach_mainProject_iff (by simp) (by decide)).2 (by decide)
  have hloaded : (loadAll (mainProject []) [] "/S").outcome =
      .ok [⟨"Main", .ofPlace ["S", "Main.csproj"], []⟩] := by
    decide +kernel
  obtain ⟨hagree, -⟩ := loadAll_spelling (by decide) hs ht []
  have hequal := hagree fun _ => iff_of_true hsreach htreach
  rw [hloaded] at hequal
  exact ⟨hs, ht, hequal.eq_of_ok⟩

theorem spells_detour {k : Nat} (hk : 5 * k + 1 ≤ FileTree.maxPath) :
    Spells (mainProject []) (String.ofList (detour k)) ["S"] := by
  obtain ⟨hdir, hplace⟩ := isDirectory_detour_mainProject hk
  refine ⟨?_, ?_, by decide⟩ <;> rw [ofString_detour]
  · cases k <;> simp [Path.LeadsHome, detourNames]
  · exact (Workspace.locate_of_isDirectory hdir).1.trans (congrArg _ hplace)

/-- Spellings differ where one begins with `~` and another does not, and where a search ends at one
that is too long. -/
theorem spelling_matters :
    (¬ ∀ (w : Workspace) (s t : String) (place : Place) (ignore : List String),
      w.tree.isDirectory w.current = true →
      s.toList.head? ≠ some '~' → t.toList.head? ≠ some '~' → w.locate (.ofString s) = .ok place →
      w.locate (.ofString t) = .ok place → (w.tree.find? place).isSome = true →
      (w.tree.isDirectory place = true →
        (InReach w (.ofString s) IsProjectName ↔ InReach w (.ofString t) IsProjectName)) →
      Agree (loadAll w ignore s).outcome (loadAll w ignore t).outcome) ∧
    (¬ ∀ (w : Workspace) (s t : String) (place : Place) (ignore : List String),
      w.tree.isDirectory w.current = true → Spells w s place → Spells w t place →
      Agree (loadAll w ignore s).outcome (loadAll w ignore t).outcome) := by
  refine ⟨fun hagree => ?_, fun hagree => ?_⟩
  · -- a file of the current directory whose name begins with a tilde
    have hhome : (loadAll (singleFile "~A.csproj" (Text.Utf8.encode "<Project/>".toList)) []
        "./~A.csproj").outcome = .error .noHome := by
      decide +kernel
    have hloaded :
        (loadAll (singleFile "~A.csproj" (Text.Utf8.encode "<Project/>".toList)) []
        "/~A.csproj").outcome = .ok [⟨"~A", .ofPlace ["~A.csproj"], []⟩] := by
      decide +kernel
    have hequal := hagree (singleFile "~A.csproj" (Text.Utf8.encode "<Project/>".toList))
      "./~A.csproj" "/~A.csproj"
      ["~A.csproj"] [] (by decide) (by decide) (by decide) (by decide) (by decide) (by decide)
      fun hdir => absurd hdir (by decide)
    rw [hhome, hloaded] at hequal
    cases hequal
  · -- a directory that is spelled in too long a way for the project file in it
    have hs : Spells (mainProject []) (String.ofList (detour 817)) ["S"] :=
      spells_detour (by decide)
    have ht : Spells (mainProject []) "S" ["S"] := by decide
    have hplace : (Path.ofString (String.ofList (detour 817))).placeOf [] = ["S"] := hs.placeOf_eq
    have hreach :
        ¬ InReach (mainProject []) (.ofString (String.ofList (detour 817))) IsProjectName := by
      rw [inReach_mainProject_iff (by simp) hplace, ofString_detour, not_not]
      exact isLong_child_detourNames_iff.2 (by decide)
    have hloaded : (loadAll (mainProject []) [] "S").outcome =
        .ok [⟨"Main", .ofPlace ["S", "Main.csproj"], []⟩] := by
      decide +kernel
    obtain ⟨e, -, herror⟩ := hs.exists_outOfReach (by decide) hreach []
    have hequal := hagree (mainProject []) _ _ ["S"] [] (by decide) hs ht
    rw [herror, hloaded] at hequal
    cases hequal

end Project
end MemberHarvest
