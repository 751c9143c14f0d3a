import MemberHarvest.Proofs.FileTree.Kept
import MemberHarvest.Proofs.Outcome
import MemberHarvest.Proofs.Path.Trail
import MemberHarvest.Workspace.Glob

/-!
# Proofs/Workspace/Looking — what stands in the way of looking at paths

A path names a file just where there are bytes to read (`isFile_eq_ok_true_iff`), and only a path
that is too long cannot be looked at. So a glob fails where its text is none
(`Glob.ofString_failsAs`) or where it comes upon such a path (`glob_failsAs`).
-/

namespace MemberHarvest

open Outcome

/-! ## The texts of globs -/

/-- What is wrong with the text of a glob. -/
inductive Glob.Fault (pattern : String) : Failure → Prop
  | empty (h : pattern = "") : Fault pattern .emptyGlob
  | absolute (h : (Path.ofString pattern).isAbsolute = true) : Fault pattern .absoluteGlob
  | mixed {name : String} (mem : name ∈ (Path.ofString pattern).names) (partly : name ≠ "**")
      (h : Text.occurs ['*', '*'] name.toList = true) : Fault pattern .mixedDoubleStar

/-- A pattern fails by what is wrong with its text. -/
theorem Glob.ofString_failsAs (pattern : String) : FailsAs (Fault pattern) (ofString pattern) := by
  have hsteps : FailsAs (Fault pattern) ((Path.ofString pattern).names.mapM Step.ofName) := by
    refine .mapM fun name hname => ?_
    rw [Step.ofName]
    split
    · exact .ok _
    rename_i hpartly
    split
    · rename_i hstars
      exact .error (.mixed hname hpartly hstars)
    split <;> exact .ok _
  rw [ofString]
  split
  · rename_i hempty
    exact .error (.empty (String.isEmpty_iff.1 hempty))
  split
  · rename_i habsolute
    exact .error (.absolute habsolute)
  exact .bind hsteps fun _ _ => .ok _

/-- **A name denotes a step** unless it has two asterisks next to each other and something else. -/
theorem Glob.Step.ofName_eq_ok_iff {name : String} {s : Step} : ofName name = .ok s ↔
    name = "**" ∧ s = .everywhere ∨
      ¬ ['*', '*'] <:+: name.toList ∧ s = if isWild name then .wild (.ofString name)
        else .plain name := by
  rw [ofName, ← Text.occurs_iff]
  split
  · rename_i hstars
    subst hstars
    have hoccurs : Text.occurs ['*', '*'] "**".toList = true := by decide
    refine ⟨fun h => .inl ⟨rfl, (Except.ok.inj h).symm⟩, ?_⟩
    rintro (⟨-, rfl⟩ | ⟨hnone, -⟩)
    · rfl
    · exact absurd hoccurs hnone
  rename_i hstars
  split
  · rename_i hoccurs
    simp [hstars, hoccurs]
  · rename_i hnone
    rw [← apply_ite Except.ok, Except.ok.injEq]
    simp [hstars, hnone, eq_comm (a := s)]

/-- **A text denotes a glob** if it is a relative one and all of its names denote steps. -/
theorem Glob.ofString_ofList_eq_ok_iff {cs : List Char} {g : Glob} :
    ofString (String.ofList cs) = .ok g ↔ cs ≠ [] ∧ Path.anchorOf cs = .here ∧
      List.Forall₂ (fun name s => Step.ofName name = .ok s) (Path.namesOf cs) g.steps ∧
      g.directoriesOnly = (cs.getLast? == some '/') := by
  have hempty : (String.ofList cs).isEmpty = true ↔ cs = [] := by
    rw [String.isEmpty_iff, String.ofList_eq_empty_iff]
  have habsolute : (Path.ofString (String.ofList cs)).isAbsolute = true ↔
      Path.anchorOf cs ≠ .here := by
    rw [Path.ofString, Path.isAbsolute, String.toList_ofList, bne_iff_ne]
  rw [ofString]
  split
  · rename_i h
    simp [hempty.1 h, throw, throwThe, MonadExceptOf.throw, bind, Except.bind]
  rename_i hne
  split
  · rename_i h
    simp [habsolute.1 h, throw, throwThe, MonadExceptOf.throw, bind, Except.bind]
  rename_i hrelative
  rw [hempty] at hne
  rw [habsolute, not_not] at hrelative
  simp only [bind_eq_ok_iff, mapM_eq_ok_iff, Path.ofString, String.toList_ofList, ne_eq,
    hne, not_false_iff, hrelative, true_and]
  constructor
  · rintro ⟨steps, hsteps, hg⟩
    obtain rfl := Except.ok.inj hg
    exact ⟨hsteps, rfl⟩
  · rintro ⟨hsteps, hlast⟩
    exact ⟨g.steps, hsteps, by rw [← hlast]; rfl⟩

namespace Workspace

open MemberHarvest.Path (Place)

variable {w : Workspace} {p : Path} {bytes : Text.Bytes}

/-! ## Files -/

/-- The bytes of a path are those of the file that it leads to. -/
theorem readBytes_eq_ok_iff : w.readBytes p = .ok bytes ↔
    p.holdsNul = false ∧ ∃ place, w.locate p = .ok place ∧
      w.tree.find? place = some (.file bytes) := by
  rw [readBytes]
  cases p.holdsNul with
  | true => simp
  | false =>
    cases w.locate p with
    | error cause => simp
    | ok place => cases hnode : w.tree.find? place with
      | none => simp [hnode]
      | some node => cases node <;> simp [hnode]

/-- **A path names a file just where there are bytes to read.** -/
theorem isFile_eq_ok_true_iff : w.isFile p = .ok true ↔ ∃ bytes, w.readBytes p = .ok bytes := by
  simp only [readBytes_eq_ok_iff, isFile, probe]
  cases p.holdsNul with
  | true => simp
  | false =>
    cases w.locate p with
    | error cause => cases cause <;> simp
    | ok place => cases hnode : w.tree.find? place with
      | none => simp [FileTree.isFile, hnode]
      | some node => cases node <;> simp [FileTree.isFile, hnode]

theorem isDirectory_of_readBytes (h : w.readBytes p = .ok bytes) : w.isDirectory p = .ok false := by
  obtain ⟨hnul, place, hplace, hnode⟩ := readBytes_eq_ok_iff.1 h
  simp [isDirectory, probe, hnul, hplace, FileTree.isDirectory, hnode]

/-- The place of a file has no name with NUL. -/
theorem holdsNul_resolve (h : w.readBytes p = .ok bytes) : (w.resolve p).holdsNul = false := by
  obtain ⟨-, place, hplace, hnode⟩ := readBytes_eq_ok_iff.1 h
  obtain rfl : place = p.placeOf w.current := FileTree.locate_eq_placeOf hplace
  have hnames := FileTree.isName_of_mem (t := w.tree) (p := p.placeOf w.current)
    (by rw [hnode]; rfl)
  refine List.any_eq_false.2 fun n hn => ?_
  have hname := hnames n hn
  simp only [FileTree.isName, Bool.and_eq_true, Bool.not_eq_true'] at hname
  rw [hname.1.2]
  exact Bool.false_ne_true

/-! ## Paths that cannot be looked at -/

/-- Why a path starts from no home directory: the name of the account cannot be looked up, or the
system knows no home directory of it. -/
inductive HomeFault (w : Workspace) (p : Path) : Failure → Prop
  | nul {account : String} (starts : p.account? = some account) (mem : '\x00' ∈ account.toList) :
    HomeFault w p .nulInPath
  | unknown {account : String} (starts : p.account? = some account)
      (h : w.host.homeOf? account = none) : HomeFault w p .noHome

/-- An error of the home directory names no path. -/
theorem HomeFault.path?_eq_none {p : Path} {e : Failure} (h : w.HomeFault p e) :
    e.path? = none := by
  cases h <;> rfl

/-- Home directories are for the system around a workspace to tell. -/
theorem expandHome_congr {w u : Workspace} (h : u.host = w.host) (p : Path) :
    u.expandHome p = w.expandHome p := by
  rw [expandHome, expandHome, h]

/-- **The `~` in front of a path is replaced** unless the system tells no home directory for it. -/
theorem expandHome_failsAs (w : Workspace) (p : Path) :
    FailsAs (HomeFault w p) (w.expandHome p) := by
  rw [expandHome]
  split
  · exact .ok _
  · rename_i account hstarts
    split
    · rename_i hnul
      exact .error (.nul hstarts (by simpa using hnul))
    · split
      · exact .ok _
      · rename_i hhome
        exact .error (.unknown hstarts hhome)

/-- **A path comes to itself,** or to the names behind its first one below the home directory of the
account that it starts from. -/
theorem expandHome_eq_ok_iff {p q : Path} :
    w.expandHome p = .ok q ↔
      (p.account? = none ∧ q = p) ∨
        ∃ account home, p.account? = some account ∧ '\x00' ∉ account.toList ∧
          w.host.homeOf? account = some home ∧ q = ⟨home.anchor, home.names ++ p.names.tail⟩ := by
  rw [expandHome]
  cases p.account? with
  | none => simp [eq_comm]
  | some account =>
    by_cases hnul : '\x00' ∈ account.toList
    · simp [hnul]
    · cases hhome : w.host.homeOf? account with
      | none => simp [hnul, hhome]
      | some home => simp [hnul, hhome, eq_comm]

/-- The refusal of a path that is too long. -/
def tooLong (p : Path) : Failure := .refused ⟨.nameTooLong, p.toString, none⟩

/-- A path is refused: it, or a name in it, is too long to be looked up. -/
def IsRefused (w : Workspace) (p : Path) : Prop :=
  p.holdsNul = false ∧ w.locate p = .error .nameTooLong

/-- **Looking at a path fails just where it is refused.** -/
theorem probe_eq_error_iff {test : Place → Bool} {e : Failure} :
    w.probe test p = .error e ↔ w.IsRefused p ∧ e = tooLong p := by
  rw [probe, IsRefused]
  cases p.holdsNul with
  | true => simp
  | false =>
    cases w.locate p with
    | ok place => simp
    | error cause => cases cause <;> simp [tooLong, eq_comm]

/-- A directory cannot be entered if its path is too long, and only then is that an error. -/
theorem enter_eq_error_iff {e : Failure} :
    w.enter p = .error e ↔ w.locate p = .error .nameTooLong ∧ e = tooLong p := by
  rw [enter]
  cases w.locate p with
  | ok place => simp
  | error cause => cases cause <;> simp [tooLong, eq_comm]

/-- The refusal to look at a path that is too long. -/
def IsTooLong (w : Workspace) (e : Failure) : Prop :=
  ∃ p, w.locate p = .error .nameTooLong ∧ e = .refused ⟨.nameTooLong, p.toString, none⟩

/-- What is asked of a path fails at a long one only. -/
theorem probe_failsAs (w : Workspace) (test : Place → Bool) (p : Path) :
    FailsAs w.IsTooLong (w.probe test p) := by
  intro e he
  obtain ⟨⟨-, hlong⟩, rfl⟩ := probe_eq_error_iff.1 he
  exact ⟨p, hlong, rfl⟩

theorem enter_failsAs (w : Workspace) (p : Path) : FailsAs w.IsTooLong (w.enter p) :=
  fun _ he => ⟨p, enter_eq_error_iff.1 he⟩

/-- **Following steps fails at a path that is too long, and at nothing else.** -/
theorem follow_failsAs (w : Workspace) (directoriesOnly : Bool)
    (steps : List Glob.Step) (p : Path) :
    FailsAs w.IsTooLong (w.follow directoriesOnly steps p) := by
  induction steps generalizing p with
  | nil =>
    refine .bind (w.probe_failsAs _ p) fun there _ => ?_
    cases there <;> exact .ok _
  | cons s rest ih =>
    rw [follow.eq_def]
    cases s with
    | everywhere =>
      refine .map (.mapM fun q _ => .bind (ih q) fun _ _ => ?_)
      exact .bind (w.enter_failsAs q) fun _ _ => .ok _
    | wild pattern => exact .bind (w.enter_failsAs p) fun _ _ => .map (.mapM fun q _ => ih q)
    | plain name =>
      refine .bind ?_ fun there _ => ?_
      · split <;> exact probe_failsAs _ _ _
      · cases there
        · exact .ok _
        · exact ih _

/-- **A glob fails with its text or for a path that is too long.** -/
theorem glob_failsAs (w : Workspace) (base : Path) (pattern : String) :
    FailsAs (fun e => Glob.ofString pattern = .error e ∨ w.IsTooLong e) (w.glob base pattern) := by
  rw [glob]
  refine .bind (fun _ => .inl) fun g _ => ?_
  refine .bind ((probe_failsAs _ _ _).mono fun _ => .inr) fun there _ => ?_
  cases there
  · exact .ok _
  · exact .bind ((follow_failsAs _ _ _ _).mono fun _ => .inr) fun _ _ => .ok _

end Workspace
end MemberHarvest
