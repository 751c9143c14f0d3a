import MemberHarvest.Proofs.Workspace.Finding
import MemberHarvest.Proofs.Workspace.Receiving

/-!
# Proofs/Workspace/Searching — a directory is searched with everything below it

A search for a name at any depth comes to every node below the directory where it begins, by the
path that is `spelled` from there: to all directories, and to the files with such a name. It finds
these files (`glob_everywhere_cases`), unless one of the paths is too long to look at.
-/

namespace MemberHarvest

open Outcome
open MemberHarvest.Path (Place)

/-! ## Names with a given end -/

/-- Every character for itself. -/
theorem Pattern.admits_map_char_iff {cs text : List Char} :
    admits (cs.map .char) text = true ↔ text = cs := by
  induction cs generalizing text with
  | nil => simp
  | cons c cs ih => cases text <;> simp [admits, Atom.admits, ih]

/-- **A star and a text behind it fit the texts that end so.** Project files and source files are
searched for by such patterns. -/
theorem Pattern.fits_any_iff {cs text : List Char} :
    fits (.any :: cs.map .char) text = true ↔ cs <:+ text := by
  simp [fits_eq_admits, admits_any_iff, admits_map_char_iff]

theorem Pattern.ofString_star : ofString "*" = [.any] := by
  simp [ofString, ofChars, consAtom]

/-- Whether a path is too long to be looked at. -/
def Path.IsLong (p : Path) : Prop := FileTree.maxPath < Text.Utf8.size p.toString.toList

instance (p : Path) : Decidable p.IsLong := inferInstanceAs (Decidable (_ < _))

namespace Workspace

variable {w : Workspace} {base : Path} {place q : Place} {n : String}

/-! ## Paths below a directory -/

/-- The path of a place as it is spelled from a directory above it. -/
def spelled (w : Workspace) (base : Path) (q : Place) : Path :=
  ⟨base.anchor, base.names ++ q.drop (base.placeOf w.current).length⟩

/-- A path names a directory, if it is not too long to be looked at. -/
structure StartsAt (w : Workspace) (base : Path) (place : Place) : Prop where
  holdsNul : base.holdsNul = false
  walk : w.tree.walk (w.start base) base.names = .ok place
  isDirectory : w.tree.isDirectory place = true

/-- A search can start in each directory, at its place. -/
theorem startsAt_of_isDirectory (h : w.isDirectory base = .ok true) :
    StartsAt w base (base.placeOf w.current) where
  holdsNul := by
    by_contra hnul
    rw [Workspace.isDirectory, probe, if_pos (by simpa using hnul)] at h
    cases h
  walk := (walk_of_locate (locate_of_isDirectory h).1).2
  isDirectory := (locate_of_isDirectory h).2

/-- It can start from the absolute path of a place. -/
theorem startsAt_ofPlace (h : w.tree.isDirectory place = true) :
    StartsAt w (.ofPlace place) place where
  holdsNul := FileTree.holdsNul_of_isSome (FileTree.isSome_of_isDirectory h) .root
  walk := FileTree.walk_below (p := []) (FileTree.isSome_of_isDirectory h)
  isDirectory := h

theorem StartsAt.placeOf_eq (h : StartsAt w base place) : base.placeOf w.current = place :=
  (FileTree.walk_eq_follow h.walk).symm

/-- A file's place has the last name of every path to it. -/
theorem name_resolve {p : Path} (h : w.isFile p = .ok true) (hnames : p.names ≠ []) :
    (w.resolve p).name = p.name := by
  obtain ⟨bytes, hbytes⟩ := isFile_eq_ok_true_iff.1 h
  obtain ⟨-, place, hplace, hnode⟩ := readBytes_eq_ok_iff.1 hbytes
  have hfile : w.tree.isDirectory place = false := by
    rw [FileTree.isDirectory, hnode]
    rfl
  rw [resolve, Path.resolve, ← FileTree.locate_eq_placeOf hplace, Path.name, Path.ofPlace,
    FileTree.getLast?_of_walk (walk_of_locate hplace).2 hnames hfile, Path.name]

theorem StartsAt.spelled_self (h : StartsAt w base place) : w.spelled base place = base := by
  rw [spelled, h.placeOf_eq, List.drop_length, List.append_nil]

/-- What lies one name deeper is spelled with this name behind it. -/
theorem StartsAt.spelled_concat (h : StartsAt w base place) (hq : place <+: q) :
    w.spelled base (q ++ [n]) = (w.spelled base q).child n := by
  rw [spelled, spelled, h.placeOf_eq, Path.child, List.drop_append_of_le_length hq.length_le,
    List.append_assoc]

/-- A walk along the path that is spelled arrives at the place. -/
theorem StartsAt.walk_spelled (h : StartsAt w base place) (hpq : place <+: q)
    (hq : (w.tree.find? q).isSome = true) :
    w.tree.walk (w.start base) (w.spelled base q).names = .ok q := by
  obtain ⟨ns, rfl⟩ := hpq
  rw [spelled, h.placeOf_eq, List.drop_left, FileTree.walk_append, h.walk]
  exact FileTree.walk_below hq

/-- **What a search spells leads back to the place it stands for.** A search spells the names that
lead down, and those are names of nodes. -/
theorem StartsAt.placeOf_spelled (h : StartsAt w base place) (hpq : place <+: q)
    (hq : (w.tree.find? q).isSome = true) : (w.spelled base q).placeOf w.current = q :=
  (FileTree.walk_eq_follow (h.walk_spelled hpq hq)).symm

/-- No path that a search spells holds the NUL character. -/
theorem StartsAt.holdsNul_spelled (h : StartsAt w base place)
    (hq : (w.tree.find? q).isSome = true) :
    (w.spelled base q).holdsNul = false := by
  have hbase := h.holdsNul
  rw [Path.holdsNul, List.any_eq_false] at hbase ⊢
  intro n hn
  rcases List.mem_append.1 hn with hn | hn
  · exact hbase n hn
  · have hname := FileTree.isName_iff.1 (FileTree.isName_of_mem hq n (List.mem_of_mem_drop hn))
    simpa using hname.2.2.2.2.1

/-- From an absolute path, each place is spelled absolutely. -/
theorem spelled_ofPlace (h : StartsAt w (.ofPlace place) place) (hpq : place <+: q) :
    w.spelled (.ofPlace place) q = .ofPlace q := by
  obtain ⟨ns, rfl⟩ := hpq
  rw [spelled, h.placeOf_eq, List.drop_left]
  rfl

/-! ## Going into a directory and out of it -/

/-- A search can go on in a directory further down. -/
theorem StartsAt.into (h : StartsAt w base place) (hn : w.tree.isDirectory (place ++ [n]) = true) :
    StartsAt w (base.child n) (place ++ [n]) := by
  have hnode := FileTree.isSome_of_isDirectory hn
  have hpq : place <+: place ++ [n] := List.prefix_append _ _
  have hspelled : w.spelled base (place ++ [n]) = base.child n := by
    rw [h.spelled_concat List.prefix_rfl, h.spelled_self]
  exact ⟨hspelled ▸ h.holdsNul_spelled hnode, hspelled ▸ h.walk_spelled hpq hnode, hn⟩

theorem StartsAt.outOf (h : StartsAt w base (place ++ [n])) :
    StartsAt w (base.child "..") place := by
  have habove : w.tree.isDirectory place = true := by
    simpa using FileTree.isDirectory_dropLast (FileTree.isSome_of_isDirectory h.isDirectory)
  have hnul : (base.child "..").holdsNul = false := by
    have hbase := h.holdsNul
    rw [Path.holdsNul] at hbase ⊢
    rw [Path.child, List.any_append, hbase]
    decide
  have hwalk : w.tree.walk (w.start base) (base.names ++ [".."]) = .ok place := by
    have hup : Path.step (place ++ [n]) ".." = place := by simp [Path.step]
    have hshort : FileTree.isTooLong ".." = false := by decide
    rw [FileTree.walk_append, h.walk]
    simp [Except.bind, FileTree.walk, h.isDirectory, hshort, hup,
      FileTree.isSome_of_isDirectory habove]
  exact ⟨hnul, hwalk, habove⟩

/-! ## Looking at paths below a directory -/

/-- What lies behind a path that is too long is too far away as well. -/
theorem isLong_of_child {p : Path} (h : p.IsLong) : (p.child n).IsLong := by
  have hchild := Path.size_toString (p := p.child n) (by simp [Path.child])
  by_cases hnames : p.names = []
  · obtain ⟨anchor, names⟩ := p
    subst hnames
    cases anchor <;> exact absurd h (by decide)
  · have hsize := Path.size_toString hnames
    have hname := Path.namesSize_singleton n
    have hsum : Path.namesSize (p.child n).names = Path.namesSize p.names + Path.namesSize [n] :=
      Path.namesSize_append p.names [n]
    have hanchor : (p.child n).anchor = p.anchor := rfl
    rw [hsum, hanchor] at hchild
    rw [Path.IsLong] at h ⊢
    omega

/-- A path that is too long is located nowhere. -/
theorem locate_of_isLong {p : Path} (h : p.IsLong) (w : Workspace) :
    w.locate p = .error .nameTooLong := if_pos h

/-- Any other path is located where its names lead. -/
theorem locate_of_not_isLong {p : Path} (h : ¬ p.IsLong) (w : Workspace) :
    w.locate p = w.tree.walk (w.start p) p.names := if_neg h

/-- A file is read along its names. -/
theorem readBytes_of_find? {a : Path.Anchor} {q : Place} {bytes : Text.Bytes}
    (hcurrent : w.current = []) (hshort : ¬ (Path.mk a q).IsLong)
    (h : w.tree.find? q = some (.file bytes)) : w.readBytes ⟨a, q⟩ = .ok bytes := by
  have hnode : (w.tree.find? ([] ++ q)).isSome = true := by simp [h]
  refine readBytes_eq_ok_iff.2 ⟨FileTree.holdsNul_of_isSome hnode a, q, ?_, h⟩
  have hlocate : w.locate ⟨a, q⟩ =
      w.tree.walk (if (Path.mk a q).isAbsolute then [] else w.current) q := if_neg hshort
  rw [hlocate, hcurrent, ite_self]
  exact FileTree.walk_below hnode

/-- What a search spells is located at its place, unless the path is too long. -/
theorem StartsAt.locate_spelled (h : StartsAt w base place) (hpq : place <+: q)
    (hq : (w.tree.find? q).isSome = true) (hshort : ¬ (w.spelled base q).IsLong) :
    w.locate (w.spelled base q) = .ok q :=
  (locate_of_not_isLong hshort w).trans (h.walk_spelled hpq hq)

/-- What is asked of it is asked of the place. -/
theorem StartsAt.probe_spelled (h : StartsAt w base place) (hpq : place <+: q)
    (hq : (w.tree.find? q).isSome = true) (hshort : ¬ (w.spelled base q).IsLong)
    (test : Place → Bool) : w.probe test (w.spelled base q) = .ok (test q) := by
  rw [probe, h.holdsNul_spelled hq, h.locate_spelled hpq hq hshort]
  rfl

theorem StartsAt.isDirectory_eq_ok (h : StartsAt w base place) (hshort : ¬ base.IsLong) :
    w.isDirectory base = .ok true := by
  have hnode := FileTree.isSome_of_isDirectory h.isDirectory
  have hprobe := h.probe_spelled List.prefix_rfl hnode (h.spelled_self.symm ▸ hshort)
    w.tree.isDirectory
  rwa [h.spelled_self, h.isDirectory] at hprobe

/-- A path that is too long cannot be asked. -/
theorem StartsAt.probe_of_isLong (h : StartsAt w base place) (hq : (w.tree.find? q).isSome = true)
    (hlong : (w.spelled base q).IsLong) (test : Place → Bool) :
    w.probe test (w.spelled base q) = .error (tooLong (w.spelled base q)) :=
  probe_eq_error_iff.2 ⟨⟨h.holdsNul_spelled hq, locate_of_isLong hlong w⟩, rfl⟩

theorem StartsAt.enter_eq_error_iff (h : StartsAt w base place) (hpq : place <+: q)
    (hq : (w.tree.find? q).isSome = true) {e : Failure} :
    w.enter (w.spelled base q) = .error e ↔ (w.spelled base q).IsLong ∧
      e = tooLong (w.spelled base q) := by
  by_cases hlong : (w.spelled base q).IsLong
  · rw [enter, locate_of_isLong hlong]
    simp [hlong, tooLong, eq_comm]
  · rw [enter, h.locate_spelled hpq hq hlong]
    simp [hlong]

/-- **The directories of a tree are those below its place,** each spelled from the tree's root. So
each of them is spelled in one way only. -/
theorem StartsAt.mem_directoriesFrom (h : StartsAt w base place) {p : Path} :
    p ∈ w.directoriesFrom base ↔ ∃ q, place <+: q ∧ w.tree.isDirectory q = true ∧
      p = w.spelled base q := by
  simp only [directoriesFrom, List.mem_map, FileTree.mem_directoriesFrom, h.placeOf_eq, spelled,
    and_assoc, eq_comm]

/-! ## Searching for names -/

variable {directoriesOnly : Bool} {pattern : Pattern} {named : String → Prop}

/-- A search for names comes to a place: a directory, or a file with such a name. -/
def ComesTo (w : Workspace) (named : String → Prop) (place q : Place) : Prop :=
  place <+: q ∧ (w.tree.isDirectory q = true ∨ w.tree.isFile q = true ∧ named (Path.ofPlace q).name)

instance [DecidablePred named] : Decidable (w.ComesTo named place q) :=
  inferInstanceAs (Decidable (_ ∧ (_ ∨ _ ∧ _)))

theorem ComesTo.isSome (h : w.ComesTo named place q) : (w.tree.find? q).isSome = true :=
  h.2.elim FileTree.isSome_of_isDirectory fun hfile => FileTree.isSome_of_isFile hfile.1

/-- Below a directory, a file lies in a directory. -/
theorem StartsAt.exists_concat (h : StartsAt w base place) (hpq : place <+: q)
    (hq : w.tree.isFile q = true) :
    ∃ d n, q = d ++ [n] ∧ place <+: d ∧ w.tree.isDirectory d = true := by
  have hne : place ≠ q := by
    rintro rfl
    have hdir := FileTree.isDirectory_iff.1 h.isDirectory
    simp [FileTree.isFile, hdir] at hq
  cases q using List.reverseRecOn with
  | nil => exact absurd (List.prefix_nil.1 hpq) hne
  | append_singleton d n =>
    have hdir : w.tree.isDirectory d = true := by
      simpa using FileTree.isDirectory_dropLast (FileTree.isSome_of_isFile hq)
    exact ⟨d, n, rfl, (List.prefix_concat_iff.1 hpq).resolve_left hne, hdir⟩

/-- A name in a directory leads to its place there. -/
theorem placeOf_child {p : Path} (hn : n ∈ w.tree.names (p.placeOf w.current)) :
    (p.child n).placeOf w.current = p.placeOf w.current ++ [n] := by
  have hname := FileTree.isName_iff.1 (FileTree.isName_of_mem (FileTree.mem_names.1 hn) n (by simp))
  rw [Path.placeOf_eq_append (by simp [Path.child]) hname.2.2.1, Path.parent_child]

/-- A wildcard steps to each child whose name fits. -/
theorem StartsAt.stepsTo_wild_iff (h : StartsAt w base place) (hpq : place <+: q)
    (hq : (w.tree.find? q).isSome = true) {f : Path} :
    w.StepsTo false (.wild pattern) (w.spelled base q) f ↔
      ∃ n, (w.tree.find? (q ++ [n])).isSome = true ∧ pattern.fits n.toList = true ∧
        f = w.spelled base (q ++ [n]) := by
  simp only [StepsTo, namesIn, List.mem_filter, FileTree.mem_names, h.placeOf_spelled hpq hq,
    h.spelled_concat hpq, Bool.false_eq_true, false_imp_iff, and_true, and_assoc]

theorem StartsAt.follow_nil (h : StartsAt w base place) (hpq : place <+: q)
    (hq : (w.tree.find? q).isSome = true) :
    ((w.spelled base q).IsLong ∧ w.follow false [] (w.spelled base q) =
      .error (tooLong (w.spelled base q))) ∨
      ¬ (w.spelled base q).IsLong ∧ ∃ found, w.follow false [] (w.spelled base q) = .ok found := by
  by_cases hlong : (w.spelled base q).IsLong
  · refine .inl ⟨hlong, ?_⟩
    rw [follow, isFile, h.probe_of_isLong hq hlong]
    rfl
  · refine .inr ⟨hlong, ?_⟩
    rw [follow, isFile, h.probe_spelled hpq hq hlong]
    cases w.tree.isFile q <;> exact ⟨_, rfl⟩

/-- **A search succeeds, or one of the paths that it comes to is too long.** The two exclude each
other. -/
theorem StartsAt.follow_cases (h : StartsAt w base place)
    (hfits : ∀ n, pattern.fits n.toList = true ↔ named n) :
    (∃ found, w.follow false [.everywhere, .wild pattern] base = .ok found ∧
        ∀ q, w.ComesTo named place q → ¬ (w.spelled base q).IsLong) ∨
      ∃ q, w.ComesTo named place q ∧ (w.spelled base q).IsLong ∧
        w.follow false [.everywhere, .wild pattern] base = .error (tooLong (w.spelled base q)) := by
  cases hfollow : w.follow false [.everywhere, .wild pattern] base with
  | ok found =>
    refine .inl ⟨found, rfl, fun q hq hlong => ?_⟩
    obtain ⟨hfails, hon⟩ := exists_follow_cons_eq_ok_iff.1 ⟨found, hfollow⟩
    rcases hq.2 with hdir | ⟨hfile, hname⟩
    · refine hfails (tooLong (w.spelled base q))
        ⟨_, h.mem_directoriesFrom.2 ⟨q, hq.1, hdir, rfl⟩, ?_⟩
      exact (h.enter_eq_error_iff hq.1 hq.isSome).2 ⟨hlong, rfl⟩
    · obtain ⟨d, n, rfl, hpd, hdir⟩ := h.exists_concat hq.1 hfile
      obtain ⟨-, hon⟩ :=
        exists_follow_cons_eq_ok_iff.1 (hon _ (h.mem_directoriesFrom.2 ⟨d, hpd, hdir, rfl⟩))
      have hfit : pattern.fits n.toList = true :=
        (hfits n).2 (by simpa [Path.ofPlace, Path.name] using hname)
      obtain ⟨found, hfound⟩ :=
        hon _ ((h.stepsTo_wild_iff hpd (FileTree.isSome_of_isDirectory hdir)).2
        ⟨n, hq.isSome, hfit, rfl⟩)
      rcases h.follow_nil hq.1 hq.isSome with ⟨-, herror⟩ | ⟨hshort, -⟩
      · cases herror.symm.trans hfound
      · exact hshort hlong
  | error e =>
    right
    have hentered {d : Place} (hpd : place <+: d) (hdir : w.tree.isDirectory d = true)
        (he : w.enter (w.spelled base d) = .error e) :
        ∃ q, w.ComesTo named place q ∧ (w.spelled base q).IsLong ∧
          (.error e : Except Failure (List Path)) = .error (tooLong (w.spelled base q)) := by
      obtain ⟨hlong, rfl⟩ := (h.enter_eq_error_iff hpd (FileTree.isSome_of_isDirectory hdir)).1 he
      exact ⟨d, ⟨hpd, .inl hdir⟩, hlong, rfl⟩
    rcases of_follow_cons_eq_error hfollow with ⟨p, hp, he⟩ | ⟨p, hp, he⟩
    · obtain ⟨d, hpd, hdir, rfl⟩ := h.mem_directoriesFrom.1 hp
      exact hentered hpd hdir he
    obtain ⟨d, hpd, hdir, rfl⟩ := h.mem_directoriesFrom.1 hp
    rcases of_follow_cons_eq_error he with he | ⟨p, hp, he⟩
    · exact hentered hpd hdir he
    obtain ⟨n, hnode, hfit, rfl⟩ :=
      (h.stepsTo_wild_iff hpd (FileTree.isSome_of_isDirectory hdir)).1 hp
    have hpn : place <+: d ++ [n] := hpd.trans (List.prefix_append d [n])
    have hname : named (Path.ofPlace (d ++ [n])).name := by
      simpa [Path.ofPlace, Path.name] using (hfits n).1 hfit
    rcases h.follow_nil hpn hnode with ⟨hlong, herror⟩ | ⟨-, found, hfound⟩
    · refine ⟨d ++ [n], ⟨hpn, ?_⟩, hlong, he.symm.trans herror⟩
      exact (FileTree.isDirectory_or_isFile hnode).imp_right fun hfile => ⟨hfile, hname⟩
    · cases he.symm.trans hfound

/-- A search for names reaches paths with such names, whose places have these names too. -/
theorem fits_of_reaches {f : Path}
    (h : w.Reaches directoriesOnly [.everywhere, .wild pattern] base f) :
    pattern.fits f.name.toList = true ∧ (w.resolve f).name = f.name := by
  obtain ⟨p, -, _, ⟨n, hn, rfl, -⟩, rfl⟩ := h
  obtain ⟨hnode, hfit⟩ := List.mem_filter.1 hn
  rw [Path.name_child, resolve, Path.resolve, placeOf_child hnode]
  exact ⟨hfit, by simp [Path.ofPlace, Path.name]⟩

/-- From a resolved directory, a search reaches resolved paths. -/
theorem StartsAt.resolve_of_reaches {f : Path} (h : StartsAt w (.ofPlace place) place)
    (hf : w.Reaches false [.everywhere, .wild pattern] (.ofPlace place) f) : w.resolve f = f := by
  obtain ⟨p, hp, _, hstep, rfl⟩ := hf
  obtain ⟨d, hpd, hdir, rfl⟩ := h.mem_directoriesFrom.1 hp
  obtain ⟨n, hnode, -, rfl⟩ :=
    (h.stepsTo_wild_iff hpd (FileTree.isSome_of_isDirectory hdir)).1 hstep
  have hpn : place <+: d ++ [n] := hpd.trans (List.prefix_append d [n])
  rw [resolve, Path.resolve, h.placeOf_spelled hpn hnode, spelled_ofPlace h hpn]

/-- The files that a search finds. -/
theorem StartsAt.reaches_iff (h : StartsAt w base place)
    (hfits : ∀ n, pattern.fits n.toList = true ↔ named n) {f : Path} :
    w.Reaches false [.everywhere, .wild pattern] base f ∧ w.isFile f = .ok true ↔
      ∃ q, (place <+: q ∧ w.tree.isFile q = true ∧ named (Path.ofPlace q).name) ∧
        ¬ (w.spelled base q).IsLong ∧ f = w.spelled base q := by
  constructor
  · rintro ⟨⟨p, hp, _, hstep, rfl⟩, hfile⟩
    obtain ⟨d, hpd, hdir, rfl⟩ := h.mem_directoriesFrom.1 hp
    obtain ⟨n, hnode, hfit, rfl⟩ :=
      (h.stepsTo_wild_iff hpd (FileTree.isSome_of_isDirectory hdir)).1 hstep
    have hpn : place <+: d ++ [n] := hpd.trans (List.prefix_append d [n])
    have hname : named (Path.ofPlace (d ++ [n])).name := by
      simpa [Path.ofPlace, Path.name] using (hfits n).1 hfit
    have hshort : ¬ (w.spelled base (d ++ [n])).IsLong := by
      intro hlong
      rw [isFile, h.probe_of_isLong hnode hlong] at hfile
      cases hfile
    rw [isFile, h.probe_spelled hpn hnode hshort] at hfile
    exact ⟨d ++ [n], ⟨hpn, Except.ok.inj hfile, hname⟩, hshort, rfl⟩
  · rintro ⟨q, ⟨hpq, hfile, hname⟩, hshort, rfl⟩
    obtain ⟨d, n, rfl, hpd, hdir⟩ := h.exists_concat hpq hfile
    have hnode := FileTree.isSome_of_isFile hfile
    have hfit : pattern.fits n.toList = true :=
      (hfits n).2 (by simpa [Path.ofPlace, Path.name] using hname)
    refine ⟨⟨_, h.mem_directoriesFrom.2 ⟨d, hpd, hdir, rfl⟩, _, ?_, rfl⟩, ?_⟩
    · exact (h.stepsTo_wild_iff hpd (FileTree.isSome_of_isDirectory hdir)).2 ⟨n, hnode, hfit, rfl⟩
    · rw [isFile, h.probe_spelled hpq hnode hshort, hfile]

/-- **A glob finds the files with its names at every depth,** each once, or one of the paths that it
comes to is too long. -/
theorem StartsAt.glob_cases (h : StartsAt w base place) {text : String}
    (htext : Glob.ofString text = .ok ⟨[.everywhere, .wild pattern], false⟩)
    (hfits : ∀ n, pattern.fits n.toList = true ↔ named n) :
    (∃ qs : List Place, w.glob base text = .ok (qs.map (w.spelled base)) ∧ qs.Nodup ∧
        (∀ q, q ∈ qs ↔ place <+: q ∧ w.tree.isFile q = true ∧ named (Path.ofPlace q).name) ∧
        ∀ q, w.ComesTo named place q → ¬ (w.spelled base q).IsLong) ∨
      ∃ q, w.ComesTo named place q ∧ (w.spelled base q).IsLong ∧
        w.glob base text = .error (tooLong (w.spelled base q)) := by
  have hnode := FileTree.isSome_of_isDirectory h.isDirectory
  by_cases hbase : base.IsLong
  · refine .inr ⟨place, ⟨List.prefix_rfl, .inl h.isDirectory⟩, h.spelled_self.symm ▸ hbase, ?_⟩
    have hlong := h.probe_of_isLong hnode (h.spelled_self.symm ▸ hbase) w.tree.isDirectory
    rw [h.spelled_self] at hlong ⊢
    rw [glob, htext, Workspace.isDirectory, hlong]
    rfl
  have hdir := h.isDirectory_eq_ok hbase
  have hglob := glob_of_isDirectory hdir htext
  rcases h.follow_cases hfits with ⟨found, hfound, hshort⟩ | ⟨q, hq, hlong, hfollow⟩
  · left
    rw [hfound] at hglob
    obtain ⟨hmem, hnodup⟩ := mem_and_nodup_of_glob hdir htext hglob
    simp only [h.reaches_iff hfits] at hmem
    have hback : ∀ f ∈ found.eraseDups, w.spelled base (f.placeOf w.current) = f := by
      intro f hf
      obtain ⟨q, ⟨hpq, hfile, -⟩, -, rfl⟩ := (hmem f).1 hf
      rw [h.placeOf_spelled hpq (FileTree.isSome_of_isFile hfile)]
    have hspelled : (found.eraseDups.map (Path.placeOf w.current)).map (w.spelled base) =
        found.eraseDups := by
      rw [List.map_map]
      exact (List.map_congr_left hback).trans (List.map_id _)
    refine ⟨found.eraseDups.map (Path.placeOf w.current), ?_, ?_, fun q => ?_, hshort⟩
    · rw [hspelled]
      exact hglob
    · exact List.Nodup.of_map (w.spelled base) (hspelled.symm ▸ hnodup)
    · rw [List.mem_map]
      constructor
      · rintro ⟨f, hf, rfl⟩
        obtain ⟨q, hq, -, rfl⟩ := (hmem f).1 hf
        rwa [h.placeOf_spelled hq.1 (FileTree.isSome_of_isFile hq.2.1)]
      · intro hq
        have hnode := FileTree.isSome_of_isFile hq.2.1
        refine ⟨w.spelled base q, (hmem _).2 ⟨q, hq, ?_, rfl⟩, h.placeOf_spelled hq.1 hnode⟩
        exact hshort q ⟨hq.1, .inr hq.2⟩
  · exact .inr ⟨q, hq, hlong, by rw [hglob, hfollow]; rfl⟩

end Workspace
end MemberHarvest
