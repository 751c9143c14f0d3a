import Mathlib.Data.List.Infix
import MemberHarvest.FileTree.Walk

/-!
# Proofs/FileTree/Kept — what a tree keeps when it is changed

Trees are compared place by place (`KeptAt`): a place keeps what it held, or is one of the places
where a missing directory was made. `AddsDirectories` says so of every place, and adds up along
several changes. A draft that is put at a free place and removed again leaves no trace
(`find?_remove_put`), since nothing lies below a free place.
-/

namespace MemberHarvest.FileTree

open MemberHarvest.Path (Place)

variable {t u v : FileTree} {p q : Place}

/-! ## Places and what lies below them -/

theorem isDirectory_iff : t.isDirectory p = true ↔ t.find? p = some .directory := by
  rw [isDirectory, beq_iff_eq]

/-- A name is short enough if its bytes are. -/
theorem isTooLong_eq_false_iff {name : String} :
    isTooLong name = false ↔ Text.Utf8.size name.toList ≤ maxName := by
  rw [isTooLong, decide_eq_false_iff_not, Nat.not_lt]

/-- **Nothing lies below a free place.** A node never stands without those above it. -/
theorem find?_eq_none_below (h : t.find? p = none) (hpq : p <+: q) : t.find? q = none := by
  induction q using List.reverseRecOn with
  | nil =>
    obtain rfl : p = [] := List.prefix_nil.1 hpq
    exact h
  | append_singleton q n ih =>
    rcases List.prefix_concat_iff.1 hpq with rfl | hq
    · exact h
    · by_contra hne
      have hdir := isDirectory_dropLast (Option.isSome_iff_ne_none.2 hne)
      rw [List.dropLast_concat, isDirectory_iff, ih hq] at hdir
      exact absurd hdir (by simp)

/-- Every name on the way to a node can be the name of a node. -/
theorem isName_of_mem (h : (t.find? p).isSome) : ∀ n ∈ p, isName n = true := by
  by_cases hp : p = []
  · simp [hp]
  · rw [find?, if_neg hp] at h
    obtain ⟨n, hn⟩ := Option.isSome_iff_exists.1 h
    exact (t.named _ (mem_of_lookup hn)).2

/-- A place under a directory's place is free for a node if its last name can be one. -/
theorem admitsAt_append {n : String} (hp : t.isDirectory p = true) (hn : isName n = true)
    (hfree : t.isDirectory (p ++ [n]) = false) : t.admitsAt (p ++ [n]) = true := by
  have hall : (p ++ [n]).all isName = true := by
    rw [List.all_append, Bool.and_eq_true, List.all_eq_true]
    exact ⟨isName_of_mem (by rw [isDirectory_iff.1 hp]; rfl), by simpa using hn⟩
  have hne : (p ++ [n] != []) = true := by simp
  rw [admitsAt, List.dropLast_concat, hne, hall, hp, hfree]
  rfl

/-! ## Drafts -/

/-- **A new node touches no other place.** What lies above and below the new node stays as well. -/
theorem find?_put_of_ne (hq : q ≠ p) (n : Node) : (t.put p n).find? q = t.find? q := by
  cases h : t.admitsAt p with
  | true => rw [find?_put h, if_neg hq]
  | false => rw [put_of_not_admitsAt h]

/-- **Removing a node again that was put at a free place restores every place.** This is what a
draft leaves that does not take its place. -/
theorem find?_remove_put (h : t.find? p = none) (n : Node) (q : Place) :
    ((t.put p n).remove p).find? q = t.find? q := by
  have hp : p ≠ [] := fun e => by simp [e] at h
  rw [find?_remove _ hp]
  split
  · rename_i hpq
    exact (find?_eq_none_below h hpq).symm
  · rename_i hpq
    have hne : q ≠ p := by
      rintro rfl
      exact hpq List.prefix_rfl
    exact find?_put_of_ne hne n

/-- A file at a free place makes and takes no directory. -/
theorem isDirectory_put_file (h : t.find? p = none) (bytes : Text.Bytes) (q : Place) :
    (t.put p (.file bytes)).isDirectory q = t.isDirectory q := by
  by_cases hq : q = p
  · subst hq
    cases ha : t.admitsAt q with
    | true => simp [isDirectory, find?_put ha, h]
    | false => rw [put_of_not_admitsAt ha]
  · rw [isDirectory, find?_put_of_ne hq, isDirectory]

/-! ## Walking -/

/-- Whoever comes to a directory has set out from one. -/
theorem isDirectory_of_walk {here there : Place} {ns : List String} (h : t.walk here ns = .ok there)
    (hd : t.isDirectory there = true) : t.isDirectory here = true := by
  cases ns with
  | nil => rwa [Except.ok.inj h]
  | cons n ns =>
    rw [walk] at h
    split at h
    · simp at h
    · simp_all

/-- **A walk to a directory succeeds as well in a tree that has all the directories.** Directories
are all that a walk needs on its way, and it does not look at the other nodes. -/
theorem walk_of_isDirectory (hsub : ∀ q, t.isDirectory q = true → u.isDirectory q = true)
    {here there : Place} {ns : List String} (h : t.walk here ns = .ok there)
    (hd : t.isDirectory there = true) : u.walk here ns = .ok there := by
  induction ns generalizing here with
  | nil => exact h
  | cons n ns ih =>
    have hhere : u.isDirectory here = true := hsub _ (isDirectory_of_walk h hd)
    simp only [walk] at h ⊢
    split at h
    · simp at h
    split at h
    · simp at h
    split at h
    · have hnext := hsub _ (isDirectory_of_walk h hd)
      rw [isDirectory_iff] at hnext
      simp_all
    · simp at h

/-- A walk may be taken in two parts. -/
theorem walk_append {here : Place} (ns ms : List String) :
    t.walk here (ns ++ ms) = (t.walk here ns).bind fun there => t.walk there ms := by
  induction ns generalizing here with
  | nil => rfl
  | cons n ns ih =>
    simp only [List.cons_append, walk]
    split
    · rfl
    split
    · rfl
    split
    · exact ih
    · rfl

/-- A walk that takes one more step takes it from a directory to a node. -/
theorem walk_concat {here there : Place} {ns : List String} {n : String}
    (h : t.walk here (ns ++ [n]) = .ok there) :
    ∃ mid, t.walk here ns = .ok mid ∧ t.isDirectory mid = true ∧ isTooLong n = false ∧
      (t.find? (Path.step mid n)).isSome = true := by
  rw [walk_append] at h
  cases hmid : t.walk here ns with
  | error cause => simp [hmid, Except.bind] at h
  | ok mid =>
    rw [hmid] at h
    change t.walk mid [n] = .ok there at h
    rw [walk] at h
    split at h
    · simp at h
    rename_i hdir
    split at h
    · simp at h
    rename_i hshort
    split at h
    · rename_i hnode
      exact ⟨mid, rfl, by simpa using hdir, by simpa using hshort, hnode⟩
    · simp at h

/-! ## Keeping places -/

/-- What a place holds after directories were made at some of the places: what it held before, or a
new directory where it held nothing. -/
def KeptAt (old new : FileTree) (made : List Place) (q : Place) : Prop :=
  new.find? q = old.find? q ∨ old.find? q = none ∧ new.find? q = some .directory ∧ q ∈ made

/-- Every place is kept. -/
def AddsDirectories (old new : FileTree) (made : List Place) : Prop := ∀ q, KeptAt old new made q

variable {made more : List Place}

/-- **A kept place holds a file exactly if it held it before.** New directories are put at free
places only, so they hide no file. -/
theorem KeptAt.find?_eq_file_iff (h : KeptAt t u made q) (bytes : Text.Bytes) :
    u.find? q = some (.file bytes) ↔ t.find? q = some (.file bytes) := by
  rcases h with h | ⟨hold, hnew, -⟩
  · rw [h]
  · simp [hold, hnew]

/-- What two steps keep is kept by both. -/
theorem KeptAt.trans (h : KeptAt t u made q) (h' : KeptAt u v made q) : KeptAt t v made q := by
  rcases h' with h' | ⟨hold, hnew, hmem⟩
  · rwa [KeptAt, h']
  · rcases h with h | ⟨-, hnew', -⟩
    · exact .inr ⟨h ▸ hold, hnew, hmem⟩
    · simp [hold] at hnew'

/-- More places to be made do not harm what is kept. -/
theorem KeptAt.mono (h : KeptAt t u made q) (hsub : made ⊆ more) : KeptAt t u more q :=
  h.imp id fun ⟨hold, hnew, hmem⟩ => ⟨hold, hnew, hsub hmem⟩

theorem AddsDirectories.refl (t : FileTree) (made : List Place) : AddsDirectories t t made :=
  fun _ => .inl rfl

theorem AddsDirectories.trans (h : AddsDirectories t u made) (h' : AddsDirectories u v made) :
    AddsDirectories t v made := fun q => (h q).trans (h' q)

/-- Making a directory at a free place adds one. -/
theorem addsDirectories_put (h : t.find? p = none) (hp : p ∈ made) :
    AddsDirectories t (t.put p .directory) made := by
  intro q
  by_cases hq : q = p
  · subst hq
    cases ha : t.admitsAt q with
    | true => exact .inr ⟨h, by rw [find?_put ha, if_pos rfl], hp⟩
    | false => exact .inl (by rw [put_of_not_admitsAt ha])
  · exact .inl (find?_put_of_ne hq _)

end MemberHarvest.FileTree
