import MemberHarvest.Proofs.FileTree.Kept

/-!
# Proofs/FileTree/Below — what lies below a place

The names in a directory are those of the nodes in it (`mem_names`), and the directories from a
place on are all that have it as a beginning (`mem_directoriesFrom`). From a place down to a node
below it a walk goes through directories only, so that it arrives (`walk_below`), and a walk that
ends at a file ends with its name (`getLast?_of_walk`).
-/

namespace MemberHarvest.FileTree

open MemberHarvest.Path (Place)

variable {t : FileTree} {p q : Place}

/-- **What is found at a place is what is listed for it.** The root is not listed. With it, what a
search finds by listing is what a walk finds by name. -/
theorem find?_eq_some_iff_mem (hp : p ≠ []) {node : Node} :
    t.find? p = some node ↔ (p, node) ∈ t.nodes := by
  rw [find?, if_neg hp]
  exact ⟨mem_of_lookup, lookup_of_mem t.distinct⟩

/-! ## Nodes -/

theorem isSome_of_isDirectory (h : t.isDirectory p = true) : (t.find? p).isSome = true := by
  rw [isDirectory_iff.1 h]
  rfl

theorem isFile_iff : t.isFile p = true ↔ ∃ bytes, t.find? p = some (.file bytes) := by
  rw [isFile]
  rcases t.find? p with _ | _ | bytes <;> simp

theorem isSome_of_isFile (h : t.isFile p = true) : (t.find? p).isSome = true := by
  obtain ⟨bytes, hnode⟩ := isFile_iff.1 h
  rw [hnode]
  rfl

/-- A node is a directory or a file. -/
theorem isDirectory_or_isFile (h : (t.find? p).isSome = true) :
    t.isDirectory p = true ∨ t.isFile p = true := by
  obtain ⟨node, hnode⟩ := Option.isSome_iff_exists.1 h
  cases node with
  | directory => exact .inl (isDirectory_iff.2 hnode)
  | file bytes => exact .inr (isFile_iff.2 ⟨bytes, hnode⟩)

/-- Every node but the root is listed. -/
theorem mem_places_of_isSome (hp : p ≠ []) (h : (t.find? p).isSome = true) :
    p ∈ t.nodes.map (·.1) := by
  obtain ⟨node, hnode⟩ := Option.isSome_iff_exists.1 h
  exact List.mem_map.2 ⟨_, (find?_eq_some_iff_mem hp).1 hnode, rfl⟩

theorem mem_places_of_isFile (h : t.isFile p = true) : p ∈ t.nodes.map (·.1) := by
  refine mem_places_of_isSome ?_ (isSome_of_isFile h)
  rintro rfl
  simp [isFile] at h

/-! ## What lies in a directory -/

/-- **The names in a directory are those of the nodes in it.** Only the names of its own nodes
count, and not those of nodes further down. -/
theorem mem_names {n : String} : n ∈ t.names p ↔ (t.find? (p ++ [n])).isSome = true := by
  have hne : p ++ [n] ≠ [] := by simp
  simp only [names, List.mem_filterMap, Option.ite_none_right_eq_some, Option.isSome_iff_exists,
    find?_eq_some_iff_mem hne]
  constructor
  · rintro ⟨⟨q, node⟩, hmem, rfl, hlast⟩
    exact ⟨node, by rwa [List.dropLast_append_getLast? n hlast]⟩
  · rintro ⟨node, hmem⟩
    exact ⟨_, hmem, by simp, by simp⟩

/-- **The directories from a place on are those that have it as a beginning.** The place itself is
one of them, if it is a directory. -/
theorem mem_directoriesFrom : q ∈ t.directoriesFrom p ↔ p <+: q ∧ t.isDirectory q = true := by
  rw [directoriesFrom, List.mem_append]
  by_cases hq : q = p
  · subst hq
    simp
  have hbelow :
      q ∈ ((t.nodes.filter fun e => e.2 == .directory && p.isPrefixOf e.1 &&
      e.1 != p).map (·.1)).reverse ↔ p <+: q ∧ (q, Node.directory) ∈ t.nodes := by
    simp only [List.mem_reverse, List.mem_map, List.mem_filter, Bool.and_eq_true,
      beq_iff_eq, bne_iff_ne, List.isPrefixOf_iff_prefix]
    constructor
    · rintro ⟨⟨_, _⟩, ⟨hmem, ⟨rfl, hpq⟩, -⟩, rfl⟩
      exact ⟨hpq, hmem⟩
    · rintro ⟨hpq, hmem⟩
      exact ⟨_, ⟨hmem, ⟨rfl, hpq⟩, hq⟩, rfl⟩
  have hself : ¬ q ∈ (if t.isDirectory p then [p] else []) := by
    split <;> simp [hq]
  rw [hbelow, or_iff_right hself]
  refine and_congr_right fun hpq => ?_
  have hne : q ≠ [] := by
    rintro rfl
    exact hq (List.prefix_nil.1 hpq).symm
  rw [isDirectory_iff, find?_eq_some_iff_mem hne]

/-! ## Walking -/

/-- **What a name may be.** Every node but the root lies under such a name, since a tree carries
this fact with it (`FileTree.isName_of_mem`). -/
theorem isName_iff {n : String} : isName n = true ↔
    n ≠ "" ∧ n ≠ "." ∧ n ≠ ".." ∧ '/' ∉ n.toList ∧ '\x00' ∉ n.toList ∧ isTooLong n = false := by
  simp [isName, and_assoc]

/-- No name on the way to a node holds a NUL character. -/
theorem holdsNul_of_isSome (h : (t.find? p).isSome = true) (a : Path.Anchor) :
    (Path.mk a p).holdsNul = false := by
  refine List.any_eq_false.2 fun n hn => ?_
  have hname := isName_iff.1 (isName_of_mem h n hn)
  simpa using hname.2.2.2.2.1

/-- No name on a walk holds a NUL character. -/
theorem holdsNul_of_walk {ns : List String} (h : t.walk p ns = .ok q) (a : Path.Anchor) :
    (Path.mk a ns).holdsNul = false := by
  induction ns generalizing p with
  | nil => rfl
  | cons n ns ih =>
    rw [walk] at h
    split at h
    · cases h
    split at h
    · cases h
    split at h
    · rename_i hnode
      have hname : n.toList.contains '\x00' = false := by
        by_cases hup : n = ".."
        · subst hup
          decide
        · rw [Path.step, if_neg hup] at hnode
          simpa using (isName_iff.1 (isName_of_mem hnode n (by simp))).2.2.2.2.1
      have hrest := ih h
      rw [Path.holdsNul] at hrest ⊢
      rw [List.any_cons, hname, hrest, Bool.or_false]
    · cases h

/-- Whatever lies above a node is a directory. -/
theorem isDirectory_of_prefix (hq : (t.find? q).isSome = true) (hpq : p <+: q) (hne : p ≠ q) :
    t.isDirectory p = true := by
  induction q using List.reverseRecOn with
  | nil => exact absurd (List.prefix_nil.1 hpq) hne
  | append_singleton q n ih =>
    have hdir : t.isDirectory q = true := by simpa using isDirectory_dropLast hq
    rcases List.prefix_concat_iff.1 hpq with rfl | hpq
    · exact absurd rfl hne
    by_cases heq : p = q
    · exact heq ▸ hdir
    · exact ih (by rw [isDirectory_iff.1 hdir]; rfl) hpq heq

/-- **A walk from a place to a node below it arrives.** No name of a node is `..` or `.`, so nothing
on the way is skipped or taken back. -/
theorem walk_below {ns : List String} (h : (t.find? (p ++ ns)).isSome = true) :
    t.walk p ns = .ok (p ++ ns) := by
  induction ns generalizing p with
  | nil => rw [walk, List.append_nil]
  | cons n ns ih =>
    have hname := isName_iff.1 (isName_of_mem h n (by simp))
    have hdir : t.isDirectory p = true :=
      isDirectory_of_prefix h (List.prefix_append p _) (by simp)
    have hstep : Path.step p n = p ++ [n] := if_neg hname.2.2.1
    have happend : p ++ [n] ++ ns = p ++ n :: ns := by simp
    have hnode : (t.find? (p ++ [n])).isSome = true := by
      by_contra hnone
      have hfree := find?_eq_none_below (Option.not_isSome_iff_eq_none.1 hnone)
        (List.prefix_append (p ++ [n]) ns)
      rw [happend] at hfree
      rw [hfree] at h
      exact absurd h (by simp)
    have hrest := ih (p := p ++ [n]) (by rwa [happend])
    simp only [walk, hdir, hname.2.2.2.2.2, hstep, hnode, hrest, happend]
    simp

/-- **A walk that ends at a file ends with the file's name.** A walk that ends with `..` ends at a
directory. So an extension can be told from any spelling. -/
theorem getLast?_of_walk {here : Place} {ns : List String}
    (h : t.walk here ns = .ok q) (hns : ns ≠ []) (hq : t.isDirectory q = false) :
    q.getLast? = ns.getLast? := by
  obtain ⟨front, n, rfl⟩ : ∃ front n, ns = front ++ [n] :=
    ⟨_, _, (List.dropLast_append_getLast hns).symm⟩
  obtain ⟨mid, hmid, hdir, -, hnode⟩ := walk_concat h
  have hstep : q = Path.step mid n := by
    rw [walk_eq_follow h, Path.follow_append, ← walk_eq_follow hmid]
    rfl
  have hup : n ≠ ".." := by
    rintro rfl
    rw [hstep, Path.step, if_pos rfl, isDirectory_dropLast (isSome_of_isDirectory hdir)] at hq
    cases hq
  rw [hstep, Path.step, if_neg hup, List.getLast?_concat, List.getLast?_concat]

end MemberHarvest.FileTree
