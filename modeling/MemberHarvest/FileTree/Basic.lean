import MemberHarvest.Path.Resolve
import MemberHarvest.Text.Utf8

/-!
# FileTree/Basic — directories and files

A tree gives some places a node, a directory or a file with its bytes. Every node but the root lies
in a directory of the tree. Trees change through `put` and `remove` only: `find?_put` and
`find?_remove` say what they do, place by place.
-/

namespace MemberHarvest

open MemberHarvest.Path (Place)

/-- What a place may hold. -/
inductive FileTree.Node where
  | directory
  | file (bytes : Text.Bytes)
  deriving DecidableEq, Repr

namespace FileTree

/-- The longest name that a node may have, in bytes. -/
def maxName : Nat := 255

/-- Whether a name has too many bytes. -/
def isTooLong (name : String) : Bool := maxName < Text.Utf8.size name.toList

/-- Whether a text can be the name of a node. -/
def isName (name : String) : Bool :=
  name != "" && name != "." && name != ".." && !name.toList.contains '/' &&
    !name.toList.contains '\x00' && !isTooLong name

end FileTree

/-- Directories and files below a root. The root itself is not listed. -/
structure FileTree where
  nodes : List (Place × FileTree.Node)
  distinct : (nodes.map (·.1)).Nodup
  named : ∀ e ∈ nodes, e.1 ≠ [] ∧ ∀ n ∈ e.1, FileTree.isName n = true
  housed : ∀ e ∈ nodes, e.1.dropLast = [] ∨ (e.1.dropLast, FileTree.Node.directory) ∈ nodes

namespace FileTree

/-- The root without anything below it. -/
def empty : FileTree := ⟨[], by simp, by simp, by simp⟩

/-- The node at a place. -/
def find? (t : FileTree) (p : Place) : Option Node :=
  if p = [] then some .directory else t.nodes.lookup p

/-- Whether a place holds a directory. -/
def isDirectory (t : FileTree) (p : Place) : Bool := t.find? p == some .directory

/-- Whether a place holds a file. -/
def isFile (t : FileTree) (p : Place) : Bool :=
  match t.find? p with
  | some (.file _) => true
  | _ => false

@[simp] theorem find?_nil (t : FileTree) : t.find? [] = some .directory := by simp [find?]

@[simp] theorem find?_empty (p : Place) :
    empty.find? p = if p = [] then some .directory else none := by
  simp [find?, empty]

/-! ## Looking up a place -/

theorem mem_of_lookup {l : List (Place × Node)} {p : Place} {n : Node} (h : l.lookup p = some n) :
    (p, n) ∈ l := by
  induction l with
  | nil => simp at h
  | cons e rest ih =>
    rw [List.lookup_cons] at h
    split at h
    · rename_i hp
      obtain ⟨rfl, rfl⟩ : p = e.1 ∧ e.2 = n := ⟨by simpa using hp, by simpa using h⟩
      exact List.mem_cons_self
    · exact List.mem_cons_of_mem _ (ih h)

theorem lookup_of_mem {l : List (Place × Node)} (hd : (l.map (·.1)).Nodup) {p : Place} {n : Node}
    (h : (p, n) ∈ l) : l.lookup p = some n := by
  induction l with
  | nil => simp at h
  | cons e rest ih =>
    obtain ⟨hne, hd⟩ := List.nodup_cons.1 hd
    rw [List.lookup_cons]
    rcases List.mem_cons.1 h with rfl | h
    · simp
    · have hp : (p == e.1) = false := by
        refine beq_eq_false_iff_ne.2 fun hp => hne ?_
        exact List.mem_map.2 ⟨(p, n), h, hp⟩
      simp [hp, ih hd h]

theorem lookup_filter {α β : Type} [BEq α] [LawfulBEq α] (l : List (α × β))
    (keep : α → Bool) (p : α) :
    (l.filter fun e => keep e.1).lookup p = if keep p then l.lookup p else none := by
  induction l with
  | nil => simp
  | cons e rest ih =>
    simp only [List.filter_cons]
    by_cases he : keep e.1 = true
    · rw [if_pos he, List.lookup_cons, List.lookup_cons, ih]
      cases hp : p == e.1 with
      | true => simp [(beq_iff_eq.1 hp ▸ he : keep p = true)]
      | false => rfl
    · rw [if_neg he, ih, List.lookup_cons]
      cases hp : p == e.1 with
      | true => simp [beq_iff_eq.1 hp, he]
      | false => rfl

/-- **A place that holds a node lies in a directory.** -/
theorem isDirectory_dropLast {t : FileTree} {p : Place} (h : (t.find? p).isSome) :
    t.isDirectory p.dropLast = true := by
  by_cases hp : p = []
  · simp [hp, isDirectory]
  · rw [find?, if_neg hp] at h
    obtain ⟨n, hn⟩ := Option.isSome_iff_exists.1 h
    rcases t.housed _ (mem_of_lookup hn) with hr | hm
    · simp only at hr
      simp [hr, isDirectory]
    · simp only at hm
      by_cases hr : p.dropLast = []
      · simp [hr, isDirectory]
      · simp [isDirectory, find?, hr, lookup_of_mem t.distinct hm]

/-! ## Changing a tree -/

/-- Whether a node may be put at a place: the place has a name and lies in a directory, and does not
hold a directory itself. -/
def admitsAt (t : FileTree) (p : Place) : Bool :=
  p != [] && p.all isName && t.isDirectory p.dropLast && !t.isDirectory p

/-- Put a node at a place, where it may be put. -/
def put (t : FileTree) (p : Place) (n : Node) : FileTree :=
  if h : t.admitsAt p = true then
    { nodes := (p, n) :: t.nodes.filter (fun e => e.1 != p)
      distinct := by
        rw [List.map_cons, List.nodup_cons]
        refine ⟨?_, (t.distinct.sublist (List.Sublist.map _ List.filter_sublist))⟩
        simp
      named := by
        simp only [admitsAt, Bool.and_eq_true, bne_iff_ne, List.all_eq_true] at h
        intro e he
        rcases List.mem_cons.1 he with rfl | he
        · exact ⟨h.1.1.1, h.1.1.2⟩
        · exact t.named e (List.mem_filter.1 he).1
      housed := by
        simp only [admitsAt, Bool.and_eq_true, Bool.not_eq_true'] at h
        have keeps : ∀ q, q = [] ∨ (q, Node.directory) ∈ t.nodes →
            q = [] ∨ (q, Node.directory) ∈ (p, n) :: t.nodes.filter (fun e => e.1 != p) := by
          rintro q (hq | hq)
          · exact .inl hq
          · by_cases hr : q = []
            · exact .inl hr
            · have hp : q ≠ p := by
                rintro rfl
                have := h.2
                simp [isDirectory, find?, hr, lookup_of_mem t.distinct hq] at this
              exact .inr (List.mem_cons_of_mem _ (List.mem_filter.2 ⟨hq, by simpa using hp⟩))
        intro e he
        rcases List.mem_cons.1 he with rfl | he
        · refine keeps _ ?_
          by_cases hr : p.dropLast = []
          · exact .inl hr
          · have := h.1.2
            simp only [isDirectory, find?, if_neg hr, beq_iff_eq] at this
            exact .inr (mem_of_lookup this)
        · exact keeps _ (t.housed e (List.mem_filter.1 he).1) }
  else t

/-- Take away whatever lies at a place or below it. -/
def remove (t : FileTree) (p : Place) : FileTree where
  nodes := t.nodes.filter (fun e => !p.isPrefixOf e.1)
  distinct := t.distinct.sublist (List.Sublist.map _ List.filter_sublist)
  named := fun e he => t.named e (List.mem_filter.1 he).1
  housed := by
    intro e he
    obtain ⟨hm, hp⟩ := List.mem_filter.1 he
    refine (t.housed e hm).imp id fun hd => List.mem_filter.2 ⟨hd, ?_⟩
    simp only [Bool.not_eq_true', ← Bool.not_eq_true, List.isPrefixOf_iff_prefix] at hp ⊢
    exact fun h => hp (h.trans (List.dropLast_prefix e.1))

/-- **Putting a node changes its own place only.** -/
theorem find?_put {t : FileTree} {p : Place} (h : t.admitsAt p = true) (n : Node) (q : Place) :
    (t.put p n).find? q = if q = p then some n else t.find? q := by
  have hp : p ≠ [] := by
    simp only [admitsAt, Bool.and_eq_true, bne_iff_ne] at h
    exact h.1.1.1
  simp only [put, dif_pos h, find?]
  by_cases hq : q = []
  · simp [hq, Ne.symm hp]
  · simp only [if_neg hq, List.lookup_cons]
    rw [lookup_filter t.nodes (fun r => r != p) q]
    cases hqp : q == p with
    | true => simp [beq_iff_eq.1 hqp]
    | false => simp [bne, hqp, beq_eq_false_iff_ne.1 hqp]

theorem put_of_not_admitsAt {t : FileTree} {p : Place} (h : t.admitsAt p = false) (n : Node) :
    t.put p n = t := by
  simp [put, h]

/-- **Removing a place leaves alone what does not lie below it.** -/
theorem find?_remove (t : FileTree) {p : Place} (hp : p ≠ []) (q : Place) :
    (t.remove p).find? q = if p <+: q then none else t.find? q := by
  simp only [remove, find?]
  by_cases hq : q = []
  · simp [hq, hp]
  · simp only [if_neg hq, lookup_filter t.nodes (fun r => !p.isPrefixOf r) q]
    by_cases hpq : p <+: q
    · simp [hpq, List.isPrefixOf_iff_prefix.2 hpq]
    · have : p.isPrefixOf q = false :=
        Bool.eq_false_iff.2 fun h => hpq <| List.isPrefixOf_iff_prefix.1 h
      simp [hpq, this]

/-! ## What lies below a place -/

/-- The names of the nodes in a directory. -/
def names (t : FileTree) (p : Place) : List String :=
  t.nodes.filterMap fun e => if e.1.dropLast = p then e.1.getLast? else none

/-- The directories at a place and below it. -/
def directoriesFrom (t : FileTree) (p : Place) : List Place :=
  -- Nodes are put in front of earlier ones, so a directory comes before what lies in it only in
  -- reverse.
  (if t.isDirectory p then [p] else []) ++
    ((t.nodes.filter fun e => e.2 == .directory && p.isPrefixOf e.1 && e.1 != p).map (·.1)).reverse

end FileTree
end MemberHarvest
