import MemberHarvest.FileTree.Basic
import MemberHarvest.FileTree.Refusal

/-!
# FileTree/Walk — following a path through a tree

Unlike `Path.resolve`, which looks at no file, `walk` goes from node to node: every name must be
found in a directory, also one that a later `..` takes back. Where a walk succeeds, it ends at the
place that the path names (`walk_eq_follow`).
-/

namespace MemberHarvest.FileTree

open MemberHarvest.Path (Place)

/-- Go on from a place along names. -/
def walk (t : FileTree) (here : Place) : List String → Except Cause Place
  | [] => .ok here
  | n :: ns =>
    if !t.isDirectory here then .error .notDirectory
    else if isTooLong n then .error .nameTooLong
    else if (t.find? (Path.step here n)).isSome then walk t (Path.step here n) ns
    else .error .missing

/-- **A walk that succeeds ends where the names lead.** -/
theorem walk_eq_follow {t : FileTree} {here there : Place} {ns : List String}
    (h : t.walk here ns = .ok there) : there = Path.follow here ns := by
  induction ns generalizing here with
  | nil => exact (Except.ok.inj h).symm
  | cons n ns ih =>
    simp only [walk] at h
    split at h
    · simp at h
    split at h
    · simp at h
    split at h
    · exact ih h
    · simp at h

/-- The longest text of a path, in bytes. -/
def maxPath : Nat := 4095

/-- The place of a node that a path names, seen from `current`. -/
def locate (t : FileTree) (current : Place) (p : Path) : Except Cause Place :=
  if maxPath < Text.Utf8.size p.toString.toList then .error .nameTooLong
  else t.walk (if p.isAbsolute then [] else current) p.names

theorem locate_eq_placeOf {t : FileTree} {current there : Place} {p : Path}
    (h : t.locate current p = .ok there) : there = Path.placeOf current p := by
  simp only [locate] at h
  split at h
  · simp at h
  · exact walk_eq_follow h

end MemberHarvest.FileTree
