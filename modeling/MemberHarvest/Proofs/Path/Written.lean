import Mathlib.Data.String.Basic
import MemberHarvest.Path.Basic
import MemberHarvest.Text.Utf8

/-!
# Proofs/Path/Written — the text of a path

The text of a path has its anchor and its names with a slash between any two of them, so that its
length in bytes is the sum of theirs (`size_toString`).
-/

namespace MemberHarvest

theorem Text.Utf8.size_append (as bs : List Char) : size (as ++ bs) = size as + size bs := by
  induction as with
  | nil => simp [size]
  | cons a as ih => simp [size, ih, Nat.add_assoc]

namespace Path

/-- A path is written as its anchor and its names with slashes between them. -/
theorem toString_of_names {p : Path} (h : p.names ≠ []) :
    p.toString = p.anchor.text ++ "/".intercalate p.names := by
  rw [toString, if_neg fun hp => h hp.2]

/-- The bytes of names, each with a slash. -/
def namesSize : List String → Nat
  | [] => 0
  | n :: ns => Text.Utf8.size n.toList + 1 + namesSize ns

/-- So do the bytes of names, each with the slash behind it. -/
theorem namesSize_append (ns ms : List String) :
    namesSize (ns ++ ms) = namesSize ns + namesSize ms := by
  induction ns with
  | nil => simp [namesSize]
  | cons n ns ih => simp [namesSize, ih, Nat.add_assoc]

/-- One name takes its bytes and a slash. -/
theorem namesSize_singleton (n : String) : namesSize [n] = Text.Utf8.size n.toList + 1 := by
  simp [namesSize]

/-- **Written names take the bytes of the names, each with a slash but the last.** This is how the
length of a path is told from its names, without writing it down. -/
theorem size_intercalate {ns : List String} (h : ns ≠ []) :
    Text.Utf8.size ("/".intercalate ns).toList + 1 = namesSize ns := by
  induction ns with
  | nil => exact absurd rfl h
  | cons n ns ih =>
    cases ns with
    | nil => simp [namesSize]
    | cons m ns =>
      have hslash : Text.Utf8.size "/".toList = 1 := by decide
      rw [String.intercalate_cons_cons, String.toList_append, String.toList_append,
        Text.Utf8.size_append, Text.Utf8.size_append, hslash, Nat.add_assoc, ih (by simp)]
      simp [namesSize, Nat.add_assoc]

/-- **The bytes of a path are those of its anchor and of its names,** with a slash between any two
names. The one byte on the left is the slash that is not there behind the last name. -/
theorem size_toString {p : Path} (h : p.names ≠ []) :
    Text.Utf8.size p.toString.toList + 1 = Text.Utf8.size p.anchor.text.toList +
      namesSize p.names := by
  rw [toString_of_names h, String.toList_append, Text.Utf8.size_append, Nat.add_assoc,
    size_intercalate h]

end Path
end MemberHarvest
