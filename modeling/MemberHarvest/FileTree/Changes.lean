import MemberHarvest.FileTree.Basic

/-!
# FileTree/Changes — what sets two trees apart

Trees are compared by their listings below a place: every file with its bytes, and every directory
without entries with a slash behind its path.
-/

namespace MemberHarvest.FileTree

open MemberHarvest.Path (Place)

/-- Whether nothing lies in a directory. -/
def isBare (t : FileTree) (p : Place) : Bool := t.nodes.all fun e => e.1.dropLast != p

/-- The entry of a node in the listing below `base`. -/
def listing? (t : FileTree) (base : Place) (e : Place × Node) : Option (String × Text.Bytes) :=
  if base.isPrefixOf e.1 ∧ base ≠ e.1 then
    let path := "/".intercalate (e.1.drop base.length)
    match e.2 with
    | .file bytes => some (path, bytes)
    | .directory => if t.isBare e.1 then some (path ++ "/", []) else none
  else none

/-- The files and bare directories below a place. -/
def listing (t : FileTree) (base : Place) : List (String × Text.Bytes) :=
  t.nodes.filterMap (t.listing? base)

/-- The entries of the second listing that are new or different, and those of the first that are
gone, in the order of their paths. -/
def changes (old new : FileTree) (base : Place) : List (String × Option Text.Bytes) :=
  let before := old.listing base
  let after := new.listing base
  let present := after.filter fun (e : String × Text.Bytes) => before.lookup e.1 != some e.2
  let gone := before.filter fun (e : String × Text.Bytes) => (after.lookup e.1).isNone
  (present.map (fun (e : String × Text.Bytes) => (e.1, some e.2)) ++
    gone.map (fun (e : String × Text.Bytes) => (e.1, none))).mergeSort
    fun a b => Path.textLe a.1.toList b.1.toList

end MemberHarvest.FileTree
