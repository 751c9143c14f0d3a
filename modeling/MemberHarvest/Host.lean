import MemberHarvest.Path.Basic
import MemberHarvest.Text.Codecs

/-!
# Host — what the system around a tree knows

The system tells where home directories are and which encodings there are. Neither is part of a
tree, and nothing that is done to a tree changes them.
-/

namespace MemberHarvest

/-- A system: the home directory of an account, as it is written, and the registry of encodings. The
own home directory goes under the empty name. -/
structure Host where
  home? : String → Option String := fun _ => none
  codecs : Text.Codecs := .empty

namespace Host

/-- The path of an account's home directory. Slashes at its end do not count, and one that is
written with a `~` itself is none. -/
def homeOf? (h : Host) (account : String) : Option Path := do
  let written := ((← h.home? account).toList.reverse.dropWhile (· == '/')).reverse
  match written with
  | [] => return ⟨.root, []⟩
  | '~' :: _ => none
  | cs => return Path.ofString (String.ofList cs)

end Host
end MemberHarvest
