import MemberHarvest.Text.Split

/-!
# Path/Basic — slash-separated paths

A path is an anchor (none, `/` or the distinguished `//`) and a list of names. Reading text drops
empty names and `.`, and keeps `..`: what `..` means is decided where a path is followed
(`Path/Resolve`, `FileTree/Walk`), not where it is written.
-/

namespace MemberHarvest

/-- Where a path starts: at the current directory, at the root, or at the distinguished root
`//`. -/
inductive Path.Anchor where
  | here
  | root
  | network
  deriving DecidableEq, Repr

/-- A path: where it starts and the names it goes through. -/
structure Path where
  anchor : Path.Anchor
  names : List String
  deriving DecidableEq, Repr

namespace Path

/-- The text of an anchor. -/
def Anchor.text : Anchor → String
  | .here => ""
  | .root => "/"
  | .network => "//"

/-- Exactly two leading slashes are kept apart; any other number counts as one. -/
def anchorOf : List Char → Anchor
  | '/' :: '/' :: '/' :: _ => .root
  | '/' :: '/' :: _ => .network
  | '/' :: _ => .root
  | _ => .here

/-- The names between the slashes, without the empty ones and `.`. -/
def namesOf (cs : List Char) : List String :=
  ((cs.splitOnP (· == '/')).filter (fun w => !w.isEmpty && w != ['.'])).map String.ofList

/-- The path that a text denotes. -/
def ofString (s : String) : Path := ⟨anchorOf s.toList, namesOf s.toList⟩

/-- The text of a path; the empty relative path is `.`. -/
def toString (p : Path) : String :=
  if p.anchor = .here ∧ p.names = [] then "."
  else p.anchor.text ++ "/".intercalate p.names

instance : ToString Path := ⟨toString⟩

/-- Whether the path starts at a root. -/
def isAbsolute (p : Path) : Bool := p.anchor != .here

/-- The path through a further name. -/
def child (p : Path) (name : String) : Path := ⟨p.anchor, p.names ++ [name]⟩

/-- The path without its last name. -/
def parent (p : Path) : Path := ⟨p.anchor, p.names.dropLast⟩

/-- The last name; nothing at an anchor. -/
def name (p : Path) : String := p.names.getLast?.getD ""

/-- Go on from `p` along `q`; an absolute `q` starts afresh. -/
def join (p q : Path) : Path := if q.isAbsolute then q else ⟨p.anchor, p.names ++ q.names⟩

/-- The rest of `p` below `base`, where `base` is the beginning of `p`, name by name. -/
def below? (p base : Path) : Option Path :=
  if p.anchor = base.anchor ∧ base.names <+: p.names then
    some ⟨.here, p.names.drop base.names.length⟩
  else none

@[simp] theorem parent_child (p : Path) (n : String) : (p.child n).parent = p := by
  simp [parent, child]

@[simp] theorem name_child (p : Path) (n : String) : (p.child n).name = n := by
  simp [name, child]

/-! ## Extensions -/

/-- Cut a name at its last dot, where that dot is neither its first nor its last character. -/
def splitName (cs : List Char) : List Char × List Char :=
  match Text.cutLast '.' cs with
  | some (stem, ext) => if stem.isEmpty || ext.isEmpty then (cs, []) else (stem, '.' :: ext)
  | none => (cs, [])

/-- The extension of the last name with its dot; empty where there is none. -/
def suffix (p : Path) : String := String.ofList (splitName p.name.toList).2

/-- The last name without its extension. -/
def stem (p : Path) : String := String.ofList (splitName p.name.toList).1

/-- **Stem and extension make up the last name.** -/
theorem stem_append_suffix (p : Path) : p.stem ++ p.suffix = p.name := by
  apply String.toList_inj.1
  simp only [stem, suffix, String.toList_append, String.toList_ofList, splitName]
  split
  · rename_i stem ext h
    split
    · simp
    · exact (Text.eq_append_of_cutLast h).symm
  · simp

/-- The text with ASCII capitals turned small. -/
def lowerAscii (s : String) : String := String.ofList (s.toList.map Char.toLower)

/-- Whether the path has the given extension, capitals and small letters alike. -/
def hasSuffix (p : Path) (ext : String) : Bool := lowerAscii p.suffix == ext

/-! ## Order -/

/-- Code points decide, and a beginning comes before what it begins. -/
def textLe : List Char → List Char → Bool
  | [], _ => true
  | _ :: _, [] => false
  | a :: as, b :: bs => a < b || (a == b && textLe as bs)

/-- Lists of names in order of their first difference. -/
def namesLe : List String → List String → Bool
  | [], _ => true
  | _ :: _, [] => false
  | a :: as, b :: bs =>
    if a = b then namesLe as bs else textLe a.toList b.toList

/-- **Paths sort name by name,** so that a directory's content stays together. -/
def le (p q : Path) : Bool := namesLe (p.anchor.text :: p.names) (q.anchor.text :: q.names)

/-- The paths in order. -/
def sort (ps : List Path) : List Path := ps.mergeSort le

end Path
end MemberHarvest
