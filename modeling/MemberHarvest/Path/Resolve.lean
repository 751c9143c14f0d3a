import MemberHarvest.Path.Basic
import MemberHarvest.Text.Blank

/-!
# Path/Resolve — the place a path names, and the path between two places

A place is a list of names from the root. `resolve` follows a path without looking at any file: `..`
goes to the parent, and the root is its own parent. Solution and project files write paths with
either slash and with blanks around them (`resolveRelative`); `relativeText` is how a place is shown
from a directory.
-/

namespace MemberHarvest.Path

/-- The names from the root down to a place. -/
abbrev Place := List String

/-- From a place through one name. -/
def step (here : Place) (name : String) : Place :=
  if name = ".." then here.dropLast else here ++ [name]

/-- The place that names lead to. -/
def follow (here : Place) (names : List String) : Place := names.foldl step here

/-- The place that a path names, seen from the current directory `cwd`. -/
def placeOf (cwd : Place) (p : Path) : Place := follow (if p.isAbsolute then [] else cwd) p.names

/-- The absolute path of a place. -/
def ofPlace (here : Place) : Path := ⟨.root, here⟩

/-- The absolute path without `..` that names the same place. -/
def resolve (cwd : Place) (p : Path) : Path := ofPlace (placeOf cwd p)

theorem follow_append (here : Place) (ns ms : List String) :
    follow here (ns ++ ms) = follow (follow here ns) ms := List.foldl_append

/-- **Following names never leaves a `..` behind.** -/
theorem dotdot_not_mem_follow {here : Place} (h : ".." ∉ here) (ns : List String) :
    ".." ∉ follow here ns := by
  induction ns generalizing here with
  | nil => exact h
  | cons n ns ih =>
    refine ih ?_
    simp only [step]
    split
    · exact fun hm => h ((List.dropLast_sublist here).mem hm)
    · rename_i hn
      simp only [List.mem_append, List.mem_singleton, not_or]
      exact ⟨h, fun e => hn e.symm⟩

/-! ## Paths in project files -/

/-- Every backslash as a slash. -/
def slashes (cs : List Char) : List Char := cs.map (fun c => if c = '\\' then '/' else c)

/-- The path that a solution or project file means by `raw`. -/
def ofProjectText (raw : String) : Path := ofString (String.ofList (slashes (Text.trim raw.toList)))

/-- The place that `raw` names from the directory `base`. -/
def resolveRelative (base : Path) (cwd : Place) (raw : String) : Path :=
  (base.join (ofProjectText raw)).resolve cwd

/-- How `target` is shown from `base`: the rest below it where there is one, else in full. -/
def relativeText (base target : Path) : String :=
  match target.below? base with
  | some rest => rest.toString
  | none => target.toString

/-- Whether a name in the path holds the character that ends a path for the file system. -/
def holdsNul (p : Path) : Bool := p.names.any (fun n => n.toList.contains '\x00')

/-- The account whose home directory a path starts from: the name behind a `~` in front, which is
empty for the own one. -/
def account? (p : Path) : Option String :=
  match p.anchor, p.names with
  | .here, n :: _ =>
    match n.toList with
    | '~' :: name => some (String.ofList name)
    | _ => none
  | _, _ => none

end MemberHarvest.Path
