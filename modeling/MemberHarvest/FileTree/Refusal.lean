import MemberHarvest.Text.Quoted

/-!
# FileTree/Refusal — why a file operation does not take place
-/

namespace MemberHarvest

/-- The causes for which a file operation is refused. -/
inductive FileTree.Cause where
  | missing
  | busy
  | alreadyThere
  | notDirectory
  | isDirectory
  | nameTooLong
  deriving DecidableEq, Repr

namespace FileTree

/-- The number that stands for a cause. -/
def Cause.number : Cause → Nat
  | .missing => 2
  | .busy => 16
  | .alreadyThere => 17
  | .notDirectory => 20
  | .isDirectory => 21
  | .nameTooLong => 36

/-- The wording of a cause. -/
def Cause.text : Cause → String
  | .missing => "No such file or directory"
  | .busy => "Device or resource busy"
  | .alreadyThere => "File exists"
  | .notDirectory => "Not a directory"
  | .isDirectory => "Is a directory"
  | .nameTooLong => "File name too long"

/-- A refused operation: the cause, the path, and for a renaming the new path. -/
structure Refusal where
  cause : Cause
  path : String
  newPath : Option String := none
  deriving DecidableEq, Repr

/-- The wording of a refusal. -/
def Refusal.message (r : Refusal) : String :=
  s!"[Errno {r.cause.number}] {r.cause.text}: {Text.quoted r.path}" ++
    (match r.newPath with
      | some new => s!" -> {Text.quoted new}"
      | none => "")

end FileTree
end MemberHarvest
