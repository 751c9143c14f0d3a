import MemberHarvest.SourceFile
import MemberHarvest.Text.Blank

/-!
# Interface/Declaration — what a file says about an interface

A file declares an interface when one of its lines holds the word `interface` with one space and the
name behind it. Its members are then read off every line with an opening parenthesis, inside the
interface or not: the last word before the first parenthesis.
-/

namespace MemberHarvest

/-- An interface and the names of its members, in the order of their lines, repetitions kept. -/
structure Declaration where
  interfaceName : String
  members : List String
  deriving DecidableEq, Repr

namespace Declaration

/-- The text in front of an interface's name. -/
def keyword : List Char := "interface ".toList

/-- Whether some line declares the interface. -/
def declares (lines : List String) (name : String) : Bool :=
  lines.any fun l => Text.occurs (keyword ++ name.toList) l.toList

/-- The last word before the first parenthesis. -/
def memberName (line : String) : String :=
  String.ofList (Text.lastWord (line.toList.takeWhile (· != '(')))

/-- Whether a line counts as a member's. -/
def holdsMember (line : String) : Bool := line.toList.contains '('

/-- One name for every line with a parenthesis. -/
def memberNames (lines : List String) : List String := (lines.filter holdsMember).map memberName

/-- The declaration that a file gives for a name. -/
def ofLines (lines : List String) (name : String) : Declaration := ⟨name, memberNames lines⟩

@[simp] theorem interfaceName_ofLines (lines : List String) (name : String) :
    (ofLines lines name).interfaceName = name := rfl

end Declaration
end MemberHarvest
