import MemberHarvest.Text.Split

/-!
# Member/Body — the lines that belong to a member

A member's signature is the first line that holds its name. Its body starts on the next line and
ends before the next line but one that speaks of something public or private (`bodyEnd`): the end is
the index in front of that line, and `sliceBody` leaves the line at the end out. Where no such line
follows, the end is 0, or with the fallback the last line.

`bodyEnd` counts from a line of the file, `bodyEndAt?` from any whole number: a negative index
stands for a line counted from the end, and the search then goes on through the whole file.
-/

namespace MemberHarvest.Body

/-- The index of the first line that holds the text. -/
def signatureLine? (lines : List String) (member : String) : Option Nat :=
  lines.findIdx? (fun l => Text.occurs member.toList l.toList)

/-- The index of the line behind the signature; the first line where there is no signature. -/
def startLine (lines : List String) (member : String) : Nat :=
  match signatureLine? lines member with
  | some i => i + 1
  | none => 0

/-- **A body starts at a line of the file or right behind the last one.** -/
theorem startLine_le (lines : List String) (member : String) :
    startLine lines member ≤ lines.length := by
  simp only [startLine]
  split
  · rename_i i h
    have := (List.findIdx?_eq_some_iff_getElem.1 h).1
    omega
  · exact Nat.zero_le _

/-- Whether a line speaks of something public or private. -/
def marksMember (line : String) : Bool :=
  Text.occurs "public".toList line.toList || Text.occurs "private".toList line.toList

/-- The end of a body for which no line marks the end. -/
def openEnd (fallback : Bool) (lines : List String) : Int :=
  if fallback then lines.length - 1 else 0

/-- The end of a body that starts at `start`, where the lines behind its first one are `behind`. -/
def endAmong (fallback : Bool) (lines behind : List String) (start : Int) : Int :=
  match behind.findIdx? marksMember with
  | some k => start + k
  | none => openEnd fallback lines

/-- The end of the body that starts at a line. -/
def bodyEnd (fallback : Bool) (lines : List String) (start : Nat) : Int :=
  endAmong fallback lines (lines.drop (start + 1)) start

/-! ## Counting from the end -/

/-- The lines from an index on; from a negative index, counted from the end, the lines to the end
and then the whole file. Nothing where the index lies before the first line. -/
def linesFrom? (lines : List String) (i : Int) : Option (List String) :=
  if 0 ≤ i then some (lines.drop i.toNat)
  else if i < -lines.length then none
  else some (lines.drop (lines.length + i).toNat ++ lines)

/-- The end of the body that starts at any whole number; nothing where the line behind it lies
before the first line. -/
def bodyEndAt? (fallback : Bool) (lines : List String) (start : Int) : Option Int :=
  (linesFrom? lines (start + 1)).map fun behind => endAmong fallback lines behind start

/-- **Both ways of counting agree on the lines of the file.** -/
theorem bodyEndAt?_natCast (fallback : Bool) (lines : List String) (start : Nat) :
    bodyEndAt? fallback lines start = some (bodyEnd fallback lines start) := by
  have h : ((start : Int) + 1).toNat = start + 1 := by omega
  have hp : (0 : Int) ≤ start + 1 := by omega
  simp [bodyEndAt?, linesFrom?, bodyEnd, h, hp]

/-! ## The text of a body -/

/-- The number of lines in front of an index; a negative index counts from the end. -/
def position (count : Nat) (i : Int) : Nat := if i < 0 then (count + i).toNat else min i.toNat count

/-- The lines from `start` up to `stop`, joined by line ends. -/
def sliceBody (lines : List String) (start stop : Int) : String :=
  if stop ≤ start then ""
  else
    "\n".intercalate
      ((lines.take (position lines.length stop)).drop (position lines.length start))

end MemberHarvest.Body
