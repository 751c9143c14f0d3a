import MemberHarvest.Text.Split

/-!
# Text/Lines — line ends

Three characters or pairs end a line of a source file: `\r\n`, `\r` and `\n`. `unifyNewlines` writes
each as `\n`, `sourceLines` cuts there. A listing that is meant for display also breaks at the
vertical tab, the form feed, three information separators, the next-line character and the two
Unicode separators (`displayLines`).
-/

namespace MemberHarvest.Text

/-- Every `\r\n` and every other `\r` as one `\n`. -/
def unifyNewlines : List Char → List Char
  | [] => []
  | '\r' :: '\n' :: cs => '\n' :: unifyNewlines cs
  | '\r' :: cs => '\n' :: unifyNewlines cs
  | c :: cs => c :: unifyNewlines cs

/-- The lines of a source file, without their ends. -/
def sourceLines (cs : List Char) : List (List Char) := linesBy (· == '\n') (unifyNewlines cs)

/-- The characters that end a displayed line. -/
def isDisplayBreak (c : Char) : Bool :=
  let n := c.toNat
  (10 ≤ n && n ≤ 13) || (28 ≤ n && n ≤ 30) || n == 0x85 || n == 0x2028 || n == 0x2029

/-- The lines as a display shows them, without their ends. -/
def displayLines (cs : List Char) : List (List Char) := linesBy isDisplayBreak (unifyNewlines cs)

end MemberHarvest.Text
