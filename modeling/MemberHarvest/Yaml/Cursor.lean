import MemberHarvest.Text.Hex
import MemberHarvest.Yaml.Fault

/-!
# Yaml/Cursor — a place in a text, with its line and column

Lines end at `\n`, at the next-line character and at the two Unicode separators; the first two count
as `\n`. A fault is met at a place: a text that is not known up to there does not show it.
-/

namespace MemberHarvest.Yaml

/-- Whether a document may hold the character. -/
def isPrintable (c : Char) : Bool :=
  let n := c.toNat
  n == 9 || n == 10 || n == 13 || (0x20 ≤ n && n ≤ 0x7E) || n == 0x85 || (0xA0 ≤ n && n ≤ 0xFFFD) ||
    0x10000 ≤ n

/-- Whether a character ends a line. -/
def isBreak (c : Char) : Bool :=
  c == '\n' || c == '\u0085' || c == '\u2028' || c == '\u2029'

/-- Whether a character is a space or a tabulator. -/
def isGap (c : Char) : Bool := c == ' ' || c == '\t'

/-- Whether nothing, a line end or a gap comes next. -/
def endsToken : Option Char → Bool
  | none => true
  | some c => isGap c || isBreak c

/-- Whether nothing, a line end or a space comes next. -/
def endsWord : Option Char → Bool
  | none => true
  | some c => c == ' ' || isBreak c

/-- Whether nothing or a line end comes next. -/
def endsLine : Option Char → Bool
  | none => true
  | some c => isBreak c

/-- A place in a text: what is left of it, and where the place lies. -/
structure Cursor where
  rest : List Char
  index : Nat
  line : Nat
  column : Nat
  deriving DecidableEq, Repr

namespace Cursor

/-- The beginning of a text. -/
def start (cs : List Char) : Cursor := ⟨cs, 0, 0, 0⟩

/-- The next character. -/
def peek (c : Cursor) : Option Char := c.rest.head?

/-- The character `k` places further on. -/
def peekAt (c : Cursor) (k : Nat) : Option Char := c.rest[k]?

/-- One character further on. A byte order mark takes no column. -/
def next (c : Cursor) : Cursor :=
  match c.rest with
  | [] => c
  | ch :: rest =>
    if isBreak ch then ⟨rest, c.index + 1, c.line + 1, 0⟩
    else ⟨rest, c.index + 1, c.line, if ch = '\ufeff' then c.column else c.column + 1⟩

/-- Some characters further on. -/
def advance : Nat → Cursor → Cursor
  | 0, c => c
  | n + 1, c => advance n c.next

/-- The characters of a class, and the place behind them. -/
def takeWhile (p : Char → Bool) (c : Cursor) : List Char × Cursor :=
  let run := c.rest.takeWhile p
  (run, c.advance run.length)

/-- The place behind the characters of a class. -/
def skipWhile (p : Char → Bool) (c : Cursor) : Cursor := (c.takeWhile p).2

/-- The place behind spaces. -/
def skipSpaces (c : Cursor) : Cursor := c.skipWhile (· == ' ')

/-- A line end, as it counts, and the place behind it. -/
def lineBreak? (c : Cursor) : Option (Char × Cursor) :=
  match c.peek with
  | some ch =>
    if isBreak ch then some (if ch = '\u0085' then '\n' else ch, c.next) else none
  | none => none

/-- The end of the line, if only spaces and a comment are left on it. -/
def lineEnd? (c : Cursor) : Option Cursor :=
  let c := c.skipSpaces
  let c := if c.peek = some '#' then c.skipWhile (fun ch => !isBreak ch) else c
  if endsLine c.peek then some ((c.lineBreak?.map (·.2)).getD c) else none

/-- Whether the three characters of a document's beginning or end stand here. -/
def isAtMark (mark : List Char) (c : Cursor) : Bool :=
  mark.isPrefixOf c.rest && endsToken (c.peekAt 3)

/-- Whether a document begins or ends here. -/
def isAtDocumentMark (c : Cursor) : Bool :=
  c.isAtMark ['-', '-', '-'] || c.isAtMark ['.', '.', '.']

/-- Up to where a scalar that began at a place is looked at to find its end here. Each of its lines
might begin with a document mark. -/
def sightFrom (start c : Cursor) : Nat :=
  if c.line = start.line then c.index
  else max c.index (c.index - c.column + if c.isAtDocumentMark then 3 else 2)

end Cursor

/-- A fault, and up to where the text is looked at to find it. -/
structure Snag where
  fault : Fault
  index : Nat
  deriving DecidableEq, Repr

namespace Cursor

/-- Nothing that makes sense stands here. -/
def refuse {α : Type} (c : Cursor) : Except Snag α := .error ⟨.form, c.index⟩

/-- The number that hexadecimal digits from here on denote. -/
def hexNumber (width : Nat) (c : Cursor) : Except Snag Nat :=
  let digits := (c.rest.take width).takeWhile fun ch => (Text.hexValue? ch).isSome
  match if digits.length = width then Text.ofHex? digits else none with
  | some n => .ok n
  | none => (c.advance digits.length).refuse

end Cursor
end MemberHarvest.Yaml
