import MemberHarvest.Failure
import MemberHarvest.Json.Value
import MemberHarvest.Text.Decimal

/-!
# Json/Document — the text of an output document

Each item and each field stands on a line of its own, two spaces deeper than what it belongs to.
Inside quotation marks only the mark, the backslash and the control characters below the space are
escaped.
-/

namespace MemberHarvest.Json

/-! ## Texts -/

/-- A character inside quotation marks. -/
def escapeChar (c : Char) : List Char :=
  if c = '"' ∨ c = '\\' then ['\\', c]
  else if c = '\x08' then ['\\', 'b']
  else if c = '\t' then ['\\', 't']
  else if c = '\n' then ['\\', 'n']
  else if c = '\x0c' then ['\\', 'f']
  else if c = '\r' then ['\\', 'r']
  else if c.toNat < 0x20 then '\\' :: 'u' :: Text.hexDigits 4 c.toNat
  else [c]

/-- A text between quotation marks. -/
def textChars (s : String) : List Char := '"' :: s.toList.flatMap escapeChar ++ ['"']

/-! ## Layout -/

/-- A line end and the indentation of a depth. -/
def lineStart (depth : Nat) : List Char := '\n' :: List.replicate (2 * depth) ' '

mutual

/-- The text of a value that starts at a depth. -/
def render (depth : Nat) : Json → List Char
  | .text s => textChars s
  | .integer i => Text.decimalInt i
  | .array [] => ['[', ']']
  | .array (v :: vs) =>
    '[' :: lineStart (depth + 1) ++ render (depth + 1) v ++ renderItems (depth + 1) vs ++
      lineStart depth ++ [']']
  | .object [] => ['\x7b', '\x7d']
  | .object ((k, v) :: rest) =>
    '\x7b' :: lineStart (depth + 1) ++ textChars k ++ ':' :: ' ' :: render (depth + 1) v ++
      renderFields (depth + 1) rest ++ lineStart depth ++ ['\x7d']

/-- The text of further items. -/
def renderItems (depth : Nat) : List Json → List Char
  | [] => []
  | v :: vs => ',' :: lineStart depth ++ render depth v ++ renderItems depth vs

/-- The text of further fields. -/
def renderFields (depth : Nat) : List (String × Json) → List Char
  | [] => []
  | (k, v) :: rest =>
    ',' :: lineStart depth ++ textChars k ++ ':' :: ' ' :: render depth v ++
      renderFields depth rest

end

/-- The text of a document, if its integers fit machine words. -/
def document (v : Json) : Except Failure String :=
  if v.isWritable then .ok (String.ofList (render 0 v)) else .error .wideInteger

end MemberHarvest.Json
