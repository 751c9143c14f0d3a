import MemberHarvest.Text.Hex
import MemberHarvest.Text.Split
import MemberHarvest.Xml.Name

/-!
# Xml/Reference — references between an ampersand and a semicolon

A reference gives a character by its code point or an entity by its name. In a value, everything
else is a character of its own, and white space counts as a space.
-/

namespace MemberHarvest.Xml

/-- A piece of a value. -/
inductive Piece where
  | char (c : Char)
  | entity (name : String)
  deriving DecidableEq, Repr

/-- The number that decimal digits denote. -/
def ofDecimal? (cs : List Char) : Option Nat :=
  cs.foldl (fun acc c => do
    let n ← acc
    if '0' ≤ c ∧ c ≤ '9' then some (10 * n + (c.toNat - 48)) else none) (some 0)

/-- The character of a code point, if a document may hold it. -/
def xmlChar? (n : Nat) : Option Char :=
  if n.isValidChar ∧ isXmlChar (Char.ofNat n) then some (Char.ofNat n) else none

/-- The reference that the text between the ampersand and the semicolon makes. -/
def Piece.ofReference? : List Char → Option Piece
  | '#' :: 'x' :: ds => do
    if ds.isEmpty then none else return .char (← xmlChar? (← Text.ofHex? ds))
  | '#' :: ds => do
    if ds.isEmpty then none else return .char (← xmlChar? (← ofDecimal? ds))
  | cs =>
    match takeName? cs with
    | some (name, []) => some (.entity (String.ofList name))
    | _ => none

/-- The entities that every document has. -/
def predefined? : String → Option Char
  | "lt" => some '<'
  | "gt" => some '>'
  | "amp" => some '&'
  | "quot" => some '"'
  | "apos" => some '\x27'
  | _ => none

/-- The pieces of a text, where `open?` holds the characters since an ampersand, last one first. The
function `plain?` reads the characters outside references. -/
def piecesFrom (plain? : Char → Option Piece) (open? : Option (List Char)) :
    List Char → Option (List Piece)
  | [] => if open?.isSome then none else some []
  | c :: cs =>
    match open? with
    | some before =>
      if c = ';' then do
        let p ← Piece.ofReference? before.reverse
        return p :: (← piecesFrom plain? none cs)
      else piecesFrom plain? (some (c :: before)) cs
    | none =>
      if c = '&' then piecesFrom plain? (some []) cs
      else do
        let p ← plain? c
        return p :: (← piecesFrom plain? none cs)

/-- A character of an attribute's value. -/
def attributeChar? (c : Char) : Option Piece :=
  if c = '<' ∨ !isXmlChar c then none else some (.char (if isSpace c then ' ' else c))

/-- The pieces of an attribute's value. -/
def attributePieces? : List Char → Option (List Piece) := piecesFrom attributeChar? none

/-- A character of an entity's text as it is declared. -/
def entityChar? (c : Char) : Option Piece := if c = '%' ∨ !isXmlChar c then none else some (.char c)

/-- The text of an entity from its declaration: references to characters are replaced, and
references to entities stay for later. -/
def entityText? (cs : List Char) : Option (List Char) :=
  (piecesFrom entityChar? none cs).map fun ps => ps.flatMap fun
    | .char c => [c]
    | .entity n => '&' :: n.toList ++ [';']

end MemberHarvest.Xml
