/-!
# Json/Value — the values that an output document holds
-/

namespace MemberHarvest

/-- A document value; the fields of an object keep their order. -/
inductive Json where
  | text (s : String)
  | integer (i : Int)
  | array (items : List Json)
  | object (fields : List (String × Json))

namespace Json

/-- Whether a word of 64 bits holds the integer, signed or unsigned: from `-2 ^ 63` on, below
`2 ^ 64`. -/
def fitsWord (i : Int) : Bool := -9223372036854775808 ≤ i && i < 18446744073709551616

mutual

/-- Whether every integer in the value fits a machine word. -/
def isWritable : Json → Bool
  | .text _ => true
  | .integer i => fitsWord i
  | .array items => areWritable items
  | .object fields => areWritableFields fields

/-- Whether every integer in the items fits a machine word. -/
def areWritable : List Json → Bool
  | [] => true
  | v :: vs => v.isWritable && areWritable vs

/-- Whether every integer in the fields fits a machine word. -/
def areWritableFields : List (String × Json) → Bool
  | [] => true
  | (_, v) :: rest => v.isWritable && areWritableFields rest

end

end Json
end MemberHarvest
