import MemberHarvest.Text.Utf8

/-!
# Text/Utf16 — text as pairs of bytes

A character is one unit of sixteen bits or a pair of surrogates. Either byte of a unit may come
first.
-/

namespace MemberHarvest.Text.Utf16

/-- Which byte of a unit comes first. -/
inductive Order where
  | little
  | big
  deriving DecidableEq, Repr

/-- The value of a unit. -/
def unit : Order → UInt8 → UInt8 → Nat
  | .little, a, b => a.toNat + 256 * b.toNat
  | .big, a, b => 256 * a.toNat + b.toNat

/-- The units of the bytes, and whether a byte is left over. -/
def units (order : Order) : Bytes → List Nat × Bool
  | [] => ([], false)
  | [_] => ([], true)
  | a :: b :: rest =>
    let (us, odd) := units order rest
    (unit order a b :: us, odd)

/-- How far units can be read: to their end, to a first surrogate that they end with, or to a unit
that fits no character. -/
inductive Reading where
  | complete (cs : List Char)
  | cut (cs : List Char)
  | broken
  deriving DecidableEq, Repr

/-- Put a character in front of what is read. -/
def Reading.cons (c : Char) : Reading → Reading
  | .complete cs => .complete (c :: cs)
  | .cut cs => .cut (c :: cs)
  | .broken => .broken

/-- Read units. -/
def read : List Nat → Reading
  | [] => .complete []
  | u :: rest =>
    if u < 0xD800 ∨ 0xE000 ≤ u then (read rest).cons (Char.ofNat u)
    else if 0xDC00 ≤ u then .broken
    else
      match rest with
      | [] => .cut []
      | v :: rest =>
        if 0xDC00 ≤ v ∧ v < 0xE000 then
          (read rest).cons (Char.ofNat (0x10000 + (u - 0xD800) * 1024 + (v - 0xDC00)))
        else .broken

/-- The text that bytes stand for. -/
def decode? (order : Order) (bytes : Bytes) : Option (List Char) :=
  match units order bytes with
  | (us, false) =>
    match read us with
    | .complete cs => some cs
    | _ => none
  | (_, true) => none

/-- Whether some unit of the bytes fits no character, whatever bytes follow. -/
def isBroken (order : Order) (bytes : Bytes) : Bool := read (units order bytes).1 == .broken

/-- Whether the bytes hold at least one whole character. -/
def startsText (order : Order) (bytes : Bytes) : Bool :=
  match read (units order bytes).1 with
  | .complete (_ :: _) | .cut (_ :: _) => true
  | _ => false

/-- The order that a byte order mark shows, and the bytes behind it. -/
def byMark? : Bytes → Option (Order × Bytes)
  | 0xFF :: 0xFE :: rest => some (.little, rest)
  | 0xFE :: 0xFF :: rest => some (.big, rest)
  | _ => none

end MemberHarvest.Text.Utf16
