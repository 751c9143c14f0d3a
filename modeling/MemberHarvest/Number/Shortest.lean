import MemberHarvest.Number.Binary64
import MemberHarvest.Text.Decimal

/-!
# Number/Shortest — the fewest digits that read back

A finite number is written with the fewest digits for which some decimal number lies so close that
it rounds to the number, and among the decimal numbers with so many digits by the nearest one.
`shortest` tries 1, 2, … 17 digits; for each count only the two neighbours of the number can
qualify.
-/

namespace MemberHarvest.Binary64

/-- A decimal number `digits * 10 ^ exponent`. -/
structure Decimal where
  digits : Nat
  exponent : Int
  deriving DecidableEq, Repr

/-- The size of a decimal number, as a quotient of units. -/
def Decimal.quotient (d : Decimal) : Nat × Nat :=
  if 0 ≤ d.exponent then (d.digits * Nat.pow 10 d.exponent.toNat * one, 1)
  else (d.digits * one, Nat.pow 10 (-d.exponent).toNat)

/-- Whether a decimal number rounds to the size: it lies less than half a gap away, or exactly half
a gap where the size is an even multiple of its gap. Below a power of two the gap is half as
wide. -/
def readsBack (units : Nat) (d : Decimal) : Bool :=
  let (num, den) := d.quotient
  let g := gap units
  let below := if 1 < g ∧ units = Nat.pow 2 units.log2 then g else 2 * g
  let x := 4 * num
  let low := (4 * units - below) * den
  let high := (4 * units + 2 * g) * den
  if units / g % 2 = 0 then low ≤ x && x ≤ high else low < x && x < high

/-- The distance between a decimal number and a size, as a multiple of the decimal's denominator. -/
def distance (units : Nat) (d : Decimal) : Nat :=
  let (num, den) := d.quotient
  (num - units * den) + (units * den - num)

/-- The number of digits in front of the point, less one; negative for numbers below one. -/
def magnitude (units : Nat) : Int :=
  if one ≤ units then ((Text.decimal (units / one)).length : Int) - 1
  else
    match (List.range 330).find? (fun j => one ≤ units * Nat.pow 10 j) with
    | some j => -j
    | none => -330

/-- The two decimal numbers next to a size on the grid of an exponent. -/
def neighbours (units : Nat) (exponent : Int) : List Decimal :=
  let d :=
    if 0 ≤ exponent then units / (Nat.pow 10 exponent.toNat * one)
    else units * Nat.pow 10 (-exponent).toNat / one
  [⟨d, exponent⟩, ⟨d + 1, exponent⟩]

/-- The nearest decimal number on the grid of an exponent that reads back; the even one of two. -/
def onGrid? (units : Nat) (exponent : Int) : Option Decimal :=
  match (neighbours units exponent).filter (readsBack units) with
  | [d, e] =>
    if distance units d < distance units e ∨
      (distance units d = distance units e ∧ d.digits % 2 = 0) then some d else some e
  | [d] => some d
  | _ => none

/-- Leave trailing zeros to the exponent. -/
def dropZeros : Nat → Decimal → Decimal
  | 0, d => d
  | n + 1, d =>
    if d.digits % 10 = 0 then dropZeros n ⟨d.digits / 10, d.exponent + 1⟩ else d

/-- The shortest decimal number that rounds to a size. -/
def shortest (units : Nat) : Decimal :=
  if units = 0 then ⟨0, 0⟩
  else
    let top := magnitude units
    match (List.range 17).findSome? (fun i : Nat => onGrid? units (top - i)) with
    | some d => dropZeros 17 d
    | none => ⟨units, 0⟩

/-! ## Text -/

/-- Which numbers are written without an exponent: those whose first digit stands between these two
places, counted from the point. -/
def positionalFrom : Int := -4

/-- The first place that needs an exponent. -/
def positionalTo : Int := 16

/-- A decimal number with a point in it. -/
def positional (ds : List Char) (exponent : Int) : List Char :=
  if 0 ≤ exponent then ds ++ List.replicate exponent.toNat '0' ++ ['.', '0']
  else
    let whole := ds.length + exponent
    if 0 < whole then ds.take whole.toNat ++ '.' :: ds.drop whole.toNat
    else '0' :: '.' :: List.replicate (-whole).toNat '0' ++ ds

/-- A decimal number with one digit in front of the point and an exponent of two digits or more. -/
def scientific (ds : List Char) (place : Int) : List Char :=
  ds.take 1 ++ (if ds.length = 1 then [] else '.' :: ds.drop 1) ++
    ['e', if place < 0 then '-' else '+'] ++ Text.padded 2 place.natAbs

/-- The text of a number. -/
def text : Binary64 → String
  | .nan => "nan"
  | .infinite s => if s then "-inf" else "inf"
  | .finite s u =>
    let d := shortest u
    let ds := Text.decimal d.digits
    let place := d.exponent + ds.length - 1
    let body :=
      if positionalFrom ≤ place ∧ place < positionalTo then positional ds d.exponent
      else scientific ds place
    String.ofList (if s then '-' :: body else body)

example : (ofDecimal false 1 (-1)).text = "0.1" ∧ (ofDecimal true 1 16).text = "-1e+16" ∧
    (ofDecimal false 5 (-324)).text = "5e-324" ∧ (ofInt 1000).text = "1000.0" := by
  decide +kernel

end MemberHarvest.Binary64
