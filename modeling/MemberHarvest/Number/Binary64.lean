/-!
# Number/Binary64 — floating-point numbers of double precision

Every finite number of this format is a whole multiple of the smallest positive one, `2 ^ -1074`, so
its size is kept as that multiple, in **units**. `nearest` rounds a quotient to the format, a tie to
the even neighbour; sums and products are exact on units and then rounded.
-/

namespace MemberHarvest

/-- A number in double precision. -/
inductive Binary64 where
  | finite (negative : Bool) (units : Nat)
  | infinite (negative : Bool)
  | nan
  deriving DecidableEq, Repr

namespace Binary64

/-- How many units make one. -/
def one : Nat := Nat.pow 2 1074

/-- The number of units from which on a size is infinite. -/
def limit : Nat := Nat.pow 2 2098

/-- The nearest whole number to a quotient, a tie to the even one. -/
def roundHalfEven (num den : Nat) : Nat :=
  let q := num / den
  let r := num % den
  if 2 * r < den ∨ (2 * r = den ∧ q % 2 = 0) then q else q + 1

/-- The distance between neighbouring numbers at a size, in units. -/
def gap (units : Nat) : Nat := Nat.pow 2 (units.log2 - 52)

/-- The size in units that is nearest to a quotient. -/
def nearestUnits (num den : Nat) : Nat :=
  let g := gap (num / den)
  roundHalfEven num (den * g) * g

/-- The number of a sign and a size in units. -/
def ofUnits (negative : Bool) (units : Nat) : Binary64 :=
  if units < limit then .finite negative units else .infinite negative

/-- The number nearest to a quotient of units. -/
def nearest (negative : Bool) (num den : Nat) : Binary64 := ofUnits negative (nearestUnits num den)

/-- The number nearest to `digits * 10 ^ exponent`. Exponents that are certain to give zero or
infinity are settled first. -/
def ofDecimal (negative : Bool) (digits : Nat) (exponent : Int) : Binary64 :=
  if digits = 0 then .finite negative 0
  else if 400 < exponent then .infinite negative
  else if exponent < -400 - (digits.log2 : Int) then .finite negative 0
  else if 0 ≤ exponent then nearest negative (digits * Nat.pow 10 exponent.toNat * one) 1
  else nearest negative (digits * one) (Nat.pow 10 (-exponent).toNat)

/-- The number nearest to an integer. -/
def ofInt (i : Int) : Binary64 := nearest (i < 0) (i.natAbs * one) 1

/-- The other sign. -/
def neg : Binary64 → Binary64
  | .finite s u => .finite (!s) u
  | .infinite s => .infinite (!s)
  | .nan => .nan

/-- A signed number of units. -/
def signedUnits (negative : Bool) (units : Nat) : Int := if negative then -units else units

/-- The sum. Opposite sizes that cancel give a positive zero. -/
def add : Binary64 → Binary64 → Binary64
  | .nan, _ => .nan
  | _, .nan => .nan
  | .infinite s, .infinite t => if s = t then .infinite s else .nan
  | .infinite s, _ => .infinite s
  | _, .infinite t => .infinite t
  | .finite s u, .finite t v =>
    let sum := signedUnits s u + signedUnits t v
    if sum = 0 then .finite (s && t) 0 else nearest (sum < 0) sum.natAbs 1

/-- The product. -/
def mul : Binary64 → Binary64 → Binary64
  | .nan, _ => .nan
  | _, .nan => .nan
  | .infinite s, .infinite t => .infinite (s != t)
  | .infinite s, .finite t v => if v = 0 then .nan else .infinite (s != t)
  | .finite s u, .infinite t => if u = 0 then .nan else .infinite (s != t)
  | .finite s u, .finite t v => nearest (s != t) (u * v) one

/-- The integer that a number is, if it is one. -/
def toInt? : Binary64 → Option Int
  | .finite s u => if u % one = 0 then some (signedUnits s (u / one)) else none
  | _ => none

example : ofInt 3 = .finite false (3 * one) ∧ (ofDecimal true 15 (-1)).toInt? = none := by
  decide +kernel

example : ofDecimal false 1 (-324) = .finite false 0 ∧ ofDecimal false 5 (-324) = .finite false 1 ∧
    ofDecimal false 18 307 = .infinite false := by
  decide +kernel

end Binary64
end MemberHarvest
