/-!
# Text/Hex — numbers of a fixed width in base sixteen
-/

namespace MemberHarvest.Text

/-- The digit of a value below sixteen, small letters from ten. -/
def hexDigit (n : Nat) : Char :=
  if n < 10 then Char.ofNat (48 + n) else Char.ofNat (87 + n)

/-- The value of a digit, capitals and small letters alike. -/
def hexValue? (c : Char) : Option Nat :=
  if '0' ≤ c ∧ c ≤ '9' then some (c.toNat - 48)
  else if 'a' ≤ c ∧ c ≤ 'f' then some (c.toNat - 87)
  else if 'A' ≤ c ∧ c ≤ 'F' then some (c.toNat - 55)
  else none

/-- The last `width` digits of a number. -/
def hexDigits : Nat → Nat → List Char
  | 0, _ => []
  | width + 1, n => hexDigits width (n / 16) ++ [hexDigit (n % 16)]

/-- The number that digits denote. -/
def ofHex? (cs : List Char) : Option Nat :=
  cs.foldl (fun acc c => do return 16 * (← acc) + (← hexValue? c)) (some 0)

theorem hexValue?_hexDigit {n : Nat} (h : n < 16) : hexValue? (hexDigit n) = some n := by
  have : ∀ m : Fin 16, hexValue? (hexDigit m) = some m.1 := by decide
  exact this ⟨n, h⟩

theorem ofHex?_append_singleton (cs : List Char) (c : Char) :
    ofHex? (cs ++ [c]) = (do return 16 * (← ofHex? cs) + (← hexValue? c)) := by
  simp [ofHex?, List.foldl_append]

/-- **Reading the digits gives back the number,** modulo what the width can hold. -/
theorem ofHex?_hexDigits (width n : Nat) :
    ofHex? (hexDigits width n) = some (n % Nat.pow 16 width) := by
  induction width generalizing n with
  | zero => simp [hexDigits, ofHex?, Nat.mod_one]
  | succ w ih =>
    rw [hexDigits, ofHex?_append_singleton, ih, hexValue?_hexDigit (Nat.mod_lt _ (by decide))]
    simp only [Option.pure_def, Option.bind_eq_bind, Option.bind_some, Option.some.injEq]
    show 16 * (n / 16 % Nat.pow 16 w) + n % 16 = n % (Nat.pow 16 w * 16)
    rw [Nat.mul_comm _ 16, Nat.mod_mul, Nat.add_comm]

end MemberHarvest.Text
