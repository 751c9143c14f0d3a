/-!
# Text/Utf8 — text as bytes, one to four for a character

`decode?` accepts exactly the shortest form of every character: no longer form, no surrogate and
nothing above the last code point.
-/

namespace MemberHarvest.Text

/-- Bytes of a file. -/
abbrev Bytes := List UInt8

namespace Utf8

/-- The six bits of a byte that continues a character. -/
def tail? (b : UInt8) : Option Nat := if b.toNat / 64 = 2 then some (b.toNat % 64) else none

/-- The character of a code point that is no smaller than `least`. -/
def scalar? (least n : Nat) : Option Char :=
  if least ≤ n ∧ n.isValidChar then some (Char.ofNat n) else none

/-- The character of two bytes. -/
def two? (b c : UInt8) : Option Char := do
  if b.toNat / 32 = 6 then scalar? 0x80 (b.toNat % 32 * 64 + (← tail? c)) else none

/-- The character of three bytes. -/
def three? (b c d : UInt8) : Option Char := do
  if b.toNat / 16 = 14 then
    scalar? 0x800 (b.toNat % 16 * 4096 + (← tail? c) * 64 + (← tail? d))
  else none

/-- The character of four bytes. -/
def four? (b c d e : UInt8) : Option Char := do
  if b.toNat / 8 = 30 then
    scalar? 0x10000
      (b.toNat % 8 * 262144 + (← tail? c) * 4096 + (← tail? d) * 64 + (← tail? e))
  else none

/-- The text that bytes stand for; nothing where some byte fits no character. -/
def decode? : Bytes → Option (List Char)
  | [] => some []
  | b :: r =>
    if b.toNat < 0x80 then (decode? r).map (Char.ofNat b.toNat :: ·)
    else
      match r with
      | [] => none
      | c :: r =>
        match two? b c with
        | some x => (decode? r).map (x :: ·)
        | none =>
          match r with
          | [] => none
          | d :: r =>
            match three? b c d with
            | some x => (decode? r).map (x :: ·)
            | none =>
              match r with
              | [] => none
              | e :: r =>
                match four? b c d e with
                | some x => (decode? r).map (x :: ·)
                | none => none

/-- The bytes of a text. -/
def encode (cs : List Char) : Bytes := cs.flatMap String.utf8EncodeChar

/-- The number of bytes of a text. -/
def size : List Char → Nat
  | [] => 0
  | c :: cs => c.utf8Size + size cs

/-- The byte order mark. -/
def mark : Bytes := [0xEF, 0xBB, 0xBF]

example : decode? [0xEF, 0xBB, 0xBF, 0x61] = some ['\ufeff', 'a'] ∧ decode? [0xC0, 0x80] = none ∧
    decode? [0xED, 0xA0, 0x80] = none ∧ decode? [0xF4, 0x90, 0x80, 0x80] = none ∧
    decode? (encode ['😀', 'é']) = some ['😀', 'é'] := by
  decide

end Utf8
end MemberHarvest.Text
