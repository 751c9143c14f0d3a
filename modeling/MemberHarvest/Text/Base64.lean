import MemberHarvest.Text.Utf8

/-!
# Text/Base64 — bytes written with sixty-four characters

Three bytes are four characters of six bits each, and padding fills the last group. The reader skips
every other character, and stops where the padding has filled a group.
-/

namespace MemberHarvest.Text.Base64

/-- The six bits of a character. -/
def sextet? (c : Char) : Option Nat :=
  if 'A' ≤ c ∧ c ≤ 'Z' then some (c.toNat - 65)
  else if 'a' ≤ c ∧ c ≤ 'z' then some (c.toNat - 71)
  else if '0' ≤ c ∧ c ≤ '9' then some (c.toNat + 4)
  else if c = '+' then some 62
  else if c = '/' then some 63
  else none

/-- The bytes of the rest of a text, inside a group with `held` characters, of which the last leaves
`bits`; `pads` counts the padding since then. -/
def decodeFrom? (held bits pads : Nat) : List Char → Option Bytes
  | [] => if held = 0 then some [] else none
  | c :: cs =>
    if c = '=' then
      if 2 ≤ held ∧ 4 ≤ held + pads + 1 then some []
      else decodeFrom? held bits (if 2 ≤ held then pads + 1 else pads) cs
    else
      match sextet? c with
      | none => decodeFrom? held bits pads cs
      | some n =>
        match held with
        | 0 => decodeFrom? 1 n 0 cs
        | 1 => (decodeFrom? 2 (n % 16) 0 cs).map (UInt8.ofNat (bits * 4 + n / 16) :: ·)
        | 2 => (decodeFrom? 3 (n % 4) 0 cs).map (UInt8.ofNat (bits * 16 + n / 4) :: ·)
        | _ => (decodeFrom? 0 0 0 cs).map (UInt8.ofNat (bits * 64 + n) :: ·)

/-- The bytes that a text stands for; nothing where the last group is not filled. -/
def decode? (cs : List Char) : Option Bytes := decodeFrom? 0 0 0 cs

example : decode? "TWE\nu".toList = some [77, 97, 46] ∧ decode? "TQ==".toList = some [77] ∧
    decode? "TQ=".toList = none ∧ decode? "=".toList = some [] := by
  decide +kernel

end MemberHarvest.Text.Base64
