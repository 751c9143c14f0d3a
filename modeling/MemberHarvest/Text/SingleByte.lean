import MemberHarvest.Text.Utf8

/-!
# Text/SingleByte — encodings with one byte for a character

Each is given by the code points that differ from the bytes themselves, and by the bytes that stand
for no character.
-/

namespace MemberHarvest.Text

/-- An encoding with one byte for a character. -/
inductive SingleByte where
  | ascii
  | latin1
  | latin9
  | windows1252
  deriving DecidableEq, Repr

namespace SingleByte

/-- The code points of the bytes from 0x80 to 0x9F in the code page 1252; zero for no character. -/
def windowsPoints : List Nat :=
  [0x20AC, 0, 0x201A, 0x0192, 0x201E, 0x2026, 0x2020, 0x2021, 0x02C6, 0x2030, 0x0160, 0x2039,
    0x0152, 0, 0x017D, 0, 0, 0x2018, 0x2019, 0x201C, 0x201D, 0x2022, 0x2013, 0x2014, 0x02DC,
    0x2122, 0x0161, 0x203A, 0x0153, 0, 0x017E, 0x0178]

/-- The bytes that Latin-9 reads differently from Latin-1. -/
def latin9Points : List (Nat × Nat) :=
  [(0xA4, 0x20AC), (0xA6, 0x160), (0xA8, 0x161), (0xB4, 0x17D), (0xB8, 0x17E), (0xBC, 0x152),
    (0xBD, 0x153), (0xBE, 0x178)]

/-- The character of a byte. -/
def char? (e : SingleByte) (b : UInt8) : Option Char :=
  let n := b.toNat
  match e with
  | .ascii => if n < 0x80 then some (Char.ofNat n) else none
  | .latin1 => some (Char.ofNat n)
  | .latin9 => some (Char.ofNat ((latin9Points.lookup n).getD n))
  | .windows1252 =>
    if 0x80 ≤ n ∧ n < 0xA0 then
      match windowsPoints[n - 0x80]? with
      | some p => if p = 0 then none else some (Char.ofNat p)
      | none => none
    else some (Char.ofNat n)

/-- The text that bytes stand for. -/
def decode? (e : SingleByte) (bytes : Bytes) : Option (List Char) := bytes.mapM e.char?

end SingleByte
end MemberHarvest.Text
