import MemberHarvest.Number.Binary64
import MemberHarvest.Text.Lines
import MemberHarvest.Text.Utf8

/-!
# Text/Chunks — a file that is decoded little by little

A file is decoded chunk by chunk, and where the bytes of a chunk are no text, nothing of this chunk
is known. So a file that is no text is known up to the chunk in which this shows.
-/

namespace MemberHarvest.Text

namespace Utf8

/-- The first character of some bytes, and the bytes behind it. -/
def first? (bytes : Bytes) : Option (Char × Bytes) :=
  [1, 2, 3, 4].findSome? fun n =>
    match decode? (bytes.take n) with
    | some [c] => some (c, bytes.drop n)
    | _ => none

/-- The characters at the beginning of some bytes, and the bytes behind them. -/
def front : Nat → Bytes → List Char × Bytes
  | 0, bytes => ([], bytes)
  | fuel + 1, bytes =>
    match first? bytes with
    | none => ([], bytes)
    | some (c, rest) =>
      let (cs, rest) := front fuel rest
      (c :: cs, rest)

/-- Whether bytes are the beginning of a character, or none. The least and the greatest bytes that
continue a character tell this. -/
def isBeginning (bytes : Bytes) : Bool :=
  [0, 1, 2, 3].any fun n =>
    [0x80, 0xBF].any fun b => (decode? (bytes ++ List.replicate n b)).isSome

end Utf8

namespace Chunks

/-- How many bytes a chunk has, if the last one does not suggest more. -/
def leastSize : Nat := 8192

/-- How many characters are asked for at a time. -/
def portion : Nat := 4096

/-- How far a file is decoded: its characters, the bytes behind them, which begin a character at
most, and how many bytes the last chunk had and how many characters came of them. -/
structure Progress where
  decoded : List Char
  held : Bytes
  bytes : Nat
  characters : Nat

/-- What is known of a text so far. Its last carriage return may still be part of a line end. -/
def known (cs : List Char) : List Char :=
  unifyNewlines (if cs.getLast? = some '\r' then cs.dropLast else cs)

namespace Progress

/-- How many bytes the next chunk has: enough for the characters that are missing in this portion,
if there are as many bytes for a character as before. -/
def size (p : Progress) : Nat :=
  if p.characters = 0 then leastSize
  else
    let missing := portion - (known p.decoded).length % portion
    let ratio := Binary64.nearest false (p.bytes * Binary64.one) p.characters
    match ratio.mul (.ofInt missing) with
    | .finite _ units => max leastSize (units / Binary64.one)
    | _ => leastSize

/-- The characters in front of the chunk that is no text, from the bytes that are left. -/
def readable (p : Progress) : Nat → Bytes → List Char
  | 0, _ => known p.decoded
  | fuel + 1, left =>
    let chunk := left.take p.size
    let (cs, held) := Utf8.front (p.held.length + chunk.length) (p.held ++ chunk)
    if chunk.isEmpty || !Utf8.isBeginning held then known p.decoded
    else
      let decoded := p.decoded ++ cs
      let characters := (known decoded).length - (known p.decoded).length
      readable ⟨decoded, held, chunk.length, characters⟩ fuel (left.drop p.size)

end Progress

/-- The characters of a file that is no text, as far as they are known. -/
def readable (bytes : Bytes) : List Char :=
  Progress.readable ⟨[], [], 0, 0⟩ (bytes.length + 1) bytes

end Chunks
end MemberHarvest.Text
