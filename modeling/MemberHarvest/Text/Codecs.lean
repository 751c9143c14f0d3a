import MemberHarvest.Text.Encoding

/-!
# Text/Codecs — the encodings that a system knows

The library reads a few encodings itself (`Text/Encoding`), and every other name is looked up in the
registry of the system. The registry is open: it may hold any encodings under any names, and each of
them may refuse bytes in its own words.
-/

namespace MemberHarvest.Text

/-- A registry of encodings: what bytes are read as under a name, and the page of a name, the
characters of the bytes from 0 to 255, where `\ufffd` stands for no character. The page of an
encoding with more than one byte for a character has another length. -/
structure Codecs where
  read : String → Bytes → Except Encoding.Cause (List Char)
  page : String → Except Encoding.Cause (List Char)

namespace Codecs

/-- A registry without encodings. -/
def empty : Codecs := ⟨fun _ _ => .error .unknown, fun _ => .error .unknown⟩

/-- The text that bytes stand for in the encoding of a name. -/
def decode (c : Codecs) (name : String) (bytes : Bytes) : Except Encoding.Cause (List Char) :=
  match Encoding.ofName? name with
  | some e => e.decode bytes
  | none => c.read name bytes

end Codecs
end MemberHarvest.Text
