import MemberHarvest.Text.SingleByte
import MemberHarvest.Text.Utf16

/-!
# Text/Encoding — the encodings a file may be written in, and their names

These are the encodings that the library reads itself; what else a system knows is in its registry
(`Text/Codecs`). A name is compared without regard to capitals. Between two of its letters, digits
and dots every run of other characters counts as one underscore; elsewhere such characters do not
count.
-/

namespace MemberHarvest.Text

/-- An encoding. Of those with more than one byte for a character, some expect a byte order mark or
drop one. -/
inductive Encoding where
  | utf8
  | utf8Marked
  | utf16Marked
  | utf16 (order : Utf16.Order)
  | singleByte (e : SingleByte)
  deriving DecidableEq, Repr

namespace Encoding

/-! ## Names -/

/-- Whether a character of a name counts as it is. -/
def countsInName (c : Char) : Bool := c.isAlphanum || c == '.'

/-- The compared form of a name that goes on behind other characters (`pending`) or not. -/
def plainRest (pending : Bool) : List Char → List Char
  | [] => []
  | c :: cs =>
    if countsInName c then (if pending then ['_'] else []) ++ c.toLower :: plainRest false cs
    else plainRest true cs

/-- The compared form of a name. -/
def plainName (name : String) : String :=
  String.ofList (plainRest false (name.toList.dropWhile (fun c => !countsInName c)))

/-- The encodings under all their names. -/
def table : List (Encoding × List String) :=
  [(.utf8, ["utf_8", "u8", "utf", "utf8", "utf8_ucs2", "utf8_ucs4", "cp65001"]),
    (.utf8Marked, ["utf_8_sig"]),
    (.utf16Marked, ["utf_16", "u16", "utf16"]),
    (.utf16 .little, ["utf_16_le", "utf_16le", "unicodelittleunmarked"]),
    (.utf16 .big, ["utf_16_be", "utf_16be", "unicodebigunmarked"]),
    (.singleByte .ascii,
      ["ascii", "646", "ansi_x3.4_1968", "ansi_x3_4_1968", "ansi_x3.4_1986", "cp367", "csascii",
        "ibm367", "iso646_us", "iso_646.irv_1991", "iso_ir_6", "us", "us_ascii"]),
    (.singleByte .latin1,
      ["latin_1", "8859", "cp819", "csisolatin1", "ibm819", "iso8859", "iso8859_1", "iso_8859_1",
        "iso_8859_1_1987", "iso_ir_100", "l1", "latin", "latin1"]),
    (.singleByte .latin9,
      ["iso8859_15", "iso_8859_15", "latin9", "l9"]),
    (.singleByte .windows1252, ["cp1252", "1252", "windows_1252"])]

/-- The encoding of a name. -/
def ofName? (name : String) : Option Encoding :=
  (table.find? (fun row => row.2.contains (plainName name))).map (·.1)

/-! ## Decoding -/

/-- Why bytes are not read as text: some of them fit no character, a byte order mark is missing, no
encoding has the name, or the encoding says in its own words what is wrong. -/
inductive Cause where
  | undecodable
  | noMark
  | unknown
  | other (message : String)
  deriving DecidableEq, Repr

/-- A text, or the failure that it is undecodable. -/
def orUndecodable (text? : Option (List Char)) : Except Cause (List Char) :=
  match text? with
  | some cs => .ok cs
  | none => .error .undecodable

/-- Drop one byte order mark. Bytes that are only the beginning of a mark count as nothing. -/
def dropMark (bytes : Bytes) : Bytes :=
  if bytes.isPrefixOf Utf8.mark then []
  else if Utf8.mark.isPrefixOf bytes then bytes.drop 3 else bytes

/-- The text behind a byte order mark. Without a mark there is none: the bytes are undecodable if
some of them fit no character, and lack the mark otherwise. -/
def decodeMarked (bytes : Bytes) : Except Cause (List Char) :=
  match Utf16.byMark? bytes with
  | some (order, rest) => orUndecodable (Utf16.decode? order rest)
  | none =>
    if bytes.isEmpty then .ok []
    else if Utf16.isBroken .little bytes ∨ !Utf16.startsText .little bytes then
      .error .undecodable
    else .error .noMark

/-- The text that bytes stand for. -/
def decode (e : Encoding) (bytes : Bytes) : Except Cause (List Char) :=
  match e with
  | .utf8 => orUndecodable (Utf8.decode? bytes)
  | .utf8Marked => orUndecodable (Utf8.decode? (dropMark bytes))
  | .utf16Marked => decodeMarked bytes
  | .utf16 order => orUndecodable (Utf16.decode? order bytes)
  | .singleByte s => orUndecodable (s.decode? bytes)

example :
    ofName? "UTF-8-sig" = some .utf8Marked ∧ ofName? " Latin 1!" = some (.singleByte .latin1) ∧
    ofName? "" = none := by
  decide

end Encoding
end MemberHarvest.Text
