import MemberHarvest.Path.Basic
import MemberHarvest.Text.Codecs
import MemberHarvest.Text.Lines
import MemberHarvest.Xml.Element

/-!
# Xml/Document — from the bytes of a document to its elements

The elements come in the order of their start tags. Bytes are decoded as their first ones or the XML
declaration say; everything that is not well formed is one cause of failure. An encoding that not
every reader of documents knows is looked up by its name, and serves as far as it has one byte for a
character.
-/

namespace MemberHarvest.Xml

/-- Why bytes are no document. -/
inductive Cause where
  | malformed
  | encoding (name : String) (cause : Text.Encoding.Cause)
  | multiByteEncoding
  deriving DecidableEq, Repr

/-! ## The declaration of the encoding -/

/-- What an XML declaration says. -/
structure Heading where
  encoding : Option String
  standalone : Bool
  deriving DecidableEq, Repr

namespace Heading

/-- Whether a character may stand in a value of the heading. -/
def isValueChar (c : Char) : Bool := (c.isAlphanum || c == '.' || c == '-' || c == '_')

/-- A part of the heading, `name = "value"` behind white space, and the text behind it; nothing
where only white space is left. -/
def part? (cs : List Char) : Option (Option (List Char × List Char × List Char)) :=
  match cs with
  | [] => some none
  | c :: _ =>
    if !isSpace c then none
    else
      match dropSpace cs with
      | [] => some none
      | cs =>
        let isNamePart (c : Char) := c.toNat < 0x80 && c != '=' && !isSpace c
        let name := cs.takeWhile isNamePart
        match dropSpace (cs.dropWhile isNamePart) with
        | '=' :: rest => do
          let (value, rest) ← Token.quoted? (dropSpace rest)
          if !name.isEmpty && value.all isValueChar then return some (name, value, rest) else none
        | _ => none

/-- Read the part that tells whether the document stands alone, the last one. -/
def standalonePart? (encoding : Option String) (name value rest : List Char) : Option Heading :=
  if name = "standalone".toList ∧ rest.all isSpace then
    if value = "yes".toList then some ⟨encoding, true⟩
    else if value = "no".toList then some ⟨encoding, false⟩ else none
  else none

/-- Read the parts behind the version. -/
def behindVersion? (cs : List Char) : Option Heading := do
  match ← part? cs with
  | none => return ⟨none, false⟩
  | some (name, value, rest) =>
    if name = "encoding".toList then
      if (value.head?.map Char.isAlpha).getD false then
        let encoding := some (String.ofList value)
        match ← part? rest with
        | none => return ⟨encoding, false⟩
        | some (name, value, rest) => standalonePart? encoding name value rest
      else none
    else standalonePart? none name value rest

/-- Read the inside of a heading. -/
def ofInside? (cs : List Char) : Option Heading := do
  match ← part? cs with
  | some (name, _, rest) => if name = "version".toList then behindVersion? rest else none
  | none => none

/-- Whether a text starts with a heading. -/
def isAhead (cs : List Char) : Bool :=
  "<?xml".toList.isPrefixOf cs && ((cs.drop 5).head?.map fun c => isSpace c || c == '?').getD false

/-- The heading of a text, if it has one, and the text behind it. -/
def take? (cs : List Char) : Option (Heading × List Char) :=
  if isAhead cs then do
    let (inside, rest) ← Token.takeUntil? ['?', '>'] (cs.drop 5)
    return (← ofInside? inside, rest)
  else some (⟨none, false⟩, cs)

end Heading

/-! ## Decoding -/

/-- A text, or that the document is malformed. -/
def orMalformed {α : Type} (x : Option α) : Except Cause α :=
  match x with
  | some a => .ok a
  | none => .error .malformed

/-- An encoding known to every reader, by its name in small letters. -/
def standard? : String → Option Text.Encoding
  | "utf-8" => some .utf8
  | "iso-8859-1" => some (.singleByte .latin1)
  | "us-ascii" => some (.singleByte .ascii)
  | "utf-16le" => some (.utf16 .little)
  | "utf-16be" => some (.utf16 .big)
  | "utf-16" => some .utf16Marked
  | _ => none

/-- Whether a character below 0x80 is a blank, a sign of the markup or a part of names. Each of them
stands for itself in every document. -/
def isFixed (n : Nat) : Bool :=
  n == 0x09 || n == 0x0A || n == 0x0D ||
    (0x20 ≤ n && n < 0x7F && !"$@\\^\x60\x7b\x7d~".toList.contains (Char.ofNat n))

/-- An encoding with one byte for a character: the characters of the bytes. -/
abbrev ByteTable := UInt8 → Option Char

/-- Whether a byte may stand for a character: only for itself if one of them is fixed, and otherwise
for any character of the first plane, or for none. -/
def ByteTable.suits (table : ByteTable) (b : UInt8) : Bool :=
  match table b with
  | none => !isFixed b.toNat
  | some c => c.toNat == b.toNat || (!isFixed b.toNat && !isFixed c.toNat && c.toNat ≤ 0xFFFF)

/-- The table of a page. -/
def ByteTable.ofPage (page : List Char) : ByteTable :=
  fun b => page[b.toNat]?.filter (· != '\ufffd')

/-- The table of the encoding that a document names. -/
def tableOf (codecs : Text.Codecs) (name : String) : Except Cause ByteTable :=
  match Text.Encoding.ofName? name with
  | some (.singleByte e) => .ok e.char?
  | some .utf8 | some .utf8Marked => .ok Text.SingleByte.ascii.char?
  | some _ => .error .multiByteEncoding
  | none => do
    let page ← (codecs.page name).mapError (.encoding name)
    let table := ByteTable.ofPage page
    if page.length ≠ 256 then .error .multiByteEncoding
    else if (List.range 256).all fun n => table.suits (.ofNat n) then return table
    else .error .malformed

/-- The text of bytes of which each stands for itself up to the heading. -/
def decodeNarrow (codecs : Text.Codecs) (bytes : Text.Bytes) : Except Cause (List Char) := do
  let (heading, _) ← orMalformed (Heading.take? (bytes.map fun b => Char.ofNat b.toNat))
  match heading.encoding with
  | none => orMalformed (Text.Utf8.decode? bytes)
  | some name =>
    match standard? (Path.lowerAscii name) with
    | some .utf8 => orMalformed (Text.Utf8.decode? bytes)
    | some (.singleByte e) => orMalformed (e.decode? bytes)
    | some _ => .error .malformed
    | none => orMalformed (bytes.mapM (← tableOf codecs name))

/-- The text of bytes in pairs. The heading may name an encoding with one byte for a character, and
then the bytes behind it stand for one each. -/
def decodeWide (codecs : Text.Codecs) (order : Text.Utf16.Order) (bytes : Text.Bytes) :
    Except Cause (List Char) := do
  let units := (Text.Utf16.units order bytes).1.map Char.ofNat
  let (heading, behind) ← orMalformed (Heading.take? units)
  let paired := orMalformed (Text.Utf16.decode? order bytes)
  match heading.encoding with
  | none => paired
  | some name =>
    match standard? (Path.lowerAscii name) with
    | some .utf16Marked => paired
    | some (.utf16 declared) => if declared = order then paired else .error .malformed
    | some _ => .error .malformed
    | none =>
      let length := units.length - behind.length
      let rest ← orMalformed ((bytes.drop (2 * length)).mapM (← tableOf codecs name))
      return units.take length ++ rest

/-- The text of a document's bytes. -/
def decode (codecs : Text.Codecs) (bytes : Text.Bytes) : Except Cause (List Char) :=
  match bytes with
  | 0xFE :: 0xFF :: rest => decodeWide codecs .big rest
  | 0xFF :: 0xFE :: rest => decodeWide codecs .little rest
  | 0xEF :: 0xBB :: 0xBF :: rest => decodeNarrow codecs rest
  | 0x00 :: _ => decodeWide codecs .big bytes
  | _ :: 0x00 :: _ => decodeWide codecs .little bytes
  | _ => decodeNarrow codecs bytes

/-! ## The prologue -/

/-- The declarations in front of the root element, and the text from the last of them on. -/
def prologue? (standalone : Bool) : Nat → List Char → Option (Declared × List Char)
  | 0, _ => none
  | fuel + 1, cs =>
    match dropSpace cs with
    | '<' :: '!' :: '-' :: '-' :: rest => do prologue? standalone fuel (← Token.comment? rest)
    | '<' :: '?' :: rest => do prologue? standalone fuel (← Token.instruction? rest)
    | '<' :: '!' :: rest => do
      let (keyword, behind) ← takeName? rest
      if keyword = "DOCTYPE".toList ∧ (behind.head?.map isSpace).getD false then
        let (marks, rest) ← DoctypeMark.ofChars? behind
        return (← Declared.ofMarks? standalone marks, rest)
      else none
    | rest => some (Declared.none, rest)

/-- Whether the marks are those of one element with nothing but blanks around it. -/
def isRooted (depth : Nat) (seen : Bool) : List Token → Bool
  | [] => depth == 0 && seen
  | t :: ts =>
    match t with
    | .start _ closed =>
      (depth != 0 || !seen) && isRooted (if closed then depth else depth + 1) true ts
    | .stop _ => depth != 0 && isRooted (depth - 1) seen ts
    | .blank | .skipped => isRooted depth seen ts
    | .data | .entity _ => depth != 0 && isRooted depth seen ts

/-! ## Elements -/

/-- An element that is open: its name as it is written, and the scope inside it. -/
structure Frame where
  name : QName
  scope : Scope
  deriving DecidableEq, Repr

/-- The elements of marks, where `inside` gives the elements of an entity and `outer` is the scope
around the open elements. -/
def elementsWith (d : Declared) (inside : Scope → String → Option (List Element)) (outer : Scope) :
    List Frame → List Token → Option (List Element)
  | [], [] => some []
  | _ :: _, [] => none
  | frames, t :: ts =>
    let scope := (frames.head?.map (·.scope)).getD outer
    match t with
    | .start tag closed => do
      let (e, inner) ← tag.element? d scope
      let frames := if closed then frames else ⟨tag.name, inner⟩ :: frames
      return e :: (← elementsWith d inside outer frames ts)
    | .stop name =>
      match frames with
      | f :: fs => if f.name = name then elementsWith d inside outer fs ts else none
      | [] => none
    | .entity name => do return (← inside scope name) ++ (← elementsWith d inside outer frames ts)
    | _ => elementsWith d inside outer frames ts

/-- The elements of an entity, with at most `depth` entities inside one another. -/
def entityElements (d : Declared) : Nat → Scope → String → Option (List Element)
  | 0, _, _ => none
  | depth + 1, scope, name => do
    match d.entities.lookup name with
    | some (some text) => elementsWith d (entityElements d depth) scope [] (← Token.ofChars? text)
    | _ => none

/-- The names of the entities among marks. -/
def entitiesOf (ts : List Token) : List String :=
  ts.filterMap fun
    | .entity n => some n
    | _ => none

/-- The elements of a decoded document. -/
def elementsOfChars? (cs : List Char) : Option (List Element) := do
  let (heading, body) ← Heading.take? (Text.unifyNewlines cs)
  let (d, rest) ← prologue? heading.standalone (body.length + 1) body
  let tokens ← Token.ofChars? rest
  if isRooted 0 false tokens && d.isModest (entitiesOf tokens) then
    elementsWith d (entityElements d (d.entities.length + 1)) Scope.initial [] tokens
  else none

/-- **The elements of a document,** in the order of their start tags. -/
def elements (codecs : Text.Codecs) (bytes : Text.Bytes) : Except Cause (List Element) := do
  orMalformed (elementsOfChars? (← decode codecs bytes))

end MemberHarvest.Xml
