import MemberHarvest.Text.Utf8
import MemberHarvest.Yaml.Cursor

/-!
# Yaml/Token — the parts of a document

The beginning and end of a block are tokens too, although no character stands for them. This module
also reads the tokens that name something: anchors and aliases, tags and directives.
-/

namespace MemberHarvest.Yaml

/-- A line in front of a document that says how to read it. -/
inductive Directive where
  | version (major minor : Nat)
  | handle (name : String) (start : String)
  | other
  deriving DecidableEq, Repr

/-- A part of a document. A tag without a handle is complete as it stands. Without a fault, the text
breaks off instead of making no sense. -/
inductive Token where
  | directive (d : Directive)
  | documentStart
  | documentEnd
  | blockSequence
  | blockMapping
  | blockEnd
  | openSequence
  | closeSequence
  | openMapping
  | closeMapping
  | entry
  | comma
  | key
  | value
  | alias_ (name : String)
  | anchor (name : String)
  | tag (handle? : Option String) (suffix : String)
  | scalar (text : String) (isPlain : Bool)
  | fault (f? : Option Fault)
  deriving DecidableEq, Repr

namespace Token

/-! ## Names -/

/-- Whether a character may stand in the name of an anchor, a handle or a directive. -/
def isNameChar (c : Char) : Bool := c.isAlphanum || c == '-' || c == '_'

/-- A name, and the place behind it. -/
def name (c : Cursor) : Except Snag (List Char × Cursor) :=
  match c.takeWhile isNameChar with
  | ([], c) => c.refuse
  | (chars, c) => .ok (chars, c)

/-- Whether an anchor or alias may end in front of a character. -/
def endsAnchor : Option Char → Bool
  | none => true
  | some c => endsToken (some c) || "?:,]\x7d%@\x60".toList.contains c

/-- The name of an anchor or alias behind its sign. -/
def anchorName (c : Cursor) : Except Snag (String × Cursor) := do
  let (chars, c) ← name c.next
  if endsAnchor c.peek then return (String.ofList chars, c) else c.refuse

/-! ## Tags -/

/-- Whether a character stands for itself in a tag. -/
def isUriChar (c : Char) : Bool := c.isAlphanum || "-;/?:@&=+$,_.!~*\x27()[]".toList.contains c

/-- The bytes that escapes in a row stand for. -/
def escapedBytes : Nat → Cursor → Except Snag (Text.Bytes × Cursor)
  | 0, c => .ok ([], c)
  | fuel + 1, c => do
    if c.peek = some '%' then
      let n ← c.next.hexNumber 2
      let (bytes, c) ← escapedBytes fuel (c.advance 3)
      return (UInt8.ofNat n :: bytes, c)
    else return ([], c)

/-- The characters of a tag; escapes stand for text in bytes. -/
def uriChars : Nat → Cursor → Except Snag (List Char × Cursor)
  | 0, c => .ok ([], c)
  | fuel + 1, c => do
    match c.peek with
    | none => return ([], c)
    | some '%' =>
      let (bytes, c) ← escapedBytes (c.rest.length + 1) c
      match Text.Utf8.decode? bytes with
      | none => c.refuse
      | some chars =>
        let (more, c) ← uriChars fuel c
        return (chars ++ more, c)
    | some ch =>
      if isUriChar ch then
        let (more, c) ← uriChars fuel c.next
        return (ch :: more, c)
      else return ([], c)

/-- The characters of a tag, of which there must be some. -/
def uri (c : Cursor) : Except Snag (String × Cursor) := do
  let (chars, behind) ← uriChars (c.rest.length + 1) c
  if behind.index = c.index then c.refuse else return (String.ofList chars, behind)

/-- A handle: one mark, or a name between two. -/
def handle (c : Cursor) : Except Snag (String × Cursor) :=
  if c.peek ≠ some '!' then c.refuse
  else if c.peekAt 1 = some ' ' then .ok ("!", c.next)
  else
    let (chars, c) := c.next.takeWhile isNameChar
    if c.peek = some '!' then .ok (String.ofList ('!' :: chars ++ ['!']), c.next) else c.refuse

/-- A tag with a handle: a second mark, if there is one, stands behind the handle. Both are looked
for up to the end of the word before anything else. -/
def shorthand (c : Cursor) : Except Snag (Option String × String × Cursor) :=
  let ahead := c.next.skipWhile fun ch => ch != '!' && !endsWord (some ch)
  let found : Except Snag (Option String × String × Cursor) := do
    if ahead.peek = some '!' then
      let (name, c) ← handle c
      let (suffix, c) ← uri c
      return (some name, suffix, c)
    else
      let (suffix, c) ← uri c.next
      return (some "!", suffix, c)
  found.mapError fun snag => { snag with index := max snag.index ahead.index }

/-- A tag. -/
def tagAt (c : Cursor) : Except Snag (Token × Cursor) := do
  let (handle?, suffix, c) ←
    if c.peekAt 1 = some '<' then
      let (suffix, c) ← uri (c.advance 2)
      if c.peek = some '>' then pure (none, suffix, c.next) else c.refuse
    else if endsToken (c.peekAt 1) then pure (none, "!", c.next)
    else shorthand c
  if endsWord c.peek then return (.tag handle? suffix, c) else c.refuse

/-! ## Directives -/

/-- A number in a directive. -/
def directiveNumber (c : Cursor) : Except Snag (Nat × Cursor) :=
  match c.takeWhile Char.isDigit with
  | ([], c) => c.refuse
  | (digits, c) => .ok (digits.foldl (fun n d => 10 * n + (d.toNat - 48)) 0, c)

/-- The version that a directive names. -/
def version (c : Cursor) : Except Snag (Directive × Cursor) := do
  let (major, c) ← directiveNumber c.skipSpaces
  if c.peek ≠ some '.' then c.refuse
  else
    let (minor, c) ← directiveNumber c.next
    if endsWord c.peek then return (.version major minor, c) else c.refuse

/-- The handle that a directive explains. -/
def explainedHandle (c : Cursor) : Except Snag (Directive × Cursor) := do
  let (name, c) ← handle c.skipSpaces
  if c.peek ≠ some ' ' then c.refuse
  else
    let (start, c) ← uri c.skipSpaces
    if endsWord c.peek then return (.handle name start, c) else c.refuse

/-- A directive, and the place on the line behind it. -/
def directiveAt (c : Cursor) : Except Snag (Token × Cursor) := do
  let (chars, c) ← name c.next
  if !endsWord c.peek then c.refuse
  else
    let (d, c) ←
      if chars = ['Y', 'A', 'M', 'L'] then version c
      else if chars = ['T', 'A', 'G'] then explainedHandle c
      else pure (.other, c.skipWhile (fun ch => !isBreak ch))
    match c.lineEnd? with
    | some c => return (.directive d, c)
    | none => c.skipSpaces.refuse

end Token
end MemberHarvest.Yaml
