import MemberHarvest.Xml.Reference

/-!
# Xml/Token — the marks of a document's content

A text is cut into tags, references to entities, character data, and what is left out: comments and
processing instructions. Character data are only told apart as blank or not.
-/

namespace MemberHarvest.Xml

/-- A start tag: a name, and attributes with the pieces of their values. -/
structure Tag where
  name : QName
  attributes : List (QName × List Piece)
  deriving DecidableEq, Repr

/-- A mark of a document's content. -/
inductive Token where
  | blank
  | data
  | skipped
  | entity (name : String)
  | start (tag : Tag) (closed : Bool)
  | stop (name : QName)
  deriving DecidableEq, Repr

namespace Token

/-- Cut at the first occurrence of an end mark; the text in front of it must fit a document. -/
def takeUntil? (mark : List Char) : List Char → Option (List Char × List Char)
  | [] => none
  | c :: cs =>
    if mark.isPrefixOf (c :: cs) then some ([], (c :: cs).drop mark.length)
    else if isXmlChar c then (takeUntil? mark cs).map fun (front, rest) => (c :: front, rest)
    else none

/-- The text behind a comment, whose inside holds no two hyphens in a row. -/
def comment? (cs : List Char) : Option (List Char) :=
  match takeUntil? ['-', '-'] cs with
  | some (_, '>' :: rest) => some rest
  | _ => none

/-- The text behind a processing instruction. The name `xml` is reserved. -/
def instruction? (cs : List Char) : Option (List Char) := do
  let (target, rest) ← takeName? cs
  if target.map Char.toLower = ['x', 'm', 'l'] then none
  else
    match rest with
    | '?' :: '>' :: rest => some rest
    | c :: rest => if isSpace c then (takeUntil? ['?', '>'] rest).map (·.2) else none
    | [] => none

/-- A quoted text and the text behind it. -/
def quoted? : List Char → Option (List Char × List Char)
  | q :: cs =>
    if q = '"' ∨ q = '\x27' then
      match cs.dropWhile (· != q) with
      | _ :: rest => some (cs.takeWhile (· != q), rest)
      | [] => none
    else none
  | [] => none

/-- The attributes up to the end of a start tag; each stands behind white space. -/
def attributes? : Nat → List Char → Option (List (QName × List Piece) × Bool × List Char)
  | 0, _ => none
  | fuel + 1, cs =>
    match dropSpace cs with
    | '>' :: rest => some ([], false, rest)
    | '/' :: '>' :: rest => some ([], true, rest)
    | behind => do
      if behind.length = cs.length then none
      else
        let (name, rest) ← takeQName? behind
        match dropSpace rest with
        | '=' :: rest =>
          let (raw, rest) ← quoted? (dropSpace rest)
          let value ← attributePieces? raw
          let (more, closed, rest) ← attributes? fuel rest
          return ((name, value) :: more, closed, rest)
        | _ => none

/-- The mark behind an opening angle bracket. -/
def markup? (cs : List Char) : Option (Token × List Char) :=
  match cs with
  | '!' :: '-' :: '-' :: rest => (comment? rest).map fun rest => (skipped, rest)
  | '!' :: '[' :: 'C' :: 'D' :: 'A' :: 'T' :: 'A' :: '[' :: rest =>
    (takeUntil? [']', ']', '>'] rest).map fun (_, rest) => (data, rest)
  | '?' :: rest => (instruction? rest).map fun rest => (skipped, rest)
  | '/' :: rest => do
    let (name, rest) ← takeQName? rest
    match dropSpace rest with
    | '>' :: rest => return (stop name, rest)
    | _ => none
  | cs => do
    let (name, rest) ← takeQName? cs
    let (attributes, closed, rest) ← attributes? rest.length rest
    return (start ⟨name, attributes⟩ closed, rest)

/-- The mark behind an ampersand. -/
def reference? (cs : List Char) : Option (Token × List Char) := do
  let (inside, rest) ← takeUntil? [';'] cs
  match ← Piece.ofReference? inside with
  | .char _ => return (data, rest)
  | .entity name =>
    if (predefined? name).isSome then return (data, rest) else return (entity name, rest)

/-- Whether a character belongs to character data. -/
def isData (c : Char) : Bool := c != '<' && c != '&'

/-- The first mark of a text and the text behind it. -/
def first? : List Char → Option (Token × List Char)
  | [] => none
  | '<' :: cs => markup? cs
  | '&' :: cs => reference? cs
  | cs =>
    let run := cs.takeWhile isData
    if run.all isXmlChar && !Text.occurs [']', ']', '>'] run then
      some (if run.all isSpace then blank else data, cs.dropWhile isData)
    else none

/-- The marks of a text, at most `fuel` of them. -/
def upTo : Nat → List Char → Option (List Token)
  | _, [] => some []
  | 0, _ :: _ => none
  | fuel + 1, c :: cs => do
    let (t, rest) ← first? (c :: cs)
    return t :: (← upTo fuel rest)

/-- The marks of a text. -/
def ofChars? (cs : List Char) : Option (List Token) := upTo cs.length cs

end Token
end MemberHarvest.Xml
