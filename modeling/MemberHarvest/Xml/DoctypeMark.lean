import MemberHarvest.Xml.Token

/-!
# Xml/DoctypeMark — the marks of a document type declaration

Names, quoted texts and signs. White space separates marks; without it, a name or a quoted text may
only be followed by a closing sign.
-/

namespace MemberHarvest.Xml

/-- A mark of a document type declaration. A name may carry a sign of repetition, and so may a
closing parenthesis. -/
inductive DoctypeMark where
  | opening (keyword : String)
  | closing
  | subsetStart
  | subsetEnd
  | literal (cs : List Char)
  | parameter (name : String)
  | percent
  | leftParen
  | rightParen (repeated : Option Char)
  | comma
  | bar
  | pound (keyword : String)
  | name (q : QName) (repeated : Option Char)
  | token (cs : List Char)
  | skipped
  deriving DecidableEq, Repr

namespace DoctypeMark

/-- Whether what stands in front of the text may end there. -/
def endsBefore (signs : List Char) : List Char → Bool
  | [] => false
  | c :: _ => isSpace c || signs.contains c

/-- A sign of repetition and the text behind it. -/
def repetition : List Char → Option Char × List Char
  | c :: cs => if c = '?' ∨ c = '*' ∨ c = '+' then (some c, cs) else (none, c :: cs)
  | [] => (none, [])

/-- The name that a run of name characters and colons is, if it is one. Here the part behind a colon
may start with any name character. -/
def qualified? (run : List Char) : Option QName :=
  match takeName? run with
  | some (first, []) => some ⟨none, String.ofList first⟩
  | some (first, ':' :: second) =>
    if !second.isEmpty && second.all isNameChar then
      some ⟨some (String.ofList first), String.ofList second⟩
    else none
  | _ => none

/-- A name or a name token at the beginning of a text. -/
def word? (cs : List Char) : Option (DoctypeMark × List Char) :=
  let isWord (c : Char) := isNameChar c || c == ':'
  let run := cs.takeWhile isWord
  let (sign, rest) := repetition (cs.dropWhile isWord)
  if run.isEmpty ∨ !endsBefore ['>', ')', ',', '|', '[', '%'] rest then none
  else
    match qualified? run with
    | some q => some (name q sign, rest)
    | none => if sign.isNone then some (token run, rest) else none

/-- The mark behind `<!`. -/
def declaration? (cs : List Char) : Option (DoctypeMark × List Char) :=
  match cs with
  | '-' :: '-' :: rest => (Token.comment? rest).map fun rest => (skipped, rest)
  | cs => do
    let (keyword, rest) ← takeName? cs
    match rest with
    | '%' :: c :: _ =>
      if isSpace c ∨ c = '%' then none else return (opening (String.ofList keyword), rest)
    | c :: _ => if isSpace c then return (opening (String.ofList keyword), rest) else none
    | [] => none

/-- The mark behind a percent sign. -/
def percent? (cs : List Char) : Option (DoctypeMark × List Char) :=
  match cs with
  | c :: _ =>
    if isSpace c ∨ c = '%' then some (percent, cs)
    else do
      match ← takeName? cs with
      | (n, ';' :: rest) => return (parameter (String.ofList n), rest)
      | _ => none
  | [] => none

/-- The first mark of a text that does not start with white space, and the text behind it. -/
def first? : List Char → Option (DoctypeMark × List Char)
  | [] => none
  | '<' :: '!' :: cs => declaration? cs
  | '<' :: '?' :: cs => (Token.instruction? cs).map fun rest => (skipped, rest)
  | '>' :: cs => some (closing, cs)
  | '[' :: cs => some (subsetStart, cs)
  | ']' :: cs => if [']', '>'].isPrefixOf cs then none else some (subsetEnd, cs)
  | '(' :: cs => some (leftParen, cs)
  | ')' :: cs =>
    match repetition cs with
    | (some c, rest) => some (rightParen (some c), rest)
    | (none, rest) =>
      if endsBefore ['>', ',', '|', ')'] rest then some (rightParen none, rest) else none
  | ',' :: cs => some (comma, cs)
  | '|' :: cs => some (bar, cs)
  | '%' :: cs => percent? cs
  | '#' :: cs => do
    let (n, rest) ← takeName? cs
    if endsBefore [')', '>', '%', '|'] rest then return (pound (String.ofList n), rest) else none
  | c :: cs =>
    if c = '"' ∨ c = '\x27' then do
      let (raw, rest) ← Token.quoted? (c :: cs)
      if raw.all isXmlChar && endsBefore ['>', '%', '['] rest then return (literal raw, rest)
        else none
    else word? (c :: cs)

/-- The marks up to the end of the declaration, and the text behind it. A closing sign ends it
outside the subset between brackets. -/
def upTo : Nat → Bool → List Char → Option (List DoctypeMark × List Char)
  | 0, _, _ => none
  | fuel + 1, inSubset, cs => do
    let (m, rest) ← first? (dropSpace cs)
    if m = closing ∧ !inSubset then return ([], rest)
    else
      let inSubset := if m = subsetStart then true else if m = subsetEnd then false else inSubset
      let (ms, rest) ← upTo fuel inSubset rest
      return (m :: ms, rest)

/-- The marks of the declaration whose keyword stands in front of the text, and the text behind
it. -/
def ofChars? (cs : List Char) : Option (List DoctypeMark × List Char) := upTo cs.length false cs

end DoctypeMark
end MemberHarvest.Xml
