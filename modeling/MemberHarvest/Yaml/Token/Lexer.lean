import MemberHarvest.Yaml.Scalar
import MemberHarvest.Yaml.Token

/-!
# Yaml/Token/Lexer — from characters to tokens

Indentation opens and closes blocks. A key need not be marked as one: what might be a key is
remembered, and the colon behind it puts the mark in front. Such a key ends on its line, within 1024
characters; one at the indentation of its block has to be a key. Until that is settled, no token
from there on is told.

Of a text that breaks off, a token is told if the text is known up to where it is looked at to tell
it.
-/

namespace MemberHarvest.Yaml

/-- A place where a key may begin: how many tokens lie before it, and where it lies. -/
structure KeyMark where
  count : Nat
  isRequired : Bool
  place : Cursor

/-- How far a text is read, and how far it has been looked at. The tokens are in reverse; there is a
place for a key outside all brackets and one for every pair of them, the innermost first. -/
structure Lexer where
  cursor : Cursor
  sight : Nat
  tokens : List Token
  indent : Int
  outer : List Int
  allowsKey : Bool
  depth : Nat
  marks : List (Option KeyMark)

namespace Lexer

/-- The beginning of a text. -/
def start (cs : List Char) : Lexer := ⟨.start cs, 0, [], -1, [], true, 0, [none]⟩

/-- Whether brackets are open. -/
def inFlow (s : Lexer) : Bool := s.depth != 0

/-- Look at the text up to a place. -/
def look (s : Lexer) (index : Nat) : Lexer := { s with sight := max s.sight index }

/-- Nothing that makes sense stands here. -/
def refuse {α : Type} (s : Lexer) : Except Snag α := s.cursor.refuse

/-- Add a token. -/
def push (s : Lexer) (t : Token) : Lexer := { s with tokens := t :: s.tokens }

/-- Put tokens, given in reverse, behind the first `count` ones. -/
def insert (s : Lexer) (count : Nat) (ts : List Token) : Lexer :=
  let later := s.tokens.length - count
  { s with tokens := s.tokens.take later ++ ts ++ s.tokens.drop later }

/-! ## Blocks -/

/-- Open a block at a column, unless one is open there or further to the right. -/
def open? (s : Lexer) (column : Nat) : Option Lexer :=
  if s.indent < column then some { s with indent := column, outer := s.indent :: s.outer } else none

/-- Open a block if need be, and add the token for it. -/
def pushBlock (s : Lexer) (column : Nat) (t : Token) : Lexer :=
  match s.open? column with
  | some s => s.push t
  | none => s

/-- Close the blocks to the right of a column. -/
def closeBlocks (column : Int) : List Int → Lexer → Lexer
  | [], s => s
  | i :: outer, s =>
    if s.inFlow ∨ s.indent ≤ column then s
    else closeBlocks column outer { s with indent := i, outer := outer, tokens :=
      .blockEnd :: s.tokens }

/-- Close the blocks to the right of a column; brackets keep blocks open. -/
def unwind (s : Lexer) (column : Int) : Lexer := closeBlocks column s.outer s

/-! ## Keys without a mark -/

/-- Forget a place for a key; a required one may not be forgotten. -/
def forget (s : Lexer) : Option KeyMark → Except Snag (Option KeyMark)
  | some m => if m.isRequired then s.refuse else .ok none
  | none => .ok none

/-- Forget the place for a key inside the innermost brackets. -/
def forgetKey (s : Lexer) : Except Snag Lexer := do
  match s.marks with
  | m :: ms => return { s with marks := (← s.forget m) :: ms }
  | [] => return s

/-- Remember this place for a key, if one may begin here. -/
def markKey (s : Lexer) : Except Snag Lexer := do
  if s.allowsKey then
    let isRequired := !s.inFlow && s.indent == s.cursor.column
    let s ← s.forgetKey
    return { s with marks := some ⟨s.tokens.length, isRequired, s.cursor⟩ :: s.marks.drop 1 }
  else return s

/-- Whether a key that begins at a place may no longer end here. -/
def isStale (c : Cursor) (m : KeyMark) : Bool :=
  m.place.line != c.line || c.index - m.place.index > 1024

/-- Forget the places from which a key would be too long. -/
def forgetStale (s : Lexer) : Except Snag Lexer := do
  let marks ← s.marks.mapM fun m =>
    if (m.map (isStale s.cursor)).getD false then s.forget m else .ok m
  return { s with marks }

/-- The tokens in front of the first place where a key may still begin. -/
def told (s : Lexer) : List Token :=
  let s := s.forgetStale.toOption.getD s
  match (s.marks.filterMap fun m => m.map KeyMark.count).min? with
  | some count => s.tokens.reverse.take count
  | none => s.tokens.reverse

/-! ## Between tokens -/

/-- The next token behind spaces, comments and line ends. Outside brackets a key may begin at a
line. -/
def skip : Nat → Lexer → Lexer
  | 0, s => s
  | fuel + 1, s =>
    let c := s.cursor.skipSpaces
    let c := if c.peek = some '#' then c.skipWhile (fun ch => !isBreak ch) else c
    match c.lineBreak? with
    | some (_, c) => skip fuel { s with cursor := c, allowsKey := s.allowsKey || !s.inFlow }
    | none => { s with cursor := c }

/-- The next token; a byte order mark may come before the first one. -/
def skipToToken (s : Lexer) : Lexer :=
  let s :=
    if s.cursor.index = 0 ∧ s.cursor.peek = some '\ufeff'
      then { s with cursor := s.cursor.next } else s
  skip (s.cursor.rest.length + 1) s

/-! ## Tokens of one kind each -/

/-- Everything ends here. -/
def finish (s : Lexer) : Except Snag Lexer := (s.unwind (-1)).forgetKey

/-- A line in front of a document. -/
def directive (s : Lexer) : Except Snag Lexer := do
  let s ← (s.unwind (-1)).forgetKey
  let (t, c) ← Token.directiveAt s.cursor
  return { s.push t with cursor := c, allowsKey := false }

/-- The beginning or end of a document. -/
def documentMark (s : Lexer) (t : Token) : Except Snag Lexer := do
  let s ← (s.unwind (-1)).forgetKey
  return { s.push t with cursor := s.cursor.advance 3, allowsKey := false }

/-- An opening bracket, which may begin a key. -/
def openBracket (s : Lexer) (t : Token) : Except Snag Lexer := do
  let s ← s.markKey
  return { s.push t with
    cursor := s.cursor.next, depth := s.depth + 1, marks := none :: s.marks, allowsKey := true }

/-- A closing bracket. -/
def closeBracket (s : Lexer) (t : Token) : Except Snag Lexer := do
  let s ← s.forgetKey
  return { s.push t with
    cursor := s.cursor.next, depth := s.depth - 1, marks := s.marks.drop 1, allowsKey := false }

/-- A comma between brackets. -/
def comma (s : Lexer) : Except Snag Lexer := do
  let s ← s.forgetKey
  return { s.push .comma with cursor := s.cursor.next, allowsKey := true }

/-- Where brackets are open, or a key may begin, a block is opened if need be. -/
def beginBlock (s : Lexer) (t : Token) : Except Snag Lexer :=
  if s.inFlow then .ok s
  else if s.allowsKey then .ok (s.pushBlock s.cursor.column t)
  else s.refuse

/-- A dash in front of an element. -/
def entry (s : Lexer) : Except Snag Lexer := do
  let s ← (← s.beginBlock .blockSequence).forgetKey
  return { s.push .entry with cursor := s.cursor.next, allowsKey := true }

/-- The mark of a key. -/
def key (s : Lexer) : Except Snag Lexer := do
  let s ← (← s.beginBlock .blockMapping).forgetKey
  return { s.push .key with cursor := s.cursor.next, allowsKey := !s.inFlow }

/-- The colon behind a key; a key without a mark gets it now. -/
def value (s : Lexer) : Except Snag Lexer := do
  match s.marks with
  | some m :: ms =>
    let marked : Lexer := { s with marks := none :: ms, allowsKey := false }
    let s :=
      if s.inFlow then marked.insert m.count [.key]
      else
        match marked.open? m.place.column with
        | some s => s.insert m.count [.key, .blockMapping]
        | none => marked.insert m.count [.key]
    return { s.push .value with cursor := s.cursor.next }
  | _ =>
    let s ← (← s.beginBlock .blockMapping).forgetKey
    return { s.push .value with cursor := s.cursor.next, allowsKey := !s.inFlow }

/-- A token that may begin a key and ends where the reader says; a scalar may end on another
line. -/
def reading (s : Lexer) (read : Cursor → Except Snag (Token × Cursor)) : Except Snag Lexer := do
  let s ← s.markKey
  let (t, c) ← read s.cursor
  return { (s.look (c.sightFrom s.cursor)).push t with cursor := c, allowsKey := false }

/-- A block scalar. -/
def block (s : Lexer) (isFolded : Bool) : Except Snag Lexer := do
  let s ← s.forgetKey
  let (text, c) ← Scalar.block isFolded s.indent s.cursor
  return { s.push (.scalar (String.ofList text) false) with cursor := c, allowsKey := true }

/-- A plain scalar. Behind a line end in its last gap a key may begin. -/
def plain (s : Lexer) : Except Snag Lexer := do
  let s ← s.markKey
  let (text, broke, c) := Scalar.plain s.inFlow (s.indent + 1) s.cursor
  let s := s.look (max (c.sightFrom s.cursor) (if c.peek = some ':' then c.index + 1 else c.index))
  return { s.push (.scalar (String.ofList text) true) with cursor := c, allowsKey := broke }

/-- Whether a plain scalar may begin with a character that another one follows. -/
def beginsPlain (inFlow : Bool) (ch : Char) (after : Option Char) : Bool :=
  !(endsToken (some ch) || "-?:,[]\x7b\x7d#&*!|>\x27\"%@\x60".toList.contains ch) ||
    (!endsToken after && (ch == '-' || (!inFlow && (ch == '?' || ch == ':'))))

/-! ## All tokens -/

/-- The token that begins with a character. -/
def readToken (s : Lexer) (ch : Char) : Except Snag Lexer :=
  let c := s.cursor
  let isApart := endsToken (c.peekAt 1)
  let s := if c.column = 0 ∧ (ch = '-' ∨ ch = '.') then s.look (c.index + 2) else s
  if c.column = 0 ∧ ch = '%' then s.directive
  else if c.column = 0 ∧ c.isAtMark ['-', '-', '-'] then s.documentMark .documentStart
  else if c.column = 0 ∧ c.isAtMark ['.', '.', '.'] then s.documentMark .documentEnd
  else if ch = '[' then s.openBracket .openSequence
  else if ch = '\x7b' then s.openBracket .openMapping
  else if ch = ']' then s.closeBracket .closeSequence
  else if ch = '\x7d' then s.closeBracket .closeMapping
  else if ch = ',' then s.comma
  else if ch = '-' ∧ isApart then s.entry
  else if ch = '?' ∧ (s.inFlow ∨ isApart) then s.key
  else if ch = ':' ∧ (s.inFlow ∨ isApart) then s.value
  else if ch = '*' then s.reading fun c => (Token.anchorName c).map fun (n, c) => (.alias_ n, c)
  else if ch = '&' then s.reading fun c => (Token.anchorName c).map fun (n, c) => (.anchor n, c)
  else if ch = '!' then s.reading Token.tagAt
  else if ch = '|' ∧ !s.inFlow then s.block false
  else if ch = '>' ∧ !s.inFlow then s.block true
  else if ch = '\x27' ∨ ch = '"' then
    s.reading fun c => (Scalar.quoted ch c).map fun (text, c) =>
      (.scalar (String.ofList text) false, c)
  else if beginsPlain s.inFlow ch (c.peekAt 1) then s.plain
  else c.next.refuse

/-- Go to the next token. -/
def approach (s : Lexer) : Lexer :=
  let s := s.skipToToken
  s.look s.cursor.index

/-- Close the blocks that end before the next token. -/
def arrive (s : Lexer) : Except Snag Lexer := do
  let s ← s.forgetStale
  return s.unwind s.cursor.column

/-- Read the next token; at the end of the text, nothing is left to read. -/
def step (s : Lexer) : Except Snag (Lexer × Bool) := do
  let s ← s.arrive
  match s.cursor.peek with
  | none => return (← s.finish, false)
  | some ch =>
    let s ← s.readToken ch
    return (s.look s.cursor.index, true)

/-- Whether the character at an index is known, where the text may break off in front of another
index. -/
def isKnown (limit? : Option Nat) (index : Nat) : Bool := limit?.all (index < ·)

/-- The tokens of the text, up to what makes no sense, or to where it breaks off. -/
def run (limit? : Option Nat) : Nat → Lexer → List Token
  | 0, s => s.tokens.reverse
  | fuel + 1, s =>
    let brokenOff := s.told ++ [.fault none]
    let there := s.approach
    if !isKnown limit? there.sight then brokenOff
    else
      match there.step with
      | .error snag =>
        if isKnown limit? snag.index then s.told ++ [.fault snag.fault] else brokenOff
      | .ok (read, goesOn) =>
        if !isKnown limit? read.sight then brokenOff
        else if goesOn then run limit? fuel read
        else read.tokens.reverse

end Lexer

/-- The tokens of a text, up to what makes no sense. -/
def tokens (cs : List Char) : List Token := (Lexer.start cs).run none (cs.length + 1)

/-- The tokens of a text that breaks off. A character with no meaning of its own stands for what
would come next, so that nothing that is told ends in front of it by chance. -/
def tokensAhead (cs : List Char) : List Token :=
  (Lexer.start (cs ++ ['x'])).run (some cs.length) (cs.length + 2)

end MemberHarvest.Yaml
