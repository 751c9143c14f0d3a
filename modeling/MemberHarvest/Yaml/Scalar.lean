import MemberHarvest.Yaml.Cursor

/-!
# Yaml/Scalar — the text of a scalar, in each of its styles

A plain scalar ends where the characters around it have a meaning of their own, a quoted one at its
quote, a block at the end of its indentation. In the first two a single line end counts as a space.
-/

namespace MemberHarvest.Yaml.Scalar

/-! ## Plain scalars -/

/-- How many characters of a plain scalar stand in a row. Inside brackets more characters end it. -/
def plainLength (inFlow : Bool) : List Char → Nat
  | [] => 0
  | c :: cs =>
    let next := cs.head?
    let endsKey := endsToken next ||
      (inFlow && ((next.map ",[]\x7b\x7d".toList.contains).getD false))
    if endsToken (some c) || (c == ':' && endsKey) ||
      (inFlow && ",?[]\x7b\x7d".toList.contains c) then 0
    else plainLength inFlow cs + 1

/-- The line ends among spaces, as they count; none where a document begins or ends at a line. -/
def plainBreaks : Nat → Cursor → Option (List Char) × Cursor
  | 0, c => (some [], c)
  | fuel + 1, c =>
    if c.peek = some ' ' then plainBreaks fuel c.next
    else
      match c.lineBreak? with
      | none => (some [], c)
      | some (ch, c) =>
        if c.isAtDocumentMark then (none, c)
        else
          let (more?, c) := plainBreaks fuel c
          (more?.map (ch :: ·), c)

/-- What a first line end and the following ones count as. -/
def folded (first : Char) (breaks : List Char) : List Char :=
  (if first != '\n' then [first] else if breaks.isEmpty then [' '] else []) ++ breaks

/-- What the gap between two parts of a plain scalar counts as, whether a line ends in it, and the
place behind it. Without a gap, and in front of a document mark, it counts as nothing. -/
def plainGap (c : Cursor) : List Char × Bool × Cursor :=
  let (spaces, c) := c.takeWhile (· == ' ')
  match c.lineBreak? with
  | none => (spaces, false, c)
  | some (first, c) =>
    if c.isAtDocumentMark then ([], true, c)
    else
      match plainBreaks (c.rest.length + 1) c with
      | (some breaks, c) => (folded first breaks, true, c)
      | (none, c) => ([], true, c)

/-- A plain scalar from its first part on: its text, whether its last gap ends a line, and the place
behind it. The text so far is `before`, and the last gap `gap`. -/
def plainFrom (inFlow : Bool) (indent : Int) :
    Nat → List Char → List Char → Bool → Cursor → List Char × Bool × Cursor
  | 0, before, _, broke, c => (before, broke, c)
  | fuel + 1, before, gap, broke, c =>
    let length := if c.peek = some '#' then 0 else plainLength inFlow c.rest
    if length = 0 then (before, broke, c)
    else
      let text := before ++ gap ++ c.rest.take length
      let (gap, broke, c) := plainGap (c.advance length)
      if gap.isEmpty ∨ c.peek = some '#' ∨ (!inFlow ∧ (c.column : Int) < indent)
        then (text, broke, c)
      else plainFrom inFlow indent fuel text gap broke c

/-- A plain scalar. -/
def plain (inFlow : Bool) (indent : Int) (c : Cursor) : List Char × Bool × Cursor :=
  plainFrom inFlow indent (c.rest.length + 1) [] [] false c

/-! ## Quoted scalars -/

/-- The character that a backslash and a letter stand for. -/
def escape? : Char → Option Char
  | '0' => some '\x00'
  | 'a' => some '\x07'
  | 'b' => some '\x08'
  | 't' | '\t' => some '\t'
  | 'n' => some '\n'
  | 'v' => some '\x0b'
  | 'f' => some '\x0c'
  | 'r' => some '\r'
  | 'e' => some '\x1b'
  | ' ' => some ' '
  | '"' => some '"'
  | '\\' => some '\\'
  | '/' => some '/'
  | 'N' => some '\u0085'
  | '_' => some '\u00a0'
  | 'L' => some '\u2028'
  | 'P' => some '\u2029'
  | _ => none

/-- How many hexadecimal digits follow a letter. -/
def escapeWidth? : Char → Option Nat
  | 'x' => some 2
  | 'u' => some 4
  | 'U' => some 8
  | _ => none

/-- The character of a code point; halves of a pair become the replacement character. -/
def ofCodePoint (n : Nat) : Except ScalarCause Char :=
  if n.isValidChar then .ok (Char.ofNat n)
  else if n < 0x110000 then .ok '\ufffd'
  else .error (if n < 0x80000000 then .codePointOutOfRange else .codePointTooWide)

/-- The line ends and gaps at the beginning of lines. -/
def quotedBreaks : Nat → Cursor → Except Snag (List Char × Cursor)
  | 0, c => c.refuse
  | fuel + 1, c =>
    if c.isAtDocumentMark then (c.advance 3).refuse
    else
      let c := c.skipWhile isGap
      match c.lineBreak? with
      | none => .ok ([], c)
      | some (ch, c) => do
        let (more, c) ← quotedBreaks fuel c
        return (ch :: more, c)

/-- What an escape behind its backslash stands for. -/
def escaped (c : Cursor) : Except Snag (List Char × Cursor) :=
  match c.peek with
  | none => c.refuse
  | some ch =>
    match escape? ch, escapeWidth? ch with
    | some x, _ => .ok ([x], c.next)
    | none, some width => do
      let n ← c.next.hexNumber width
      let x ← (ofCodePoint n).mapError fun cause => ⟨.scalar cause, c.index + width⟩
      return ([x], c.next.advance width)
    | none, none =>
      match c.lineBreak? with
      | some (_, c) => quotedBreaks (c.rest.length + 1) c
      | none => c.refuse

/-- What a gap inside quotes stands for. -/
def quotedGap (c : Cursor) : Except Snag (List Char × Cursor) :=
  let (spaces, c) := c.takeWhile isGap
  match c.peek with
  | none => c.refuse
  | some _ =>
    match c.lineBreak? with
    | none => .ok (spaces, c)
    | some (first, c) => do
      let (breaks, c) ← quotedBreaks (c.rest.length + 1) c
      return (folded first breaks, c)

/-- A quoted scalar behind its first quote. -/
def quotedFrom (quote : Char) : Nat → Cursor → Except Snag (List Char × Cursor)
  | 0, c => c.refuse
  | fuel + 1, c =>
    match c.peek with
    | none => c.refuse
    | some ch => do
      if ch = quote then
        if quote = '\x27' ∧ c.peekAt 1 = some '\x27' then
          let (more, c) ← quotedFrom quote fuel (c.advance 2)
          return (quote :: more, c)
        else return ([], c.next)
      else
        let (part, c) ←
          if ch = '\\' ∧ quote = '"' then escaped c.next
          else if isGap ch || isBreak ch then quotedGap c
          else pure ([ch], c.next)
        let (more, c) ← quotedFrom quote fuel c
        return (part ++ more, c)

/-- A quoted scalar. -/
def quoted (quote : Char) (c : Cursor) : Except Snag (List Char × Cursor) :=
  quotedFrom quote (c.rest.length + 1) c.next

/-! ## Blocks -/

/-- What becomes of the line ends at the end of a block. -/
inductive Chomping where
  | strip
  | clip
  | keep
  deriving DecidableEq, Repr

/-- The sign for the end of a block. -/
def chomping? : Option Char → Option Chomping
  | some '+' => some .keep
  | some '-' => some .strip
  | _ => none

/-- The digit for the indentation of a block, zero excluded. -/
def increment? (c : Cursor) : Except Snag (Option Nat × Cursor) :=
  match c.peek with
  | some ch =>
    if '0' ≤ ch ∧ ch ≤ '9' then
      if ch = '0' then c.refuse else .ok (some (ch.toNat - 48), c.next)
    else .ok (none, c)
  | none => .ok (none, c)

/-- The signs behind the beginning of a block, in either order. -/
def blockSigns (c : Cursor) : Except Snag (Chomping × Option Nat × Cursor) := do
  match chomping? c.peek with
  | some chomping =>
    let (increment, c) ← increment? c.next
    if endsWord c.peek then return (chomping, increment, c) else c.refuse
  | none =>
    let (increment, c) ← increment? c
    let (chomping, c) :=
      match increment, chomping? c.peek with
      | some _, some chomping => (chomping, c.next)
      | _, _ => (.clip, c)
    if endsWord c.peek then return (chomping, increment, c) else c.refuse

/-- The line ends in front of a block's first line, and the widest indentation among them. -/
def blockIndent : Nat → Nat → Cursor → List Char × Nat × Cursor
  | 0, widest, c => ([], widest, c)
  | fuel + 1, widest, c =>
    if c.peek = some ' ' then blockIndent fuel (max widest c.next.column) c.next
    else
      match c.lineBreak? with
      | none => ([], widest, c)
      | some (ch, c) =>
        let (more, widest, c) := blockIndent fuel widest c
        (ch :: more, widest, c)

/-- The place behind spaces, at most up to the indentation. -/
def skipIndent (indent : Nat) : Nat → Cursor → Cursor
  | 0, c => c
  | fuel + 1, c =>
    if c.column < indent ∧ c.peek = some ' ' then skipIndent indent fuel c.next else c

/-- The line ends of blank lines, and the place at the indentation behind them. -/
def blockBreaks (indent : Nat) : Nat → Cursor → List Char × Cursor
  | 0, c => ([], c)
  | fuel + 1, c =>
    let c := skipIndent indent indent c
    match c.lineBreak? with
    | none => ([], c)
    | some (ch, c) =>
      let (more, c) := blockBreaks indent fuel c
      (ch :: more, c)

/-- Whether a line of a block goes on with a gap. -/
def startsWithGap (c : Cursor) : Bool := (c.peek.map isGap).getD false

/-- The lines of a block behind the line ends `breaks`: their text, the last line end, the line ends
behind it, and the place behind them. -/
def blockLines (isFolded : Bool) (indent : Nat) :
    Nat → List Char → Cursor → List Char × List Char × List Char × Cursor
  | 0, breaks, c => ([], [], breaks, c)
  | fuel + 1, breaks, c =>
    if c.column = indent ∧ c.peek.isSome then
      let gapAhead := startsWithGap c
      let (text, c) := c.takeWhile (fun ch => !isBreak ch)
      let (ending, c) :=
        match c.lineBreak? with
        | some (ch, c) => ([ch], c)
        | none => ([], c)
      let (after, c) := blockBreaks indent (c.rest.length + 1) c
      if c.column = indent ∧ c.peek.isSome then
        let joint :=
          if isFolded ∧ ending = ['\n'] ∧ !gapAhead ∧ !startsWithGap c then
            if after.isEmpty then [' '] else []
          else ending
        let (more, last, tail, c) := blockLines isFolded indent fuel after c
        (breaks ++ text ++ joint ++ more, last, tail, c)
      else (breaks ++ text, ending, after, c)
    else ([], [], breaks, c)

/-- A block scalar inside an indentation. -/
def block (isFolded : Bool) (outer : Int) (c : Cursor) : Except Snag (List Char × Cursor) := do
  let (chomping, increment, c) ← blockSigns c.next
  match c.lineEnd? with
  | none => c.skipSpaces.refuse
  | some c =>
    let least := max 1 (outer + 1).toNat
    let (indent, breaks, c) :=
      match increment with
      | none =>
        let (breaks, widest, c) := blockIndent (c.rest.length + 1) 0 c
        (max least widest, breaks, c)
      | some n =>
        let (breaks, c) := blockBreaks (least + n - 1) (c.rest.length + 1) c
        (least + n - 1, breaks, c)
    let (text, last, tail, c) := blockLines isFolded indent (c.rest.length + 1) breaks c
    return (text ++
      (match chomping with
        | .strip => []
        | .clip => last
        | .keep => last ++ tail), c)

end MemberHarvest.Yaml.Scalar
