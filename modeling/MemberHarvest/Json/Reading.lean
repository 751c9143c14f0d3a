import MemberHarvest.Json.Value
import MemberHarvest.Text.Decimal
import MemberHarvest.Text.Hex

/-!
# Json/Reading — the value of a document's text

Reading is meant to undo writing (`Json/Document`) and to take every other layout as well: blanks
may stand between the parts, and every character may be escaped. Numbers are integers, since
documents hold no others.
-/

namespace MemberHarvest.Json

/-! ## Parts -/

/-- The text behind blanks. -/
def skipBlanks (cs : List Char) : List Char :=
  cs.dropWhile fun c => c == ' ' || c == '\n' || c == '\t' || c == '\r'

/-- The character that a letter behind a backslash stands for. -/
def unescape? : Char → Option Char
  | '"' => some '"'
  | '\\' => some '\\'
  | '/' => some '/'
  | 'b' => some '\x08'
  | 't' => some '\t'
  | 'n' => some '\n'
  | 'f' => some '\x0c'
  | 'r' => some '\r'
  | _ => none

/-- The text up to the closing quotation mark, and what stands behind it. -/
def quoted? : List Char → Option (List Char × List Char)
  | [] => none
  | '"' :: cs => some ([], cs)
  | '\\' :: 'u' :: a :: b :: c :: d :: cs => do
    let n ← Text.ofHex? [a, b, c, d]
    if n.isValidChar then
      let (more, rest) ← quoted? cs
      return (Char.ofNat n :: more, rest)
    else none
  | '\\' :: e :: cs => do
    let x ← unescape? e
    let (more, rest) ← quoted? cs
    return (x :: more, rest)
  | c :: cs => do
    if c.toNat < 0x20 ∨ c = '\\' then none
    else
      let (more, rest) ← quoted? cs
      return (c :: more, rest)

/-- A natural number without leading zeros, and what stands behind it. -/
def natural? (cs : List Char) : Option (Nat × List Char) :=
  match cs.takeWhile Text.isDigit with
  | [] => none
  | '0' :: _ :: _ => none
  | ds => some (Text.natOfDigits ds, cs.dropWhile Text.isDigit)

/-- An integer, and what stands behind it. -/
def integer? : List Char → Option (Int × List Char)
  | '-' :: cs => (natural? cs).map fun (n, rest) => (-(n : Int), rest)
  | cs => (natural? cs).map fun (n, rest) => ((n : Int), rest)

/-! ## Values -/

mutual

/-- A value behind blanks, and what stands behind it. -/
def value? : Nat → List Char → Option (Json × List Char)
  | 0, _ => none
  | fuel + 1, cs =>
    match skipBlanks cs with
    | '"' :: cs => (quoted? cs).map fun (s, rest) => (.text (String.ofList s), rest)
    | '[' :: cs =>
      match skipBlanks cs with
      | ']' :: rest => some (.array [], rest)
      | cs => (items? fuel cs).map fun (vs, rest) => (.array vs, rest)
    | '\x7b' :: cs =>
      match skipBlanks cs with
      | '\x7d' :: rest => some (.object [], rest)
      | cs => (fields? fuel cs).map fun (es, rest) => (.object es, rest)
    | cs => (integer? cs).map fun (i, rest) => (.integer i, rest)

/-- The items of a list up to its closing bracket. -/
def items? : Nat → List Char → Option (List Json × List Char)
  | 0, _ => none
  | fuel + 1, cs => do
    let (v, rest) ← value? fuel cs
    match skipBlanks rest with
    | ',' :: rest =>
      let (vs, rest) ← items? fuel rest
      return (v :: vs, rest)
    | ']' :: rest => return ([v], rest)
    | _ => none

/-- The fields of an object up to its closing bracket. -/
def fields? : Nat → List Char → Option (List (String × Json) × List Char)
  | 0, _ => none
  | fuel + 1, cs => do
    match skipBlanks cs with
    | '"' :: cs =>
      let (key, rest) ← quoted? cs
      match skipBlanks rest with
      | ':' :: rest =>
        let (v, rest) ← value? fuel rest
        match skipBlanks rest with
        | ',' :: rest =>
          let (es, rest) ← fields? fuel rest
          return ((String.ofList key, v) :: es, rest)
        | '\x7d' :: rest => return ([(String.ofList key, v)], rest)
        | _ => none
      | _ => none
    | _ => none

end

/-- **The value of a text,** with nothing but blanks behind it. -/
def read? (s : String) : Option Json :=
  match value? (s.toList.length + 1) s.toList with
  | some (v, rest) => if (skipBlanks rest).isEmpty then some v else none
  | none => none

example : quoted? "a\\u00e9\\n\" b".toList = some (['a', 'é', '\n'], [' ', 'b']) ∧
    integer? ['0', '1'] = none := by
  decide +kernel

end MemberHarvest.Json
