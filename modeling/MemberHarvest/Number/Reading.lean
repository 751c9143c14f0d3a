import MemberHarvest.Number.Binary64
import MemberHarvest.Text.Blank
import MemberHarvest.Text.Digit

/-!
# Number/Reading — numbers in text

Whole numbers may have a sign and single underscores between their digits. Floating-point numbers
have a sign, digits with a point, and an exponent; `inf`, `infinity` and `nan` are numbers too.
Digits of every script count, and blanks around the number do not matter.
-/

namespace MemberHarvest.Number

/-! ## Whole numbers -/

/-- A sign, and the text behind it. -/
def signed : List Char → Bool × List Char
  | '-' :: cs => (true, cs)
  | '+' :: cs => (false, cs)
  | cs => (false, cs)

/-- Take the underscores out, if each stands between two characters that are none. -/
def joinUnderscores? : List Char → Option (List Char)
  | [] => none
  | [c] => if c = '_' then none else some [c]
  | c :: '_' :: cs => if c = '_' then none else (joinUnderscores? cs).map (c :: ·)
  | c :: cs => if c = '_' then none else (joinUnderscores? cs).map (c :: ·)

/-- The number that digits denote, given the value of each digit. -/
def ofDigits? (base : Nat) (value? : Char → Option Nat) (cs : List Char) : Option Nat :=
  cs.foldl (fun acc c => do return base * (← acc) + (← value? c)) (some 0)

/-- The whole number of a text, signs and underscores included. -/
def integer? (value? : Char → Option Nat) (cs : List Char) : Option Int := do
  let (negative, ds) := signed cs
  let n ← ofDigits? 10 value? (← joinUnderscores? ds)
  return if negative then -n else n

/-- The value of an ASCII digit. -/
def asciiDigit? (c : Char) : Option Nat := if '0' ≤ c ∧ c ≤ '9' then some (c.toNat - 48) else none

/-- The whole number of a text with blanks around it and digits of any script. -/
def integerText? (s : String) : Option Int := integer? Text.digitValue? (Text.trim s.toList)

/-! ## Floating-point numbers -/

/-- The exponent behind the digits: nothing, or a letter and a whole number. -/
def exponent? : List Char → Option Int
  | [] => some 0
  | e :: cs =>
    if e = 'e' ∨ e = 'E' then
      let (negative, ds) := signed cs
      if ds.isEmpty then none
      else (ofDigits? 10 Text.digitValue? ds).map fun n => if negative then -(n : Int) else n
    else none

/-- The floating-point number that digits, a point and an exponent denote. -/
def decimal? (negative : Bool) (cs : List Char) : Option Binary64 := do
  let isDigit (c : Char) := (Text.digitValue? c).isSome
  let whole := cs.takeWhile isDigit
  let behind := cs.dropWhile isDigit
  let (fraction, rest) :=
    match behind with
    | '.' :: r => (r.takeWhile isDigit, r.dropWhile isDigit)
    | r => ([], r)
  if whole.isEmpty ∧ fraction.isEmpty then none
  else
    let digits ← ofDigits? 10 Text.digitValue? (whole ++ fraction)
    let exponent ← exponent? rest
    return Binary64.ofDecimal negative digits (exponent - fraction.length)

/-- The floating-point number of a text. -/
def float? (s : String) : Option Binary64 :=
  let (negative, cs) := signed (Text.trim s.toList)
  let word := String.ofList (cs.map Char.toLower)
  if word = "inf" ∨ word = "infinity" then some (.infinite negative)
  else if word = "nan" then some .nan
  else decimal? negative cs

example : float? " -1.50e1 " = some (Binary64.ofInt (-15)) ∧ float? "." = none ∧
    integerText? " +1_000 " = some 1000 ∧ integerText? "1__0" = none := by
  decide +kernel

end MemberHarvest.Number
