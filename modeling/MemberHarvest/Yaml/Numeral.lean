import MemberHarvest.Number.Reading
import MemberHarvest.Text.Decimal
import MemberHarvest.Text.Hex
import MemberHarvest.Text.Split
import MemberHarvest.Yaml.Fault

/-!
# Yaml/Numeral — numbers in a document

Integers are binary, octal, decimal, hexadecimal or in base sixty with colons, and underscores
between their digits do not count. A floating-point number has a point, and a sign in its exponent.
`isInteger` and `isFloat` say which plain scalars are numbers. Any scalar may be tagged as one, so
that `integer` and `float` read more.
-/

namespace MemberHarvest.Yaml.Numeral

open Text (isDigit)

/-! ## Which scalars are numbers -/

/-- A digit, or an underscore between digits. -/
def isDigitOrGap (c : Char) : Bool := isDigit c || c == '_'

/-- The text behind a sign. -/
def unsigned (cs : List Char) : List Char := (Number.signed cs).2

/-- Whether a text is a digit of base sixty. -/
def isSixtieth : List Char → Bool
  | [d] => isDigit d
  | [t, d] => '0' ≤ t && t ≤ '5' && isDigit d
  | _ => false

/-- Whether a text is made of digits in base sixty, a colon in front of each. -/
def areSixtieths (cs : List Char) : Bool :=
  match cs.splitOnP (· == ':') with
  | [] :: part :: parts => (part :: parts).all isSixtieth
  | _ => false

/-- Whether a plain scalar is an integer. -/
def isInteger (cs : List Char) : Bool :=
  match unsigned cs with
  | '0' :: 'b' :: ds => !ds.isEmpty && ds.all (fun d => d == '0' || d == '1' || d == '_')
  | '0' :: 'x' :: ds => !ds.isEmpty && ds.all (fun d => (Text.hexValue? d).isSome || d == '_')
  | '0' :: ds => ds.all (fun d => ('0' ≤ d && d ≤ '7') || d == '_')
  | d :: ds =>
    isDigit d && (let rest := ds.dropWhile isDigitOrGap; rest.isEmpty || areSixtieths rest)
  | [] => false

/-- Whether a text is nothing, or an exponent with its sign. -/
def isExponent : List Char → Bool
  | [] => true
  | e :: s :: d :: ds => (e == 'e' || e == 'E') && (s == '+' || s == '-') && (d :: ds).all isDigit
  | _ => false

/-- Whether a plain scalar is a floating-point number. -/
def isFloat (cs : List Char) : Bool :=
  match cs with
  | '.' :: d :: ds =>
    (isDigit d && isExponent (ds.dropWhile isDigitOrGap)) ||
      ["inf", "Inf", "INF", "nan", "NaN", "NAN"].contains (String.ofList (d :: ds))
  | _ =>
    match unsigned cs with
    | '.' :: ds => ["inf", "Inf", "INF"].contains (String.ofList ds)
    | d :: ds =>
      isDigit d &&
        match ds.dropWhile isDigitOrGap with
        | '.' :: rest => isExponent (rest.dropWhile isDigitOrGap)
        | rest =>
          areSixtieths (rest.takeWhile (· != '.')) &&
            match rest.dropWhile (· != '.') with
            | '.' :: behind => behind.all isDigitOrGap
            | _ => false
    | [] => false

/-! ## Their values -/

/-- The value of a digit in bases up to sixteen. -/
def digitValue? (c : Char) : Option Nat := (Text.digitValue? c).or (Text.hexValue? c)

/-- The text behind the mark of a base. -/
def dropBase (base : Nat) : List Char → List Char
  | '0' :: m :: ds =>
    let m := m.toLower
    if (base = 2 ∧ m = 'b') ∨ (base = 8 ∧ m = 'o') ∨ (base = 16 ∧ m = 'x') then ds
      else '0' :: m :: ds
  | ds => ds

/-- The integer of a text in a base. -/
def integerIn (base : Nat) (cs : List Char) : Except ScalarCause Int :=
  let (negative, ds) := Number.signed (Text.trim cs)
  let ds := dropBase base ds
  match Number.ofDigits? base (fun c => (digitValue? c).filter (· < base)) ds with
  | some n =>
    if ds.isEmpty then .error (.notInteger base (String.ofList cs))
    else if base = 10 ∧ 4300 < ds.length then .error (.tooManyDigits ds.length)
    else .ok (if negative then -n else n)
  | none => .error (.notInteger base (String.ofList cs))

/-- A text without underscores. -/
def dropGaps (cs : List Char) : List Char := cs.filter (· != '_')

/-- A sign, and the text behind it, of which there must be some. -/
def signedText (cs : List Char) : Except ScalarCause (Bool × List Char) :=
  if cs.isEmpty then .error .empty else .ok (Number.signed cs)

/-- The integer of a text without a sign. -/
def natural (cs : List Char) : Except ScalarCause Int :=
  match cs with
  | [] => .error .empty
  | ['0'] => .ok 0
  | '0' :: 'b' :: ds => integerIn 2 ds
  | '0' :: 'x' :: ds => integerIn 16 ds
  | '0' :: _ => integerIn 8 cs
  | _ =>
    if cs.contains ':' then do
      let parts ← (cs.splitOnP (· == ':')).mapM (integerIn 10)
      return parts.foldl (fun n d => 60 * n + d) 0
    else integerIn 10 cs

/-- The integer of a scalar. -/
def integer (cs : List Char) : Except ScalarCause Int := do
  let (negative, cs) ← signedText (dropGaps cs)
  let n ← natural cs
  return if negative then -n else n

/-- The floating-point number of a text. -/
def floatOf (cs : List Char) : Except ScalarCause Binary64 :=
  match Number.float? (String.ofList cs) with
  | some x => .ok x
  | none => .error (.notFloat (String.ofList cs))

/-- The sum of digits in base sixty, the last one first, where the next counts `weight` times. -/
def sixtieths (weight : Nat) (sum : Binary64) : List Binary64 → Binary64
  | [] => sum
  | x :: xs => sixtieths (60 * weight) (sum.add (x.mul (.ofInt weight))) xs

/-- The floating-point number of a scalar. -/
def float (cs : List Char) : Except ScalarCause Binary64 := do
  let (negative, cs) ← signedText ((dropGaps cs).map Char.toLower)
  if cs = ['.', 'n', 'a', 'n'] then return .nan
  else
    let x ←
      if cs = ['.', 'i', 'n', 'f'] then pure (.infinite false)
      else if cs.contains ':' then
        pure (sixtieths 1 (.ofInt 0) (← (cs.splitOnP (· == ':')).mapM floatOf).reverse)
      else floatOf cs
    return if negative then x.neg else x

example : isInteger "1_0:59".toList ∧ !isInteger "08".toList ∧
    (integer "-0x1_f".toList).toOption = some (-31) ∧ (integer "010".toList).toOption = some 8 := by
  decide +kernel

example : isFloat "1.".toList ∧ !isFloat "1.5e3".toList ∧ !isFloat "-.5".toList ∧
    isFloat "1:30.5".toList := by
  decide +kernel

end MemberHarvest.Yaml.Numeral
