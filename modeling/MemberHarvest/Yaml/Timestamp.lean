import MemberHarvest.Settings.Value
import MemberHarvest.Text.Decimal
import MemberHarvest.Yaml.Cursor
import MemberHarvest.Yaml.Fault

/-!
# Yaml/Timestamp — days and times in a document

A day alone has two digits for its month and two for its day; with a time behind it, one is enough.
-/

namespace MemberHarvest.Yaml.Timestamp

open Text (isDigit natOfDigits)

/-- A time of day, as it is written: the digits behind the point, and the offset in minutes. -/
structure Clock where
  hour : Nat
  minute : Nat
  second : Nat
  fraction : List Char
  offset : Option Int
  deriving DecidableEq, Repr

/-- A day, as it is written, and perhaps a time. -/
structure Stamp where
  date : Settings.Date
  clock : Option Clock
  deriving DecidableEq, Repr

/-! ## Its form -/

/-- A number of at least `least` and at most `most` digits, and the text behind it. -/
def number? (least most : Nat) (cs : List Char) : Option (Nat × List Char) :=
  let digits := (cs.take most).takeWhile isDigit
  if least ≤ digits.length then some (natOfDigits digits, cs.drop digits.length) else none

/-- The text behind a character. -/
def behind? (c : Char) : List Char → Option (List Char)
  | d :: cs => if d = c then some cs else none
  | [] => none

/-- A number behind a character. -/
def numberBehind? (c : Char) (least most : Nat) (cs : List Char) : Option (Nat × List Char) := do
  number? least most (← behind? c cs)

/-- An offset at the end of a text, or none. -/
def offset? (cs : List Char) : Option (Option Int) :=
  if cs.isEmpty then some none
  else
    match cs.dropWhile isGap with
    | ['Z'] => some (some 0)
    | s :: cs =>
      if s = '+' ∨ s = '-' then do
        let (hours, cs) ← number? 1 2 cs
        let (minutes, cs) ← if cs.isEmpty then some (0, cs) else numberBehind? ':' 2 2 cs
        let size : Int := hours * 60 + minutes
        if cs.isEmpty then some (some (if s = '-' then -size else size)) else none
      else none
    | [] => none

/-- The text behind what separates a day from a time. -/
def behindDay? : List Char → Option (List Char)
  | c :: cs =>
    if c = 'T' ∨ c = 't' then some cs else if isGap c then some (cs.dropWhile isGap) else none
  | [] => none

/-- The time at the end of a text. -/
def clock? (cs : List Char) : Option Clock := do
  let (hour, cs) ← number? 1 2 (← behindDay? cs)
  let (minute, cs) ← numberBehind? ':' 2 2 cs
  let (second, cs) ← numberBehind? ':' 2 2 cs
  let (fraction, cs) :=
    match cs with
    | '.' :: ds => (ds.takeWhile isDigit, ds.dropWhile isDigit)
    | cs => ([], cs)
  return ⟨hour, minute, second, fraction, ← offset? cs⟩

/-- A day, and perhaps a time. -/
def stamp? (cs : List Char) : Option Stamp := do
  let (year, cs) ← number? 4 4 cs
  let (month, cs) ← numberBehind? '-' 1 2 cs
  let (day, cs) ← numberBehind? '-' 1 2 cs
  if cs.isEmpty then return ⟨⟨year, month, day⟩, none⟩
  else return ⟨⟨year, month, day⟩, some (← clock? cs)⟩

/-- Whether a plain scalar is a day or a time. -/
def isTimestamp (cs : List Char) : Bool :=
  match stamp? cs with
  | some s => s.clock.isSome || cs.length == 10
  | none => false

/-! ## Its value -/

/-- A day that the calendar has. -/
def checkDate (d : Settings.Date) : Except ScalarCause Unit :=
  if d.year = 0 then .error (.yearOutOfRange 0)
  else if d.month = 0 ∨ 12 < d.month then .error .monthOutOfRange
  else if d.day = 0 ∨ Settings.daysIn d.year d.month < d.day then .error .dayOutOfRange
  else .ok ()

/-- A time that a day has. -/
def checkClock (t : Clock) : Except ScalarCause Unit :=
  if 23 < t.hour then .error .hourOutOfRange
  else if 59 < t.minute then .error .minuteOutOfRange
  else if 59 < t.second then .error .secondOutOfRange
  else .ok ()

/-- An offset of less than a day. -/
def checkOffset (t : Clock) : Except ScalarCause Unit :=
  match t.offset with
  | some o => if o.natAbs < 1440 then .ok () else .error (.offsetOutOfRange o)
  | none => .ok ()

/-- The millionths that the digits behind a point stand for; further digits are cut off. -/
def microseconds (digits : List Char) : Nat :=
  let digits := digits.take 6
  natOfDigits digits * Nat.pow 10 (6 - digits.length)

/-- The value of a scalar that is a day or a time. -/
def value (cs : List Char) : Except ScalarCause Settings.Value :=
  match stamp? cs with
  | none => .error .notTimestamp
  | some ⟨date, none⟩ => do
    checkDate date
    return .date date
  | some ⟨date, some t⟩ => do
    checkOffset t
    checkDate date
    checkClock t
    return .moment ⟨date, t.hour, t.minute, t.second, microseconds t.fraction, t.offset⟩

example : isTimestamp "2024-01-02".toList ∧ !isTimestamp "2024-1-2".toList ∧
    (stamp? "2024-1-2 3:04:05.5 -1:30".toList).isSome := by
  decide +kernel

end MemberHarvest.Yaml.Timestamp
