import MemberHarvest.Text.Decimal

/-!
# Settings/Time — dates and times of day
-/

namespace MemberHarvest.Settings

/-- A day of the Gregorian calendar. -/
structure Date where
  year : Nat
  month : Nat
  day : Nat
  deriving DecidableEq, Repr

/-- A time of a day; the offset from universal time is in minutes. -/
structure Moment where
  date : Date
  hour : Nat
  minute : Nat
  second : Nat
  microsecond : Nat
  offset : Option Int
  deriving DecidableEq, Repr

/-- How many days a month has. -/
def daysIn (year month : Nat) : Nat :=
  if month = 2 then
    if year % 4 = 0 ∧ (year % 100 ≠ 0 ∨ year % 400 = 0) then 29 else 28
  else if month = 4 ∨ month = 6 ∨ month = 9 ∨ month = 11 then 30 else 31

/-- A day in short: year, month and day. -/
def Date.chars (d : Date) : List Char :=
  Text.padded 4 d.year ++ '-' :: Text.padded 2 d.month ++ '-' :: Text.padded 2 d.day

/-- Hours and minutes behind a sign. -/
def offsetChars (minutes : Int) : List Char :=
  (if minutes < 0 then '-' else '+') :: Text.padded 2 (minutes.natAbs / 60) ++
    ':' :: Text.padded 2 (minutes.natAbs % 60)

/-- A time in short: the day, the time of day and the offset. -/
def Moment.chars (m : Moment) : List Char :=
  m.date.chars ++ ' ' :: Text.padded 2 m.hour ++ ':' :: Text.padded 2 m.minute ++
    ':' :: Text.padded 2 m.second ++
    (if m.microsecond = 0 then [] else '.' :: Text.padded 6 m.microsecond) ++
    (m.offset.map offsetChars).getD []

/-! ## In full -/

/-- An integer in base ten. -/
def numeral (i : Int) : String := String.ofList (Text.decimalInt i)

/-- A name with its arguments in parentheses. -/
def call (name : String) (arguments : List String) : String :=
  name ++ "(" ++ ", ".intercalate arguments ++ ")"

/-- A day in full. -/
def Date.inFull (d : Date) : String :=
  call "datetime.date" [numeral d.year, numeral d.month, numeral d.day]

/-- A length of time in full, by days and the seconds of the last day. -/
def spanInFull (minutes : Int) : String :=
  let days := minutes.fdiv 1440
  let seconds := minutes.fmod 1440 * 60
  let parts :=
    (if days = 0 then [] else ["days=" ++ numeral days]) ++
      (if seconds = 0 then [] else ["seconds=" ++ numeral seconds])
  call "datetime.timedelta" (if parts.isEmpty then ["0"] else parts)

/-- An offset from universal time in full. -/
def zoneInFull (minutes : Int) : String :=
  if minutes = 0 then "datetime.timezone.utc" else call "datetime.timezone" [spanInFull minutes]

/-- A time in full; seconds and their fraction are left out where they are zero. -/
def Moment.inFull (m : Moment) : String :=
  let fine :=
    if m.microsecond ≠ 0 then [numeral m.second, numeral m.microsecond]
    else if m.second ≠ 0 then [numeral m.second] else []
  call "datetime.datetime"
    ([numeral m.date.year, numeral m.date.month, numeral m.date.day, numeral m.hour,
      numeral m.minute] ++ fine ++ (m.offset.map fun o => "tzinfo=" ++ zoneInFull o).toList)

example : String.ofList (Date.chars ⟨2024, 1, 2⟩) = "2024-01-02" ∧ daysIn 1900 2 = 28 := by decide

end MemberHarvest.Settings
