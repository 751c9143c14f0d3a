import MemberHarvest.Settings.Time
import MemberHarvest.Text.Quoted

/-!
# Yaml/Fault — why a text is no document

Either the form of the text is wrong, or one of its scalars looks like a value that does not exist:
a number without digits, the thirteenth month. Bytes that are no text stop the reading too, where
nothing is wrong in front of them.
-/

namespace MemberHarvest.Yaml

/-- Why a scalar has no value. -/
inductive ScalarCause where
  | notInteger (base : Nat) (text : String)
  | tooManyDigits (count : Nat)
  | notFloat (text : String)
  | notTruth (text : String)
  | empty
  | notTimestamp
  | yearOutOfRange (year : Nat)
  | monthOutOfRange
  | dayOutOfRange
  | hourOutOfRange
  | minuteOutOfRange
  | secondOutOfRange
  | offsetOutOfRange (minutes : Int)
  | codePointOutOfRange
  | codePointTooWide
  | endless
  deriving DecidableEq, Repr

/-- Why a text is no document. -/
inductive Fault where
  | form
  | scalar (cause : ScalarCause)
  deriving DecidableEq, Repr

/-- Why bytes are no document. -/
inductive Halt where
  | undecodable
  | fault (f : Fault)
  deriving DecidableEq, Repr

/-- The wording of a scalar without a value. -/
def ScalarCause.message : ScalarCause → String
  | .notInteger base text =>
    let shown := String.ofList ((Text.quoted text).toList.take 200)
    s!"invalid literal for int() with base {base}: {shown}"
  | .tooManyDigits count =>
    "Exceeds the limit (4300 digits) for integer string conversion: value has " ++
      s!"{count} digits; use sys.set_int_max_str_digits() to increase the limit"
  | .notFloat text => s!"could not convert string to float: {Text.quoted text}"
  | .notTruth text => Text.quoted text
  | .empty => "string index out of range"
  | .notTimestamp => "'NoneType' object has no attribute 'groupdict'"
  | .yearOutOfRange year => s!"year {year} is out of range"
  | .monthOutOfRange => "month must be in 1..12"
  | .dayOutOfRange => "day is out of range for month"
  | .hourOutOfRange => "hour must be in 0..23"
  | .minuteOutOfRange => "minute must be in 0..59"
  | .secondOutOfRange => "second must be in 0..59"
  | .offsetOutOfRange minutes =>
    "offset must be a timedelta strictly between -timedelta(hours=24) and " ++
      "timedelta(hours=24), not " ++ Settings.spanInFull minutes ++ "."
  | .codePointOutOfRange => "chr() arg not in range(0x110000)"
  | .codePointTooWide => "Python int too large to convert to C int"
  | .endless => "maximum recursion depth exceeded"

end MemberHarvest.Yaml
