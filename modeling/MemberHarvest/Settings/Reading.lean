import MemberHarvest.Number.Reading
import MemberHarvest.Path.Basic
import MemberHarvest.Settings.Basic

/-!
# Settings/Reading — from values to the fields of the settings

Each field reads its value on its own and complains about it on its own; the settings exist when no
field complains (`read`). A text field takes texts only. The names may be one text with commas or a
list of any values. Truth values and numbers are also read from texts.
-/

namespace MemberHarvest.Settings

/-- A field's value, or the complaints about it. -/
abbrev Checked (α : Type) := Except (List FieldError) α

/-- Both parts where there are no complaints, and otherwise the complaints about both. -/
def Checked.both {α β : Type} : Checked α → Checked β → Checked (α × β)
  | .ok a, .ok b => .ok (a, b)
  | .ok _, .error es => .error es
  | .error es, .ok _ => .error es
  | .error es, .error fs => .error (es ++ fs)

/-- **Two parts succeed together exactly when each does.** -/
theorem Checked.both_eq_ok_iff {α β : Type} {x : Checked α} {y : Checked β} {a : α} {b : β} :
    x.both y = .ok (a, b) ↔ x = .ok a ∧ y = .ok b := by
  cases x <;> cases y <;> simp [both]

/-- A complaint about a whole field. -/
def complain {α : Type} (f : Field) (c : Complaint) : Checked α := .error [⟨f, none, c⟩]

/-! ## Texts -/

/-- The text of a value. -/
def textOf? : Value → Except Complaint String
  | .text s => .ok s
  | .bytes bs =>
    match Text.Utf8.decode? bs with
    | some cs => .ok (String.ofList cs)
    | none => .error .notUnicode
  | _ => .error .notText

/-- A value read by a reader with a single complaint. -/
def single {α : Type} (f : Field) (r : Except Complaint α) : Checked α :=
  match r with
  | .ok a => .ok a
  | .error c => complain f c

/-- A text field; without a default it must be given. -/
def readText (f : Field) (default? : Option String) : Option Value → Checked String
  | none =>
    match default? with
    | some s => .ok s
    | none => complain f .missing
  | some v => single f (textOf? v)

/-! ## Lists -/

/-- The complaints about the elements of a list, from an index on. -/
def elementErrors (f : Field) (i : Nat) : List Value → List FieldError
  | [] => []
  | v :: vs =>
    match textOf? v with
    | .ok _ => elementErrors f (i + 1) vs
    | .error c => ⟨f, some i, c⟩ :: elementErrors f (i + 1) vs

/-- The texts among the elements of a list. -/
def elementTexts (vs : List Value) : List String := vs.filterMap fun v => (textOf? v).toOption

/-- The elements of a list, which must be texts. -/
def readElements (f : Field) (vs : List Value) : Checked (List String) :=
  match elementErrors f 0 vs with
  | [] => .ok (elementTexts vs)
  | e :: es => .error (e :: es)

/-- The names of the interfaces. -/
def readInterfaces : Option Value → Checked (List String)
  | none => complain .interfaces .missing
  | some (.text s) => .ok (splitNames s)
  | some (.list items) => .ok (trimNames (items.map Value.plain))
  | some (.set items) => readElements .interfaces items
  | some _ => complain .interfaces .notList

/-- The patterns to ignore; none where they are not given. -/
def readIgnore : Option Value → Checked (List String)
  | none => .ok []
  | some (.list items) | some (.set items) => readElements .ignore items
  | some _ => complain .ignore .notList

/-! ## Whole numbers -/

/-- White space of the Unicode standard: the blank characters other than the information
separators. -/
def isSpace (c : Char) : Bool := Text.isBlank c && !(0x1C ≤ c.toNat && c.toNat ≤ 0x1F)

/-- Leave out a fraction that consists of zeros. -/
def dropZeroFraction (cs : List Char) : List Char :=
  let zeros := (cs.reverse.takeWhile (· == '0')).length
  let front := cs.take (cs.length - zeros)
  if 0 < zeros ∧ front.getLast? = some '.' then front.dropLast else cs

/-- The whole number of a text. Sign and digits of it may have 4300 characters, but for a plus and
zeros in front. -/
def integerOfText (s : String) : Except Complaint Int :=
  let trimmed := ((s.toList.dropWhile isSpace).reverse.dropWhile isSpace).reverse
  match Number.integer? Number.asciiDigit? (dropZeroFraction trimmed) with
  | some i => if (toString i).length ≤ 4300 then .ok i else .error .tooWide
  | none => .error .unclearInteger

/-- The whole number of a floating-point number, which has to lie between the bounds of 64 bits. -/
def integerOfFloat (x : Binary64) : Except Complaint Int :=
  match x with
  | .finite _ _ =>
    match x.toInt? with
    | some i => if i.natAbs < 9223372036854775808 then .ok i else .error .tooWide
    | none => .error .fraction
  | _ => .error .notFinite

/-- The whole number of a value. -/
def integerOf : Value → Except Complaint Int
  | .truth b => .ok (if b then 1 else 0)
  | .integer i => .ok i
  | .float x => integerOfFloat x
  | .text s => integerOfText s
  | .bytes bs =>
    match Text.Utf8.decode? bs with
    | some cs => integerOfText (String.ofList cs)
    | none => .error .unclearInteger
  | _ => .error .notInteger

/-- The number of workers, one where it is not given and never less. -/
def readWorkers : Option Value → Checked Nat
  | none => .ok 1
  | some v =>
    match integerOf v with
    | .ok i => if 1 ≤ i then .ok i.toNat else complain .maxWorkers .tooSmall
    | .error c => complain .maxWorkers c

/-! ## Truth values -/

/-- The texts that mean true. -/
def trueTexts : List String := ["1", "on", "t", "true", "y", "yes"]

/-- The texts that mean false. -/
def falseTexts : List String := ["0", "off", "f", "false", "n", "no"]

/-- The truth value of a text, capitals and small letters alike. -/
def truthOfText (s : String) : Except Complaint Bool :=
  let small := Path.lowerAscii s
  if trueTexts.contains small then .ok true
  else if falseTexts.contains small then .ok false else .error .unclearTruth

/-- The truth value of a whole number. -/
def truthOfInteger (i : Int) : Except Complaint Bool :=
  if i = 0 then .ok false else if i = 1 then .ok true else .error .unclearTruth

/-- The truth value of a value. A number that is not whole, or does not fit into 64 bits, is
none. -/
def truthOf : Value → Except Complaint Bool
  | .truth b => .ok b
  | .integer i =>
    if -9223372036854775808 ≤ i ∧ i < 9223372036854775808 then truthOfInteger i
    else .error .notTruth
  | .float x =>
    match integerOfFloat x with
    | .ok i => truthOfInteger i
    | .error _ => .error .notTruth
  | .text s => truthOfText s
  | .bytes bs =>
    match Text.Utf8.decode? bs with
    | some cs => truthOfText (String.ofList cs)
    | none => .error .unclearTruth
  | _ => .error .notTruth

/-- A truth field; false where it is not given. -/
def readTruth (f : Field) : Option Value → Checked Bool
  | none => .ok false
  | some v => single f (truthOf v)

/-! ## All fields -/

/-- The encoding of source files where none is given. -/
def defaultEncoding : String := "utf-8-sig"

/-- The level of the journal where none is given. -/
def defaultLevel : String := "INFO"

/-- **The settings, or the complaints about all fields** in the order of the fields. -/
def read (raw : Field → Option Value) : Checked Settings :=
  let fields :=
    (readText .solution none (raw .solution)).both <|
    (readText .output none (raw .output)).both <|
    (readInterfaces (raw .interfaces)).both <|
    (readIgnore (raw .ignore)).both <|
    (readText .encoding (some defaultEncoding) (raw .encoding)).both <|
    (readTruth .eofFallback (raw .eofFallback)).both <|
    (readTruth .wrapItems (raw .wrapItems)).both <|
    (readWorkers (raw .maxWorkers)).both <|
    readText .logLevel (some defaultLevel) (raw .logLevel)
  fields.map fun (solution, output, interfaces, ignore, encoding, eofFallback,
    wrapItems, maxWorkers,
      logLevel) =>
    { solution, output, interfaces, ignore, encoding, eofFallback, wrapItems, maxWorkers, logLevel }

example : (integerOfText " +1_0.00 ").toOption = some 10 ∧ (integerOfText "1.").toOption = none ∧
    (integerOfText ".0").toOption = none := by
  decide +kernel

end MemberHarvest.Settings
