import MemberHarvest.Number.Shortest
import MemberHarvest.Settings.Time
import MemberHarvest.Text.Quoted
import MemberHarvest.Text.Utf8

/-!
# Settings/Value — what a setting may be given as

A configuration file holds values of all these kinds, whatever the settings expect. `plain` is a
value as a text: a text as it stands, and everything else as it would be shown inside a list. A
value that lies inside itself has an end: where it is shown again, only its brackets are (`again`).
-/

namespace MemberHarvest.Settings

/-- A value of a configuration file. -/
inductive Value where
  | null
  | truth (b : Bool)
  | integer (i : Int)
  | float (x : Binary64)
  | date (d : Date)
  | moment (m : Moment)
  | text (s : String)
  | bytes (bs : Text.Bytes)
  | list (items : List Value)
  | pair (key value : Value)
  | set (items : List Value)
  | mapping (entries : List (Value × Value))
  | again (opening closing : Char)

namespace Value

instance : Inhabited Value := ⟨.null⟩

/-- Whether a value counts as nothing. -/
def isHollow : Value → Bool
  | .null | .truth false | .integer 0 | .list [] | .set [] | .mapping [] | .bytes [] => true
  | .float (.finite _ u) => u == 0
  | .text s => s.isEmpty
  | _ => false

/-! ## As text -/

/-- A byte between quotation marks. -/
def quoteByte (mark : Char) (b : UInt8) : List Char :=
  let c := Char.ofNat b.toNat
  if c = mark ∨ c = '\\' then ['\\', c]
  else if c = '\t' then ['\\', 't']
  else if c = '\n' then ['\\', 'n']
  else if c = '\r' then ['\\', 'r']
  else if 0x20 ≤ b.toNat ∧ b.toNat < 0x7F then [c]
  else '\\' :: 'x' :: Text.hexDigits 2 b.toNat

/-- Bytes between quotation marks. -/
def quotedBytes (bs : Text.Bytes) : String :=
  let mark := Text.quoteMark (bs.map fun b => Char.ofNat b.toNat)
  String.ofList ('b' :: mark :: bs.flatMap (quoteByte mark) ++ [mark])

mutual

/-- A value as it is shown inside a list. -/
def shown : Value → String
  | .null => "None"
  | .truth b => if b then "True" else "False"
  | .integer i => numeral i
  | .float x => x.text
  | .date d => d.inFull
  | .moment m => m.inFull
  | .text s => Text.quoted s
  | .bytes bs => quotedBytes bs
  | .list items => "[" ++ ", ".intercalate (shownItems items) ++ "]"
  | .pair k v => "(" ++ k.shown ++ ", " ++ v.shown ++ ")"
  | .set [] => "set()"
  | .set (v :: vs) => "\x7b" ++ ", ".intercalate (v.shown :: shownItems vs) ++ "\x7d"
  | .mapping entries => "\x7b" ++ ", ".intercalate (shownEntries entries) ++ "\x7d"
  | .again opening closing => String.ofList [opening, '.', '.', '.', closing]

/-- Items as they are shown. -/
def shownItems : List Value → List String
  | [] => []
  | v :: vs => v.shown :: shownItems vs

/-- Entries as they are shown. -/
def shownEntries : List (Value × Value) → List String
  | [] => []
  | (k, v) :: rest => (k.shown ++ ": " ++ v.shown) :: shownEntries rest

end

/-- A value as a text. -/
def plain : Value → String
  | .text s => s
  | .date d => String.ofList d.chars
  | .moment m => String.ofList m.chars
  | v => v.shown

end Value
end MemberHarvest.Settings
