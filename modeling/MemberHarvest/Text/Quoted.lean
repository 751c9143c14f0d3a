import MemberHarvest.Text.Hex
import MemberHarvest.Text.Printable

/-!
# Text/Quoted — text between quotation marks

Messages show a text between apostrophes, or between double quotation marks where it holds an
apostrophe and no double quotation mark. The backslash escapes itself, the mark, the tabulator and
the two line ends; other characters that cannot be shown are written by their code point.
-/

namespace MemberHarvest.Text

/-- The apostrophe, unless the text holds it and does not hold the double quotation mark. -/
def quoteMark (cs : List Char) : Char :=
  if cs.contains '\x27' && !cs.contains '"' then '"' else '\x27'

/-- One character inside quotation marks. -/
def quoteChar (mark c : Char) : List Char :=
  if c = mark ∨ c = '\\' then ['\\', c]
  else if c = '\t' then ['\\', 't']
  else if c = '\n' then ['\\', 'n']
  else if c = '\r' then ['\\', 'r']
  else if isPrintable c then [c]
  else if c.toNat < 0x100 then '\\' :: 'x' :: hexDigits 2 c.toNat
  else if c.toNat < 0x10000 then '\\' :: 'u' :: hexDigits 4 c.toNat
  else '\\' :: 'U' :: hexDigits 8 c.toNat

/-- The text between quotation marks. -/
def quoted (s : String) : String :=
  let mark := quoteMark s.toList
  String.ofList (mark :: s.toList.flatMap (quoteChar mark) ++ [mark])

example :
    quoted "a\tb" = "'a\\tb'" ∧ quoted "it's" = "\"it's\"" ∧ quoted "\u200b" = "'\\u200b'" := by
  decide +kernel

end MemberHarvest.Text
