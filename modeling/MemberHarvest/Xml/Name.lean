import MemberHarvest.Xml.NameChar

/-!
# Xml/Name — names, and names with a qualifier
-/

namespace MemberHarvest.Xml

/-- A name with the qualifier in front of its colon, if it has one. -/
structure QName where
  qualifier : Option String
  base : String
  deriving DecidableEq, Repr

/-- The name at the beginning of a text, and the text behind it. -/
def takeName? : List Char → Option (List Char × List Char)
  | [] => none
  | c :: cs =>
    if isNameStart c then some (c :: cs.takeWhile isNameChar, cs.dropWhile isNameChar) else none

/-- The qualified name at the beginning of a text, and the text behind it. -/
def takeQName? (cs : List Char) : Option (QName × List Char) := do
  let (first, rest) ← takeName? cs
  match rest with
  | ':' :: rest =>
    let (second, rest) ← takeName? rest
    return (⟨some (String.ofList first), String.ofList second⟩, rest)
  | rest => return (⟨none, String.ofList first⟩, rest)

/-- The text behind white space. -/
def dropSpace (cs : List Char) : List Char := cs.dropWhile isSpace

end MemberHarvest.Xml
