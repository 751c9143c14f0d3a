import MemberHarvest.Xml.Declared

/-!
# Xml/Element — the elements of a document, each in its name space

A qualifier stands for the name space that the nearest element around it binds it to. Attributes
without a qualifier belong to no name space.
-/

namespace MemberHarvest.Xml

/-- A name in a name space, or in none. -/
structure Name where
  space : Option String
  base : String
  deriving DecidableEq, Repr

/-- An element: its name, and its attributes with their values. -/
structure Element where
  name : Name
  attributes : List (Name × String)
  deriving DecidableEq, Repr

/-- The value of an attribute that belongs to no name space. -/
def Element.attribute? (e : Element) (name : String) : Option String :=
  e.attributes.lookup ⟨none, name⟩

/-- The name spaces of qualifiers; the empty qualifier stands for names without one. -/
abbrev Scope := List (String × String)

namespace Scope

/-- The name space that a scheme, an authority and a path identify. -/
def identified (scheme authority path : String) : String := scheme ++ "://" ++ authority ++ path

/-- The name space of the qualifier `xml`. -/
def xmlSpace : String := identified "http" "www.w3.org" "/XML/1998/namespace"

/-- The name space of the qualifier `xmlns`. -/
def xmlnsSpace : String := identified "http" "www.w3.org" "/2000/xmlns/"

/-- The qualifiers that are bound from the start. -/
def initial : Scope := [("xml", xmlSpace)]

/-- Whether a qualifier may be bound to a name space. -/
def mayBind (qualifier space : String) : Bool :=
  !(space.isEmpty && !qualifier.isEmpty) && qualifier != "xmlns" && !space.toList.contains '\x7d' &&
    (qualifier == "xml") == (space == xmlSpace) && space != xmlnsSpace

/-- The qualifier that an attribute binds, if it binds one. -/
def bound? (q : QName) : Option String :=
  match q.qualifier with
  | none => if q.base = "xmlns" then some "" else none
  | some "xmlns" => some q.base
  | _ => none

/-- The scope after the attributes that bind qualifiers. -/
def extend? (scope : Scope) : List (QName × List Char) → Option Scope
  | [] => some scope
  | (q, value) :: rest =>
    match bound? q with
    | none => extend? scope rest
    | some qualifier =>
      let space := String.ofList value
      if mayBind qualifier space then extend? ((qualifier, space) :: scope) rest else none

/-- The name space of names without a qualifier. -/
def default? (scope : Scope) : Option String := (scope.lookup "").filter fun s => !s.isEmpty

/-- The name of an element. -/
def elementName? (scope : Scope) (q : QName) : Option Name :=
  match q.qualifier with
  | none => some ⟨scope.default?, q.base⟩
  | some p => (scope.lookup p).map fun s => ⟨some s, q.base⟩

/-- The name of an attribute. -/
def attributeName? (scope : Scope) (q : QName) : Option Name :=
  match q.qualifier with
  | none => some ⟨none, q.base⟩
  | some p => (scope.lookup p).map fun s => ⟨some s, q.base⟩

end Scope

namespace Tag

/-- The value of a given attribute, compressed where it is declared as other than character data. -/
def value? (d : Declared) (element : QName) (a : QName × List Piece) :
    Option (QName × List Char) := do
  let value ← d.chars? a.2
  let declared := d.attributes.find? fun b => b.element == element && b.name == a.1
  let plain := (declared.map (·.isCharacterData)).getD true
  return (a.1, if plain then value else Declared.compress value)

/-- The declared attributes of an element that a tag does not give. -/
def defaults (d : Declared) (element : QName) (given : List QName) : List (QName × List Char) :=
  d.attributes.filterMap fun b =>
    if b.element == element && !given.contains b.name then b.value.map fun v =>
      (b.name, v) else none

/-- Whether no name occurs twice. -/
def areDistinct {α : Type} [BEq α] : List α → Bool
  | [] => true
  | a :: as => !as.contains a && areDistinct as

/-- The element of a tag, and the scope inside it. -/
def element? (d : Declared) (scope : Scope) (t : Tag) : Option (Element × Scope) := do
  let names := t.attributes.map (·.1)
  let given ← t.attributes.mapM (value? d t.name)
  let all := given ++ defaults d t.name names
  let inner ← scope.extend? all
  let plain ← (all.filter fun a => (Scope.bound? a.1).isNone).mapM fun a =>
    return (← inner.attributeName? a.1, String.ofList a.2)
  if areDistinct names && areDistinct (plain.map (·.1)) then
    return (⟨← inner.elementName? t.name, plain⟩, inner)
  else none

end Tag
end MemberHarvest.Xml
