import MemberHarvest.Json.Reading
import MemberHarvest.Member.Document

/-!
# Member/Reading — the records that a document lists

A document is read back only if it has the fields in their order and no others.
-/

namespace MemberHarvest

/-- The place that a document value describes. -/
def Location.ofJson? : Json → Option Location
  | .object [("path", .text path), ("startLine", .integer first), ("endLine", .integer last)] =>
    some ⟨path, first, last⟩
  | _ => none

namespace Record

/-- The record that a document value describes. -/
def ofJson? : Json → Option Record
  | .object
      [("interfaceName", .text interfaceName), ("namespace", .text namespaceName),
        ("className", .text className), ("memberName", .text memberName), ("body", .text body),
        ("location", location)] => do
    return ⟨interfaceName, namespaceName, className, memberName, body, ← Location.ofJson? location⟩
  | _ => none

/-- Whether records are listed in an object, and the records. -/
def ofListing? : Json → Option (Bool × List Record)
  | .array items => do return (false, ← items.mapM ofJson?)
  | .object [("items", .array items)] => do return (true, ← items.mapM ofJson?)
  | _ => none

/-- **What the text of a document lists.** -/
def read? (text : String) : Option (Bool × List Record) := do ofListing? (← Json.read? text)

@[simp] theorem ofJson?_toJson (r : Record) : ofJson? r.toJson = some r := rfl

theorem ofListing?_listing (wrap : Bool) (records : List Record) :
    ofListing? (listing wrap records) = some (wrap, records) := by
  have h : (records.map toJson).mapM ofJson? = some records := by
    induction records with
    | nil => rfl
    | cons r rs ih => simp [ih]
  cases wrap <;> simp [listing, ofListing?, h]

end Record
end MemberHarvest
