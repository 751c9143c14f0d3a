import MemberHarvest.Json.Document
import MemberHarvest.Member.Record

/-!
# Member/Document — the document that lists records
-/

namespace MemberHarvest

/-- A place as a document value. -/
def Location.toJson (l : Location) : Json :=
  .object [("path", .text l.path), ("startLine", .integer l.startLine),
    ("endLine", .integer l.endLine)]

/-- A record as a document value. -/
def Record.toJson (r : Record) : Json :=
  .object
    [("interfaceName", .text r.interfaceName), ("namespace", .text r.namespaceName),
      ("className", .text r.className), ("memberName", .text r.memberName), ("body", .text r.body),
      ("location", r.location.toJson)]

namespace Record

/-- The records as one list, or as the only field of an object. -/
def listing (wrap : Bool) (records : List Record) : Json :=
  let items := Json.array (records.map toJson)
  if wrap then .object [("items", items)] else items

/-- The text of the document that lists the records; it ends with a line end. -/
def document (wrap : Bool) (records : List Record) : Except Failure String :=
  (listing wrap records).document.map (· ++ "\n")

end Record
end MemberHarvest
