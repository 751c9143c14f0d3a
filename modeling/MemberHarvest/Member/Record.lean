/-!
# Member/Record — one member as one class implements it
-/

namespace MemberHarvest

/-- Where a body stands in its file: the index of its first line, and the index of the line behind
its last. The second may be the smaller one, where no line ends the body. -/
structure Location where
  path : String
  startLine : Int
  endLine : Int
  deriving DecidableEq, Repr

/-- A member of an interface, implemented by a class of some file. -/
structure Record where
  interfaceName : String
  namespaceName : String
  className : String
  memberName : String
  body : String
  location : Location
  deriving DecidableEq, Repr

end MemberHarvest
