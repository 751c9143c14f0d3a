import MemberHarvest.Interface.Catalogue
import MemberHarvest.Member.Body
import MemberHarvest.Member.Record

/-!
# Member/Extraction — the members that a file implements

A file implements an interface when a line lists its name behind a colon or a comma, blanks aside.
Every such interface leads to a report that it was passed over, or to one record for each of its
members (`outcome`).
-/

namespace MemberHarvest.Extraction

/-! ## What the file says about itself -/

/-- Whether some line lists the name behind a colon or a comma, blanks aside. -/
def implements (lines : List String) (name : String) : Bool :=
  lines.any fun l =>
    let compact := Text.squeeze l.toList
    Text.occurs (':' :: name.toList) compact || Text.occurs (',' :: name.toList) compact

/-- Whether a line names a namespace. -/
def namesSpace (line : String) : Bool := Text.occurs "namespace ".toList line.toList

/-- The last word of a line without its semicolons, where the line has more than one word. -/
def spaceName (line : String) : String :=
  match Text.words line.toList with
  | [] | [_] => ""
  | ws => String.ofList ((ws.getLast?.getD []).filter (· != ';'))

/-- The namespace of the first line that names one. -/
def namespaceName? (lines : List String) : Option String := (lines.find? namesSpace).map spaceName

/-- The word behind the first `class` of the first line that mentions the interface. -/
def className (lines : List String) (name : String) : String :=
  match lines.find? (fun l => Text.occurs name.toList l.toList) with
  | none => ""
  | some line =>
    match Text.after? "class ".toList line.toList with
    | none => ""
    | some behind => String.ofList (Text.firstWord behind)

/-! ## Records -/

/-- The record of a member. -/
def record (fallback : Bool) (file : SourceFile)
    (interfaceName namespaceName className member : String) :
    Record :=
  let start := Body.startLine file.lines member
  let stop := Body.bodyEnd fallback file.lines start
  { interfaceName, namespaceName, className
    memberName := member
    body := Body.sliceBody file.lines start stop
    location := ⟨file.path.toString, start, stop⟩ }

/-- What becomes of a requested name in a file: a report that it is passed over, or records. -/
inductive Outcome where
  | absent
  | passedOver (entry : Entry)
  | found (records : List Record)
  deriving DecidableEq, Repr

/-- The outcome of a name: a namespace is missed before a declaration is. -/
def outcome (fallback : Bool) (c : Catalogue) (file : SourceFile) (name : String) : Outcome :=
  if implements file.lines name then
    match namespaceName? file.lines with
    | none => .passedOver (.noNamespace file.path name)
    | some space =>
      match c.get? name with
      | none => .passedOver (.noDeclaration file.path name)
      | some d =>
        .found (d.members.map (record fallback file name space (className file.lines name)))
  else .absent

/-- The records of an outcome. -/
def Outcome.records : Outcome → List Record
  | .found rs => rs
  | _ => []

/-- The reports of an outcome. -/
def Outcome.entries : Outcome → List Entry
  | .passedOver e => [e]
  | _ => []

/-- The outcomes of the names, in their order. -/
def outcomes (fallback : Bool) (c : Catalogue) (names : List String) (file : SourceFile) :
    List Outcome :=
  names.map (outcome fallback c file)

/-- The records of a file. -/
def records (fallback : Bool) (c : Catalogue) (names : List String) (file : SourceFile) :
    List Record :=
  (outcomes fallback c names file).flatMap Outcome.records

/-- The reports about a file. -/
def entries (fallback : Bool) (c : Catalogue) (names : List String) (file : SourceFile) :
    List Entry :=
  (outcomes fallback c names file).flatMap Outcome.entries

/-- The records of a file, together with the reports. -/
def extract (fallback : Bool) (c : Catalogue) (names : List String) (file : SourceFile) :
    Journaled (List Record) :=
  ⟨entries fallback c names file, .ok (records fallback c names file)⟩

end MemberHarvest.Extraction
