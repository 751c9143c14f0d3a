import MemberHarvest.Xml.DoctypeMark

/-!
# Xml/Declared — what a document declares about entities and attributes

Of the declarations in a document type, those of entities and attributes matter later, and the
others only have to be well formed. The first declaration of a name counts. Behind a reference to a
parameter, whose text is not read, declarations are passed over, unless the document stands alone.
-/

namespace MemberHarvest.Xml

/-- A declared attribute of an element; values that are no character data are compressed. -/
structure DeclaredAttribute where
  element : QName
  name : QName
  isCharacterData : Bool
  value : Option (List Char)
  deriving DecidableEq, Repr

/-- What a document declares. An entity without a text cannot be used. Unknown entities are errors
in a `strict` document. -/
structure Declared where
  entities : List (String × Option (List Char))
  attributes : List DeclaredAttribute
  strict : Bool
  deriving DecidableEq, Repr

namespace Declared

/-- No declarations. -/
def none : Declared := ⟨[], [], true⟩

/-! ## Values -/

/-- How long the text of an entity may grow. -/
def maxExpansion : Nat := 8388608

/-- The names of the entities that pieces refer to. -/
def entitiesOf (ps : List Piece) : List String :=
  ps.filterMap fun
    | .entity n => some n
    | .char _ => Option.none

/-- The names of the entities that a text refers to. -/
def namesIn (cs : List Char) : List String :=
  match piecesFrom (fun c => some (.char c)) Option.none cs with
  | some ps => entitiesOf ps
  | Option.none => []

/-- The lengths of the entities' texts after one more round of replacements. -/
def grow (d : Declared) (lengths : List (String × Nat)) : List (String × Nat) :=
  d.entities.map fun (name, text?) =>
    let text := text?.getD []
    (name, (namesIn text).foldl (fun sum n => sum + (lengths.lookup n).getD 0) text.length)

/-- The lengths of the entities' texts after as many rounds as there are entities. -/
def lengths (d : Declared) : List (String × Nat) :=
  (List.range d.entities.length).foldl (fun ls _ => d.grow ls) []

/-- Whether none of the entities grows too long. -/
def isModest (d : Declared) (names : List String) : Bool :=
  let ls := d.lengths
  names.all fun n => (ls.lookup n).getD 0 ≤ maxExpansion

/-- The characters of pieces, with at most `depth` entities inside one another. -/
def charsWithin (d : Declared) : Nat → List Piece → Option (List Char)
  | 0, _ => Option.none
  | depth + 1, ps =>
    (ps.mapM fun
      | Piece.char c => some [c]
      | Piece.entity n =>
        match predefined? n with
        | some c => some [c]
        | Option.none =>
          match d.entities.lookup n with
          | some (some text) => (attributePieces? text).bind (charsWithin d depth)
          | some Option.none => Option.none
          | Option.none => if d.strict then Option.none else some []).map List.flatten

/-- The characters of pieces. -/
def chars? (d : Declared) (ps : List Piece) : Option (List Char) :=
  if d.isModest (entitiesOf ps) then d.charsWithin (d.entities.length + 1) ps else Option.none

/-- The value without spaces at its sides and with single spaces inside. -/
def compress (cs : List Char) : List Char :=
  [' '].intercalate ((cs.splitOnP (· == ' ')).filter fun w => !w.isEmpty)

/-! ## Well-formed declarations -/

/-- Whether a character may stand in a public identifier. -/
def isPublicChar (c : Char) : Bool :=
  c.isAlphanum || "-'()+,./:=?;!*#@$_% \n\r".toList.contains c

/-- Whether the marks name something outside the document, and what stands behind them. -/
def external? : List DoctypeMark → Option (List DoctypeMark)
  | .name ⟨Option.none, "SYSTEM"⟩ Option.none :: .literal _ :: rest => some rest
  | .name ⟨Option.none, "PUBLIC"⟩ Option.none :: .literal p :: .literal _ :: rest =>
    if p.all isPublicChar then some rest else Option.none
  | _ => Option.none

/-- Whether the marks are the rest of a group of names of which any may occur any number of
times. -/
def isMixed : List DoctypeMark → Bool
  | [.rightParen (some '*')] => true
  | .bar :: .name _ Option.none :: rest => isMixed rest
  | _ => false

/-- Whether the marks are the rest of a content model: `open_` holds the sign between the parts of
each open group, and `wantsPart` tells what is to come. -/
def isModel (wantsPart : Bool) (open_ : List (Option DoctypeMark)) : List DoctypeMark → Bool
  | [] => open_.isEmpty && !wantsPart
  | m :: ms =>
    match wantsPart, open_ with
    | _, [] => false
    | true, gs =>
      match m with
      | .leftParen => isModel true (Option.none :: gs) ms
      | .name _ _ => isModel false gs ms
      | _ => false
    | false, g :: gs =>
      match m with
      | .rightParen _ => isModel false gs ms
      | .comma | .bar => (g.isNone || g == some m) && isModel true (some m :: gs) ms
      | _ => false

/-- Whether the marks declare an element. -/
def isElement : List DoctypeMark → Bool
  | [.name _ Option.none, .name ⟨Option.none, k⟩ Option.none] => k == "EMPTY" || k == "ANY"
  | .name _ Option.none :: .leftParen :: .pound "PCDATA" :: rest =>
    rest == [.rightParen Option.none] || isMixed rest
  | .name _ Option.none :: .leftParen :: rest => isModel true [Option.none] rest
  | _ => false

/-- Whether the marks declare a notation. -/
def isNotation : List DoctypeMark → Bool
  | [.name ⟨Option.none, _⟩ Option.none, .name ⟨Option.none, "PUBLIC"⟩ Option.none, .literal p] =>
    p.all isPublicChar
  | .name ⟨Option.none, _⟩ Option.none :: rest => external? rest == some []
  | _ => false

/-! ## Attributes -/

/-- What comes next in a list of attributes. -/
inductive Expected where
  | attribute
  | kind (name : QName)
  | firstOf (name : QName) (isNotation : Bool)
  | choice (name : QName) (isNotation : Bool)
  | more (name : QName) (isNotation : Bool)
  | default (name : QName) (isCharacterData : Bool)
  | fixed (name : QName) (isCharacterData : Bool)
  deriving DecidableEq, Repr

/-- The kinds of values other than character data. -/
def tokenKinds : List String :=
  ["ID", "IDREF", "IDREFS", "ENTITY", "ENTITIES", "NMTOKEN", "NMTOKENS"]

/-- The attributes that the marks declare for an element. -/
def attributes? (element : QName) : Expected → List DoctypeMark → Option (List DeclaredAttribute)
  | .attribute, [] => some []
  | _, [] => Option.none
  | e, m :: ms =>
    match e, m with
    | .attribute, .name q Option.none => attributes? element (.kind q) ms
    | .kind q, .name ⟨Option.none, "CDATA"⟩ Option.none => attributes? element (.default q true) ms
    | .kind q, .name ⟨Option.none, "NOTATION"⟩ Option.none =>
      attributes? element (.firstOf q true) ms
    | .kind q, .name ⟨Option.none, k⟩ Option.none =>
      if tokenKinds.contains k then attributes? element (.default q false) ms else Option.none
    | .kind q, .leftParen => attributes? element (.choice q false) ms
    | .firstOf q n, .leftParen => attributes? element (.choice q n) ms
    | .choice q n, .name v Option.none =>
      if n && v.qualifier.isSome then Option.none else attributes? element (.more q n) ms
    | .choice q n, .token _ => if n then Option.none else attributes? element (.more q n) ms
    | .more q n, .bar => attributes? element (.choice q n) ms
    | .more q _, .rightParen Option.none => attributes? element (.default q false) ms
    | .default q c, .pound k =>
      if k = "FIXED" then attributes? element (.fixed q c) ms
      else if k = "IMPLIED" ∨ k = "REQUIRED" then
        (attributes? element .attribute ms).map (⟨element, q, c, Option.none⟩ :: ·)
      else Option.none
    | .default q c, .literal v | .fixed q c, .literal v =>
      (attributes? element .attribute ms).map (⟨element, q, c, some v⟩ :: ·)
    | _, _ => Option.none

/-- The value that a declared attribute has where it is not given. -/
def defaultValue? (d : Declared) (a : DeclaredAttribute) : Option DeclaredAttribute := do
  match a.value with
  | Option.none => return a
  | some raw =>
    let value ← d.chars? (← attributePieces? raw)
    return { a with value := some (if a.isCharacterData then value else compress value) }

/-- Add an attribute. A value that comes too late is left out. -/
def addAttribute (d : Declared) (a : DeclaredAttribute) : Declared :=
  if a.value.isSome && d.attributes.any (fun b => b.element == a.element && b.name == a.name) then d
  else { d with attributes := d.attributes ++ [a] }

/-- Add the attributes of a declaration. -/
def withAttributes (d : Declared) (as : List DeclaredAttribute) : Option Declared :=
  as.foldlM (fun d a => return d.addAttribute (← d.defaultValue? a)) d

/-! ## Entities -/

/-- Add an entity. The first one of a name stays, and no predefined one is replaced. -/
def addEntity (d : Declared) (name : String) (text? : Option (List Char)) : Declared :=
  if (predefined? name).isSome || (d.entities.lookup name).isSome then d
  else { d with entities := d.entities ++ [(name, text?)] }

/-- Add the entity that marks declare; a parameter's text only has to be well formed. -/
def withEntity (d : Declared) : List DoctypeMark → Option Declared
  | [.name ⟨Option.none, n⟩ Option.none, .literal v] => do
    return d.addEntity n (some (← entityText? v))
  | [.percent, .name ⟨Option.none, _⟩ Option.none, .literal v] => do
    let _ ← entityText? v
    return d
  | .percent :: .name ⟨Option.none, _⟩ Option.none :: rest =>
    if external? rest == some [] then some d else Option.none
  | .name ⟨Option.none, n⟩ Option.none :: rest =>
    match external? rest with
    | some [] => some (d.addEntity n Option.none)
    | some [.name ⟨Option.none, "NDATA"⟩ Option.none, .name ⟨Option.none, _⟩ Option.none] =>
      some (d.addEntity n Option.none)
    | _ => Option.none
  | _ => Option.none

/-- Add what a declaration says. -/
def withDeclaration (d : Declared) (keyword : String) (body : List DoctypeMark) : Option Declared :=
  match keyword with
  | "ENTITY" => d.withEntity body
  | "ATTLIST" =>
    match body with
    | .name element Option.none :: rest =>
      (attributes? element .attribute rest).bind d.withAttributes
    | _ => Option.none
  | "ELEMENT" => if isElement body then some d else Option.none
  | "NOTATION" => if isNotation body then some d else Option.none
  | _ => Option.none

/-! ## The whole declaration -/

/-- Whether a mark may stand inside a declaration of the subset. -/
def isInner : DoctypeMark → Bool
  | .opening _ | .closing | .subsetStart | .subsetEnd | .parameter _ | .skipped => false
  | _ => true

/-- A mark of a declaration that does not count: its quoted texts are not read. -/
def emptied : DoctypeMark → DoctypeMark
  | .literal _ => .literal []
  | m => m

/-- Add what the marks of a subset declare. The declaration that is being read is `open?`, its marks
last one first; `heeded` tells whether declarations still count. -/
def withSubset (standalone : Bool) (d : Declared) (heeded : Bool)
    (open? : Option (String × List DoctypeMark)) : List DoctypeMark → Option Declared
  | [] => Option.none
  | m :: ms =>
    match open?, m with
    | Option.none, .opening k => withSubset standalone d heeded (some (k, [])) ms
    | Option.none, .skipped => withSubset standalone d heeded Option.none ms
    | Option.none, .parameter _ =>
      withSubset standalone { d with strict := standalone } (heeded && standalone) Option.none ms
    | Option.none, .subsetEnd => if ms.isEmpty then some d else Option.none
    | Option.none, _ => Option.none
    | some (k, body), .closing => do
      let next ←
        if heeded then d.withDeclaration k body.reverse
        else (d.withDeclaration k (body.reverse.map emptied)).map fun _ => d
      withSubset standalone next heeded Option.none ms
    | some (k, body), m =>
      if isInner m then withSubset standalone d heeded (some (k, m :: body)) ms else Option.none

/-- What the marks of a document type declare. -/
def ofMarks? (standalone : Bool) : List DoctypeMark → Option Declared
  | .name _ Option.none :: rest =>
    let (outside, d) :=
      match external? rest with
      | some behind => (behind, { Declared.none with strict := standalone })
      | Option.none => (rest, Declared.none)
    match outside with
    | [] => some d
    | .subsetStart :: ms => withSubset standalone d true Option.none ms
    | _ => Option.none
  | _ => Option.none

end Declared
end MemberHarvest.Xml
