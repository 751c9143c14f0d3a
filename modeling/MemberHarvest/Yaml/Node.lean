import MemberHarvest.Yaml.Tag
import MemberHarvest.Yaml.Token.Lexer

/-!
# Yaml/Node — from tokens to the nodes of a document

A node is a scalar, a sequence or a mapping, each with a tag. Where a node may be left out, an empty
scalar stands for it. An alias stands for the node of its anchor, which need not be complete: nodes
go by numbers, and a node may contain its own.
-/

namespace MemberHarvest.Yaml

/-- A part of a document and what it is meant as. The nodes in it are told by their numbers. -/
inductive Node where
  | scalar (tag : Tag) (text : String)
  | sequence (tag : Tag) (items : List Nat)
  | mapping (tag : Tag) (entries : List (Nat × Nat))

/-- The nodes of a document, each under its number. -/
abbrev Nodes := Array Node

namespace Node

/-- What stands where a node is left out. -/
def absent : Node := .scalar .null ""

instance : Inhabited Node := ⟨absent⟩

/-- What a node is meant as. -/
def tag : Node → Tag
  | .scalar t _ | .sequence t _ | .mapping t _ => t

/-! ## Reading tokens -/

/-- The tokens to come, the nodes so far, and those that have an anchor. -/
structure Progress where
  tokens : List Token
  nodes : Nodes
  anchors : List (String × Nat)

/-- Readers of tokens. They stop at a fault, or where the text breaks off. -/
abbrev Reader := StateT Progress (Except (Option Fault))

/-- Stop at a fault, or at the end of what is known. -/
def stop {α : Type} (f? : Option Fault) : Reader α := fun _ => .error f?

/-- Nothing that makes sense comes here. -/
def refuse {α : Type} : Reader α := stop (some .form)

/-- The next token, if there is one. -/
def peek : Reader (Option Token) := do
  match (← get).tokens.head? with
  | some (.fault f?) => stop f?
  | t => return t

/-- Leave the next token behind. -/
def skip : Reader Unit := modify fun p => { p with tokens := p.tokens.tail }

/-- Leave the next token behind, if it is the given one. -/
def skipIf (t : Token) : Reader Bool := do
  if (← peek) = some t then
    skip
    return true
  else return false

/-- What stands in front of a node: an anchor and a tag. -/
structure Properties where
  anchor : Option String := none
  tag : Option (Option String × String) := none

/-- The anchor and the tag in front of a node, in either order. -/
def properties : Reader Properties := do
  match (← peek) with
  | some (.anchor a) =>
    skip
    match (← peek) with
    | some (.tag h s) =>
      skip
      return ⟨some a, some (h, s)⟩
    | _ => return ⟨some a, none⟩
  | some (.tag h s) =>
    skip
    match (← peek) with
    | some (.anchor a) =>
      skip
      return ⟨some a, some (h, s)⟩
    | _ => return ⟨none, some (h, s)⟩
  | _ => return ⟨none, none⟩

/-- What the handles of tags stand for. -/
abbrev Handles := List (String × String)

/-- The name of a tag. A tag that is just a mark is none. -/
def tagName (handles : Handles) : Option (Option String × String) → Reader (Option String)
  | none => return none
  | some (none, name) => return some name
  | some (some h, suffix) =>
    match handles.lookup h with
    | some start => return some (start ++ suffix)
    | none => refuse

/-- Whether a tag is left to how the node looks. -/
def isOpen (name : Option String) : Bool := name.isNone || name == some "!"

/-- A tag by its name, or else the usual one. -/
def tagOr (usual : Tag) (name : Option String) : Tag :=
  if isOpen name then usual else (name.map Tag.ofName).getD usual

/-- The tag of a scalar. A lone mark has a quoted scalar looked at like a plain one. -/
def scalarTag (name : Option String) (text : String) (isPlain : Bool) : Tag :=
  if isPlain || name.isSome then tagOr (.ofPlain text) name else .text

/-- Where a node stands: in a block, as the key or value of a block, or between brackets. Elements
of a sequence need no indentation of their own in a key or value. -/
inductive Position where
  | block
  | held
  | flow
  deriving DecidableEq, Repr

/-- The number of an anchor's node. -/
def aliased (name : String) : Reader Nat := do
  match (← get).anchors.lookup name with
  | some i => return i
  | none => refuse

/-- Add a node, under its anchor if it has one. A known anchor may not come again. -/
def add (anchor : Option String) (n : Node) : Reader Nat := do
  let p ← get
  let i := p.nodes.size
  match anchor with
  | none => set { p with nodes := p.nodes.push n }
  | some a =>
    if (p.anchors.lookup a).isSome then refuse
    else set { p with nodes := p.nodes.push n, anchors := (a, i) :: p.anchors }
  return i

/-- Add a node that contains others. It has its number before they are read. -/
def enclose (anchor : Option String) (content : Reader Node) : Reader Nat := do
  let i ← add anchor absent
  let n ← content
  modify fun p => { p with nodes := p.nodes.setIfInBounds i n }
  return i

mutual

/-- A node. -/
def read (handles : Handles) : Nat → Position → Reader Nat
  | 0, _ => refuse
  | fuel + 1, position => do
    match (← peek) with
    | some (.alias_ name) =>
      skip
      aliased name
    | _ =>
      let found ← properties
      content handles fuel position found.anchor (← tagName handles found.tag)

/-- A node behind its anchor and tag. -/
def content (handles : Handles) : Nat → Position → Option String → Option String → Reader Nat
  | 0, _, _, _ => refuse
  | fuel + 1, position, anchor, name => do
    match (← peek), position with
    | some .entry, .held =>
      enclose anchor (.sequence (tagOr .sequence name) <$> heldEntries handles fuel)
    | some (.scalar text isPlain), _ =>
      skip
      add anchor (.scalar (scalarTag name text isPlain) text)
    | some .openSequence, _ =>
      skip
      enclose anchor (.sequence (tagOr .sequence name) <$> flowItems handles fuel true)
    | some .openMapping, _ =>
      skip
      enclose anchor (.mapping (tagOr .mapping name) <$> flowPairs handles fuel true)
    | some .blockSequence, .block | some .blockSequence, .held =>
      skip
      enclose anchor (.sequence (tagOr .sequence name) <$> blockEntries handles fuel)
    | some .blockMapping, .block | some .blockMapping, .held =>
      skip
      enclose anchor (.mapping (tagOr .mapping name) <$> blockPairs handles fuel)
    | _, _ =>
      if anchor.isSome || name.isSome then add anchor (.scalar (tagOr .null name) "") else refuse

/-- A node, unless a token comes that stands behind a node left out. -/
def readUnless (handles : Handles) : Nat → List Token → Position → Reader Nat
  | 0, _, _ => refuse
  | fuel + 1, stops, position => do
    match (← peek) with
    | some t => if stops.contains t then add none absent else read handles fuel position
    | none => read handles fuel position

/-- A value behind its colon, or none. -/
def readValue (handles : Handles) : Nat → List Token → Position → Reader Nat
  | 0, _, _ => refuse
  | fuel + 1, stops, position => do
    if (← skipIf .value) then readUnless handles fuel stops position else add none absent

/-- The elements of a sequence that has a block of its own. -/
def blockEntries (handles : Handles) : Nat → Reader (List Nat)
  | 0 => refuse
  | fuel + 1 => do
    if (← skipIf .entry) then
      let n ← readUnless handles fuel [.entry, .blockEnd] .block
      return n :: (← blockEntries handles fuel)
    else if (← skipIf .blockEnd) then return []
    else refuse

/-- The elements of a sequence without a block of its own. -/
def heldEntries (handles : Handles) : Nat → Reader (List Nat)
  | 0 => refuse
  | fuel + 1 => do
    if (← skipIf .entry) then
      let n ← readUnless handles fuel [.entry, .key, .value, .blockEnd] .block
      return n :: (← heldEntries handles fuel)
    else return []

/-- The entries of a mapping in a block. -/
def blockPairs (handles : Handles) : Nat → Reader (List (Nat × Nat))
  | 0 => refuse
  | fuel + 1 => do
    if (← skipIf .key) then
      let k ← readUnless handles fuel [.key, .value, .blockEnd] .held
      let v ← readValue handles fuel [.key, .value, .blockEnd] .held
      return (k, v) :: (← blockPairs handles fuel)
    else if (← skipIf .blockEnd) then return []
    else refuse

/-- The elements of a sequence between brackets. A marked key among them is a mapping of its own. -/
def flowItems (handles : Handles) : Nat → Bool → Reader (List Nat)
  | 0, _ => refuse
  | fuel + 1, isFirst => do
    if (← skipIf .closeSequence) then return []
    else
      unless isFirst do
        unless (← skipIf .comma) do refuse
      if (← skipIf .key) then
        let n ← enclose none do
          let k ← readUnless handles fuel [.value, .comma, .closeSequence] .flow
          let v ← readValue handles fuel [.comma, .closeSequence] .flow
          return .mapping .mapping [(k, v)]
        return n :: (← flowItems handles fuel false)
      else if (← skipIf .closeSequence) then return []
      else
        let n ← read handles fuel .flow
        return n :: (← flowItems handles fuel false)

/-- The entries of a mapping between brackets. -/
def flowPairs (handles : Handles) : Nat → Bool → Reader (List (Nat × Nat))
  | 0, _ => refuse
  | fuel + 1, isFirst => do
    if (← skipIf .closeMapping) then return []
    else
      unless isFirst do
        unless (← skipIf .comma) do refuse
      if (← skipIf .key) then
        let k ← readUnless handles fuel [.value, .comma, .closeMapping] .flow
        let v ← readValue handles fuel [.comma, .closeMapping] .flow
        return (k, v) :: (← flowPairs handles fuel false)
      else if (← skipIf .closeMapping) then return []
      else
        let k ← read handles fuel .flow
        let v ← add none absent
        return (k, v) :: (← flowPairs handles fuel false)

end

/-! ## Documents -/

/-- The handles that need no directive. -/
def standardHandles : Handles := [("!", "!"), ("!!", Tag.standard)]

/-- The handles that directives explain. Only one directive may name the version, which has to be
one. -/
def directives (hasVersion : Bool) (handles : Handles) :
    List Token → Except (Option Fault) (Handles × List Token)
  | .directive (.version major _) :: ts =>
    if hasVersion ∨ major ≠ 1 then .error (some .form) else directives true handles ts
  | .directive (.handle name start) :: ts =>
    if (handles.lookup name).isSome then .error (some .form)
    else directives hasVersion ((name, start) :: handles) ts
  | .directive .other :: ts => directives hasVersion handles ts
  | ts => .ok (handles, ts)

/-- Whether a document without content ends in front of a token. -/
def endsDocument : Option Token → Bool
  | none | some (.directive _) | some .documentStart | some .documentEnd => true
  | _ => false

/-- The nodes of a document, and the number of the one that contains the others. -/
structure Graph where
  nodes : Nodes
  root : Nat

/-- The nodes at the beginning of some tokens, and the tokens behind them. -/
def graph (handles : Handles) (ts : List Token) : Except (Option Fault) (Graph × List Token) := do
  let (root, p) ← (read handles (4 * ts.length + 4) .block).run ⟨ts, #[], []⟩
  return (⟨p.nodes, root⟩, p.tokens)

/-- The nodes of the only document, if there is one. -/
def ofTokens? (ts : List Token) : Except (Option Fault) (Option Graph) := do
  match ts with
  | [] => return none
  | t :: _ =>
    let (g, rest) ←
      if endsDocument (some t) ∧ t ≠ .documentEnd then
        match (← directives false [] ts) with
        | (handles, .documentStart :: ts) =>
          if endsDocument ts.head? then pure (⟨#[absent], 0⟩, ts)
          else graph (handles ++ standardHandles) ts
        | (_, .fault f? :: _) => .error f?
        | _ => .error (some .form)
      else graph standardHandles ts
    match rest.dropWhile (· == .documentEnd) with
    | [] => return some g
    | .fault f? :: _ => .error f?
    | _ => .error (some .form)

end Node
end MemberHarvest.Yaml
