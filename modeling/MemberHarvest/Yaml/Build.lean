import MemberHarvest.Settings.Value
import MemberHarvest.Text.Base64
import MemberHarvest.Yaml.Node

/-!
# Yaml/Build — from the nodes of a document to its value

A mapping may take in the entries of other mappings with a merge key; its own entries come last, and
of the merged ones those of the first mapping. Of two equal keys the first gives the place and the
last the value, and numbers are equal as keys when they are equal as numbers.

Of several faults the first one counts, and nodes are looked at level by level: scalars as soon as
they are met, and what is inside a node behind everything that was met before it. A node may lie
inside itself. There a mark stands for its value, as far as the value is shown.
-/

namespace MemberHarvest.Yaml

open Settings (Value)

/-! ## Keys -/

/-- The number that a key counts as. -/
def numberOf? : Value → Option Int
  | .truth b => some (if b then 1 else 0)
  | .integer i => some i
  | .float x => x.toInt?
  | _ => none

/-- Whether two keys are the same. -/
def isSameKey (a b : Value) : Bool :=
  match numberOf? a, numberOf? b with
  | some i, some j => i == j
  | none, none =>
    match a, b with
    | .null, .null => true
    | .float x, .float y => x == y
    | .date d, .date e => d == e
    | .moment m, .moment n => m == n
    | .text s, .text t => s == t
    | .bytes s, .bytes t => s == t
    | _, _ => false
  | _, _ => false

/-- Put a value under a key; a known key keeps its place. -/
def put (entries : List (Value × Value)) (e : Value × Value) : List (Value × Value) :=
  if entries.any (fun f => isSameKey f.1 e.1) then
    entries.map fun f => if isSameKey f.1 e.1 then (f.1, e.2) else f
  else entries ++ [e]

/-- Entries without repeated keys. -/
def collect (entries : List (Value × Value)) : List (Value × Value) := entries.foldl put []

/-! ## Scalars -/

/-- A scalar whose value may be missing. -/
def ofCause {α : Type} (r : Except ScalarCause α) : Except Fault α := r.mapError .scalar

/-- The value of a truth word, capitals and small letters alike. -/
def truth (s : String) : Except ScalarCause Bool :=
  let small := String.ofList (s.toList.map Char.toLower)
  match Tag.truths.lookup small with
  | some b => .ok b
  | none => .error (.notTruth small)

/-- The bytes of a scalar. -/
def binary (s : String) : Except Fault Text.Bytes :=
  match if s.toList.all (fun c => c.toNat < 128) then Text.Base64.decode? s.toList else none with
  | some bytes => .ok bytes
  | none => .error .form

/-- The value of a scalar under its tag. -/
def scalarValue (tag : Tag) (s : String) : Except Fault Value :=
  match tag with
  | .null => .ok .null
  | .truth => (ofCause (truth s)).map .truth
  | .integer => (ofCause (Numeral.integer s.toList)).map .integer
  | .float => (ofCause (Numeral.float s.toList)).map .float
  | .binary => (binary s).map .bytes
  | .timestamp => ofCause (Timestamp.value s.toList)
  | .text => .ok (.text s)
  | _ => .error .form

/-- The tags of scalars. -/
def Tag.scalars : List Tag := [.null, .truth, .integer, .float, .binary, .timestamp, .text]

/-- The text that a node stands for as a scalar: a mapping may name it under its value key, but not
by way of itself. -/
def scalarText (nodes : Nodes) : Nat → Node → Except Fault String
  | 0, _ => .error (.scalar .endless)
  | fuel + 1, n =>
    match n with
    | .scalar _ s => .ok s
    | .sequence _ _ => .error .form
    | .mapping _ entries =>
      match entries.find? fun e => (nodes.getD e.1 .absent).tag == .value with
      | some e => scalarText nodes fuel (nodes.getD e.2 .absent)
      | none => .error .form

/-- The value of a node that contains no others. -/
def plainValue (nodes : Nodes) (n : Node) : Except Fault Value :=
  if Tag.scalars.contains n.tag then do scalarValue n.tag (← scalarText nodes (nodes.size + 1) n)
  else .error .form

/-! ## Looking at nodes -/

/-- Whether a tag is that of a node with content. -/
def Tag.isContainer : Tag → Bool
  | .sequence | .pairs | .mapping | .set => true
  | _ => false

/-- Where looking at nodes stands: the nodes, whose entries may change on the way, those that have
been met, and those whose content is still to be looked at, in this order. -/
structure Look where
  nodes : Nodes
  met : List Nat
  waiting : List Nat

/-- Steps of looking at nodes. -/
abbrev Looker := StateT Look (Except Fault)

namespace Looker

/-- Stop at a fault. -/
def stop {α : Type} (f : Fault) : Looker α := fun _ => .error f

/-- The node of a number. -/
def node (i : Nat) : Looker Node := return (← get).nodes.getD i .absent

/-- Change the node of a number. -/
def change (i : Nat) (f : Node → Node) : Looker Unit :=
  modify fun l => { l with nodes := l.nodes.modify i f }

/-- The entries of a mapping. -/
def entries (i : Nat) : Looker (List (Nat × Nat)) := do
  match (← node i) with
  | .mapping _ entries => return entries
  | _ => stop .form

end Looker

/-! ## Merge keys -/

namespace Node

/-- A mapping with other entries. -/
def withEntries (entries : List (Nat × Nat)) : Node → Node
  | .mapping t _ => .mapping t entries
  | n => n

/-- A value key is a text, where its mapping is not read as a scalar. -/
def asKey : Node → Node
  | .scalar .value text => .scalar .text text
  | .sequence .value items => .sequence .text items
  | .mapping .value entries => .mapping .text entries
  | n => n

end Node

namespace Looker

/-- Take the first merge key out of a mapping. -/
def takeMerge (i : Nat) : Looker (Option Nat) := do
  let nodes := (← get).nodes
  let isMerge (e : Nat × Nat) := (nodes.getD e.1 .absent).tag == .merge
  let held ← entries i
  match held.dropWhile (!isMerge ·) with
  | [] => return none
  | (_, source) :: behind =>
    change i (.withEntries (held.takeWhile (!isMerge ·) ++ behind))
    return some source

/-- Have a mapping take in the entries of others behind those that are `taken`. A merge key is taken
out before what it takes in is looked at, so that there is one fewer of them at every step. -/
def flatten : Nat → List (Nat × Nat) → Nat → Looker Unit
  | 0, _, _ => stop .form
  | fuel + 1, taken, i => do
    match (← takeMerge i) with
    | none =>
      let own ← entries i
      own.forM fun e => change e.1 .asKey
      change i (.withEntries (taken ++ own))
    | some source =>
      let more ←
        match (← node source) with
        | .scalar _ _ => stop .form
        | .mapping _ _ => do
          flatten fuel [] source
          entries source
        | .sequence _ items => do
          let each ← items.mapM fun j => do
            let _ ← entries j
            flatten fuel [] j
            entries j
          pure each.reverse.flatten
      flatten fuel (taken ++ more) i

/-- Have a mapping take in the entries under all its merge keys. -/
def flattenAll (i : Nat) : Looker Unit := do
  let sizes := (← get).nodes.toList.map fun
    | .mapping _ entries => entries.length
    | _ => 0
  flatten (sizes.foldr (· + ·) 1) [] i

end Looker

/-! ## Meeting nodes -/

namespace Looker

/-- Meet a node. A node with content waits for its turn, and any other one has to have a value. -/
def meet (i : Nat) : Looker Unit := do
  let l ← get
  let n ← node i
  if l.met.contains i then return
  else if n.tag.isContainer then set { l with met := i :: l.met, waiting := l.waiting ++ [i] }
  else
    let _ ← (plainValue l.nodes n : Except Fault Value)
    set { l with met := i :: l.met }

/-- Meet the key and the value of an entry. No node with content is a key. -/
def meetEntry (e : Nat × Nat) : Looker Unit := do
  meet e.1
  if (← node e.1).tag.isContainer then stop .form
  meet e.2

/-- Meet the key and the value of a pair, a mapping with one entry. -/
def meetPair (i : Nat) : Looker Unit := do
  match (← entries i) with
  | [(k, v)] =>
    meet k
    meet v
  | _ => stop .form

/-- Meet the nodes inside a node. -/
def meetContent (i : Nat) : Looker Unit := do
  match (← node i) with
  | .sequence .sequence items => items.forM meet
  | .sequence .pairs items => items.forM meetPair
  | .mapping .mapping _ | .mapping .set _ =>
    flattenAll i
    (← entries i).forM meetEntry
  | _ => stop .form

/-- Meet the nodes inside all nodes that wait. -/
def meetAll : Nat → Looker Unit
  | 0 => return
  | fuel + 1 => do
    match (← get).waiting with
    | [] => return
    | i :: rest =>
      modify fun l => { l with waiting := rest }
      meetContent i
      meetAll fuel

end Looker

/-! ## Values -/

/-- What is open around a value that is shown: nodes with content, and pairs of such a node. The
outermost levels are not shown themselves. -/
structure Around where
  hidden : Nat
  opened : List (Nat × Option Nat)

/-- Go inside a node or a pair. -/
def Around.enter (a : Around) (i : Nat × Option Nat) : Around :=
  match a.hidden with
  | 0 => ⟨0, i :: a.opened⟩
  | k + 1 => ⟨k, a.opened⟩

/-- The value of a node, in which no node that is open is opened again. -/
def valueOf (nodes : Nodes) : Nat → Around → Nat → Except Fault Value
  | 0, _, _ => .error .form
  | fuel + 1, around, i =>
    let n := nodes.getD i .absent
    let around' := around.enter (i, none)
    let inside := valueOf nodes fuel around'
    if around.opened.contains (i, none) then
      .ok (if n.tag == .mapping then .again '\x7b' '\x7d' else .again '[' ']')
    else
      match n with
      | .sequence .sequence items => .list <$> items.mapM inside
      | .sequence .pairs items =>
        .list <$> items.zipIdx.mapM fun (j, k) =>
          if around'.opened.contains (i, some k) then .ok (.again '(' ')')
          else
            let part := valueOf nodes fuel (around'.enter (i, some k))
            match nodes.getD j .absent with
            | .mapping _ [(key, value)] => return .pair (← part key) (← part value)
            | _ => .error .form
      | .mapping .mapping entries => do
        let held ← entries.mapM fun e => return (← inside e.1, ← inside e.2)
        return .mapping (collect held)
      | .mapping .set entries => do
        let held ← entries.mapM fun e => return (← inside e.1, .null)
        return .set ((collect held).map (·.1))
      | n => plainValue nodes n

/-- **The value of a document.** It is that of the settings, which are not shown, and neither are
their fields. -/
def Node.Graph.value (g : Node.Graph) : Except Fault Value := do
  let (_, l) ← (do Looker.meet g.root; Looker.meetAll (g.nodes.size + 1)).run ⟨g.nodes, [], []⟩
  valueOf l.nodes (g.nodes.size + 4) ⟨2, []⟩ g.root

end MemberHarvest.Yaml
