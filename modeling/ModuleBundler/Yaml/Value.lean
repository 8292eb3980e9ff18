import ModuleBundler.Yaml.Key
import ModuleBundler.Yaml.Members
import ModuleBundler.Yaml.Node
import ModuleBundler.Yaml.Scalar

/-! The value of a document. Values of containers are made after the values of what
holds them, so that a document may hold itself; merges are resolved first. The
first thing found wrong in this order decides the failure. -/
namespace ModuleBundler.Yaml

open Settings

/-- What has been made of a node; containers refer to the nodes inside them. -/
inductive Part where
  | leaf (key : Key)
  | list (items : List NodeId)
  | pairs (items : List (NodeId × NodeId))
  | set (members : List Key)
  | mapping (entries : List (Key × NodeId))

structure Builder where
  nodes : Array Node
  parts : Array (Option Part)
  /-- Containers whose content is still to be made, last one first. -/
  pending : List NodeId

namespace Builder

abbrev Build := StateT Builder (Except Failure)

def fail {α : Type} (cause : Flaw) : Build α := throw (.flaw cause)

def node (id : NodeId) : Build Node := do
  match (← get).nodes[id]? with
  | some n => return n
  | none => fail .nodeExpected

def part? (id : NodeId) : Build (Option Part) := do
  return (← get).parts[id]?.join

def setPart (id : NodeId) (part : Part) : Build Unit :=
  modify fun b => { b with parts := b.parts.modify id fun _ => some part }

def changeNode (id : NodeId) (change : Node → Node) : Build Unit :=
  modify fun b => { b with nodes := b.nodes.modify id change }

/-- Begins an empty container, to be filled later. -/
def openContainer (id : NodeId) (part : Part) : Build Unit := do
  setPart id part
  modify fun b => { b with pending := id :: b.pending }

/-- The text of a node: its own, or that of the value under an equals sign. -/
def scalarText : Nat → NodeId → Build String
  | 0, _ => fail .tooDeep
  | fuel + 1, id => do
    match (← node id).content with
    | .scalar text => return text
    | .sequence _ => fail .scalarExpected
    | .mapping entries =>
      let isDefault (e : NodeId × NodeId) : Build Bool := return (← node e.1).tag == .value
      match ← entries.findM? isDefault with
      | some (_, value) => scalarText fuel value
      | none => fail .scalarExpected

/-- Makes the value of a node, unless that has been done. The name of the value that is no number
stands for one and the same, wherever it is written. -/
def make (id : NodeId) : Build Unit := do
  if (← part? id).isSome then return ()
  match (← node id).tag with
  | .sequence => openContainer id (.list [])
  | .ordered | .pairs => openContainer id (.pairs [])
  | .set => openContainer id (.set [])
  | .mapping => openContainer id (.mapping [])
  | .merge => fail (.unknownTag (Tag.commonFront ++ "merge"))
  | .value => fail (.unknownTag (Tag.commonFront ++ "value"))
  | .other name => fail (.unknownTag name)
  | tag =>
    let text ← scalarText ((← get).nodes.size + 1) id
    if tag = .timestamp ∧ !(← node id).content.isScalar then throw (.scalar .timestampOfMapping)
    match Scalar.read? tag text with
    | some (.ok value) =>
      setPart id (.leaf ⟨value, if Scalar.isNoNumber text then none else some id⟩)
    | some (.error cause) => throw cause
    | none => fail .scalarExpected

/-- Makes the value of a node that serves as a key. -/
def makeKey (id : NodeId) : Build Key := do
  make id
  match ← part? id with
  | some (.leaf key) => return key
  | _ => fail .containerAsKey

def entriesOf (id : NodeId) : Build (List (NodeId × NodeId)) := do
  match (← node id).content with
  | .mapping entries => return entries
  | _ => fail .mappingExpected

def setEntries (id : NodeId) (entries : List (NodeId × NodeId)) : Build Unit :=
  changeNode id fun n => { n with content := .mapping entries }

/-- Entries that a merge key brings in: those of one mapping, or of several with the last first. -/
def mergedFrom (flatten : NodeId → Build Unit) (source : NodeId) :
    Build (List (NodeId × NodeId)) := do
  match (← node source).content with
  | .mapping _ =>
    flatten source
    entriesOf source
  | .sequence items =>
    let found ← items.mapM fun item => do
      let _ ← entriesOf item
      flatten item
      entriesOf item
    return found.reverse.flatten
  | .scalar _ => fail .mappingExpected

/-- Goes through the entries of a mapping, of which `ahead` are left behind the first `place`: takes
out merge keys and collects what they bring in, and makes a text of a key that is an equals sign.
What a merge key brings in may change the mapping itself. -/
def resolveMerges (flatten : NodeId → Build Unit) (id : NodeId) :
    Nat → Nat → List (NodeId × NodeId) → List (NodeId × NodeId) → Build (List (NodeId × NodeId))
  | 0, _, _, _ => fail .tooDeep
  | _, _, [], merged => return merged
  | fuel + 1, place, (key, source) :: ahead, merged => do
    match (← node key).tag with
    | .merge =>
      setEntries id ((← entriesOf id).eraseIdx place)
      let more ← mergedFrom flatten source
      resolveMerges flatten id fuel place ((← entriesOf id).drop place) (merged ++ more)
    | .value =>
      changeNode key fun n => { n with tag := .text }
      resolveMerges flatten id fuel (place + 1) ahead merged
    | _ => resolveMerges flatten id fuel (place + 1) ahead merged

/-- The number of entries in all mappings. -/
def entryCount (b : Builder) : Nat :=
  b.nodes.foldl (fun sum n => sum + match n.content with
    | .mapping entries => entries.length
    | _ => 0) 0

/-- Puts the entries that merge keys bring in before the others of a mapping. -/
def flatten : Nat → NodeId → Build Unit
  | 0, _ => fail .tooDeep
  | fuel + 1, id => do
    let entries ← entriesOf id
    let merged ← resolveMerges (flatten fuel) id (2 * (← get).entryCount + 1) 0 entries []
    if !merged.isEmpty then setEntries id (merged ++ (← entriesOf id))

/-- Keys and values of a mapping, made one after the other. -/
def makeEntries (id : NodeId) : Build (List (Key × NodeId)) := do
  let _ ← entriesOf id
  flatten ((← get).entryCount + 1) id
  (← entriesOf id).foldlM (fun made (key, value) => do
    let k ← makeKey key
    make value
    return putKey k value made) []

def itemsOf (id : NodeId) : Build (List NodeId) := do
  match (← node id).content with
  | .sequence items => return items
  | _ => fail .sequenceExpected

/-- Makes the content of a container. -/
def fillContainer (id : NodeId) : Build Unit := do
  match ← part? id with
  | some (.list _) =>
    let items ← itemsOf id
    items.forM make
    setPart id (.list items)
  | some (.pairs _) =>
    let made ← (← itemsOf id).mapM fun item => do
      match ← entriesOf item with
      | [(key, value)] =>
        make key
        make value
        return (key, value)
      | _ => fail .singleEntryExpected
    setPart id (.pairs made)
  | some (.set _) => setPart id (.set (Members.inOrder ((← makeEntries id).map Prod.fst)))
  | some (.mapping _) => setPart id (.mapping (← makeEntries id))
  | _ => return ()

/-- Fills containers in rounds, each of those that the round before has begun. -/
def fillAll : Nat → Build Unit
  | 0 => return ()
  | fuel + 1 => do
    let round := (← get).pending.reverse
    if round.isEmpty then return ()
    modify fun b => { b with pending := [] }
    round.forM fillContainer
    fillAll fuel

end Builder

/-- Values of nodes that do not depend on where they are referred to. -/
abbrev Shared := Array (Option Value)

/-- The value of a node below the nodes `above`, and whether it refers back to one of them. -/
def expand (parts : Array (Option Part)) :
    Nat → List NodeId → NodeId → StateM Shared (Value × Bool)
  | 0, _, _ => return (.null, false)
  | fuel + 1, above, id => do
    if let some value := (← get)[id]?.join then return (value, false)
    let below := expand parts fuel (id :: above)
    let (container, made) : Container × StateM Shared (Value × Bool) :=
      match parts[id]?.join with
      | none => (.list, return (.null, false))
      | some (.leaf key) => (.list, return (key.value, false))
      | some (.set members) => (.set, return (.set (members.map (·.value)), false))
      | some (.list items) => (.list, do
        let found ← items.mapM below
        return (.list (found.map Prod.fst), found.any Prod.snd))
      | some (.pairs items) => (.list, do
        let found ← items.mapM fun (key, value) => do
          let (k, backInKey) ← below key
          let (v, backInValue) ← below value
          return (Value.pair k v, backInKey || backInValue)
        return (.list (found.map Prod.fst), found.any Prod.snd))
      | some (.mapping entries) => (.mapping, do
        let found ← entries.mapM fun (key, value) => do
          let (v, back) ← below value
          return ((key.value, v), back)
        return (.mapping (found.map Prod.fst), found.any Prod.snd))
    if above.contains id then return (.back container, true)
    let (value, back) ← made
    if !back then modify fun shared => shared.modify id fun _ => some value
    return (value, back)

/-- The value of a root. What its entries hold is shown by itself, so that the root may be found
again inside it. -/
def expandRoot (parts : Array (Option Part)) (root : NodeId) : StateM Shared Value := do
  let value (id : NodeId) : StateM Shared Value := Prod.fst <$> expand parts (parts.size + 1) [] id
  match parts[root]?.join with
  | some (.mapping entries) =>
    return .mapping (← entries.mapM fun (key, id) => return (key.value, ← value id))
  | _ => value root

/-- The value of a document. -/
def Document.value (d : Document) : Except Failure Value := do
  let count := d.nodes.size
  let start : Builder := ⟨d.nodes, Array.replicate count none, []⟩
  let ((), b) ← (do
    Builder.make d.root
    Builder.fillAll (count + 1)).run start
  return ((expandRoot b.parts d.root).run (Array.replicate count none)).1

/-- The value that a text holds; an empty text holds none. -/
def valueOf (input : Input) : Except Failure Value := do
  match ← Document.ofInput? input with
  | none => return .null
  | some document => document.value

end ModuleBundler.Yaml
