import ModuleBundler.Yaml.Stream
import ModuleBundler.Yaml.Tag

/-! Nodes of a document. A node can be referred to from more than one place, even
from inside itself, so nodes are kept in an array and refer to each other by
position. Reading the tokens of a text gives the root, if the text has one. -/
namespace ModuleBundler.Yaml

abbrev NodeId := Nat

inductive Content where
  | scalar (text : String)
  | sequence (items : List NodeId)
  | mapping (entries : List (NodeId × NodeId))

def Content.isScalar : Content → Bool
  | .scalar _ => true
  | _ => false

structure Node where
  tag : Tag
  content : Content

/-- The nodes of a document and the one that holds it all. -/
structure Document where
  nodes : Array Node
  root : NodeId

/-- A reading of tokens under way. -/
structure Composer where
  tokens : List Token
  nodes : Array Node
  anchors : List (String × NodeId)
  /-- What the handles of tags stand for. -/
  handles : List (String × String)
  /-- The number of collections around what is read. -/
  depth : Nat

namespace Composer

abbrev Compose := StateT Composer (Except Failure)

def fail {α : Type} (cause : Flaw) : Compose α := throw (.flaw cause)

/-- The token ahead; where the text could not be read, reading tokens fails too. -/
def ahead : Compose Token := do
  match (← get).tokens with
  | .broken cause :: _ => throw cause
  | t :: _ => return t
  | [] => return .streamEnd

def pass : Compose Unit := modify fun c => { c with tokens := c.tokens.drop 1 }

def add (node : Node) : Compose NodeId := do
  let id := (← get).nodes.size
  modify fun c => { c with nodes := c.nodes.push node }
  return id

def fill (id : NodeId) (content : Content) : Compose Unit :=
  modify fun c => { c with nodes := c.nodes.modify id fun n => { n with content := content } }

/-- The greatest number of collections that lie within each other. -/
def nestingLimit : Nat := 488

/-- What is read inside one more collection. -/
def within {α : Type} (read : Compose α) : Compose α := do
  modify fun c => { c with depth := c.depth + 1 }
  if (← get).depth > nestingLimit then throw .nestedTooDeep
  let found ← read
  modify fun c => { c with depth := c.depth - 1 }
  return found

/-- The node that stands where none is written. -/
def emptyNode : Compose NodeId := add ⟨.null, .scalar ""⟩

/-- Anchor and tag of a node, as far as it has them. -/
structure Properties where
  anchor : Option String
  tag : Option TagText

/-- The properties at the front, in either order. -/
def properties : Compose Properties := do
  match ← ahead with
  | .anchor name =>
    pass
    match ← ahead with
    | .tag tag =>
      pass
      return ⟨some name, some tag⟩
    | _ => return ⟨some name, none⟩
  | .tag tag =>
    pass
    match ← ahead with
    | .anchor name =>
      pass
      return ⟨some name, some tag⟩
    | _ => return ⟨none, some tag⟩
  | _ => return ⟨none, none⟩

/-- The full name of a tag. A lone exclamation mark is as good as no tag but makes every scalar
plain. -/
def tagName? : Option TagText → Compose (Option String)
  | none => return none
  | some ⟨none, suffix⟩ => return some suffix
  | some ⟨some handle, suffix⟩ => do
    match (← get).handles.lookup handle with
    | some front => return some (front ++ suffix)
    | none => fail (.unknownHandle handle)

/-- The tag of a scalar. -/
def scalarTag (name : Option String) (plain : Bool) (text : String) : Tag :=
  match name with
  | some "!" => .ofPlain text
  | some name => .ofName name
  | none => if plain then .ofPlain text else .text

/-- The tag of a collection. -/
def collectionTag (name : Option String) (usual : Tag) : Tag :=
  match name with
  | none | some "!" => usual
  | some name => .ofName name

/-- Adds a node under the anchor that it may have. -/
def addAnchored (anchor : Option String) (node : Node) : Compose NodeId := do
  let id ← add node
  match anchor with
  | none => return id
  | some name =>
    modify fun c => { c with anchors := (name, id) :: c.anchors }
    return id

def refuseRepeated (anchor : Option String) : Compose Unit := do
  if let some name := anchor then
    if ((← get).anchors.lookup name).isSome then fail (.repeatedAnchor name)

/-- Where a node stands, which decides what it can be. -/
inductive Place where
  | bracketed
  | block
  /-- A key or value of a block mapping, whose items need no indentation. -/
  | entry
  deriving DecidableEq

/-- Whether nothing is written before a token that ends an entry of a block mapping. -/
def endsBlockEntry : Token → Bool
  | .key | .value | .blockEnd => true
  | _ => false

def endsItem : Token → Bool
  | .item | .blockEnd => true
  | _ => false

def endsPair : Token → Bool
  | .value | .comma | .sequenceEnd => true
  | _ => false

def endsPairValue : Token → Bool
  | .comma | .sequenceEnd => true
  | _ => false

def endsBracketedKey : Token → Bool
  | .value | .comma | .mappingEnd => true
  | _ => false

def endsBracketedValue : Token → Bool
  | .comma | .mappingEnd => true
  | _ => false

mutual

/-- A node; `fuel` bounds how deeply and how long tokens are followed. -/
def node : Nat → Place → Compose NodeId
  | 0, _ => fail .tooDeep
  | fuel + 1, place => do
    match ← ahead with
    | .alias name =>
      pass
      match (← get).anchors.lookup name with
      | some id => return id
      | none => fail (.unknownAnchor name)
    | _ =>
      let p ← properties
      let name ← tagName? p.tag
      let first ← ahead
      refuseRepeated p.anchor
      let sequence := addAnchored p.anchor ⟨collectionTag name .sequence, .sequence []⟩
      let mapping := addAnchored p.anchor ⟨collectionTag name .mapping, .mapping []⟩
      match first with
      | .scalar text plain =>
        pass
        addAnchored p.anchor ⟨scalarTag name plain text, .scalar text⟩
      | .item =>
        if place = .entry then
          let id ← sequence
          fill id (.sequence (← within (looseItems fuel)))
          return id
        else absent p name
      | .sequenceStart =>
        pass
        let id ← sequence
        fill id (.sequence (← within (bracketedItems fuel true)))
        return id
      | .mappingStart =>
        pass
        let id ← mapping
        fill id (.mapping (← within (bracketedEntries fuel true)))
        return id
      | .blockSequenceStart =>
        if place = .bracketed then absent p name
        else
          pass
          let id ← sequence
          fill id (.sequence (← within (items fuel)))
          return id
      | .blockMappingStart =>
        if place = .bracketed then absent p name
        else
          pass
          let id ← mapping
          fill id (.mapping (← within (entries fuel)))
          return id
      | _ => absent p name

/-- No text where a node should stand: allowed after a tag or an anchor. -/
def absent (p : Properties) (name : Option String) : Compose NodeId :=
  if p.anchor.isNone && p.tag.isNone then fail .nodeExpected
  else addAnchored p.anchor ⟨scalarTag name true "", .scalar ""⟩

/-- A node, or an empty one if a token comes that ends its place. -/
def nodeUnless (ends : Token → Bool) : Nat → Place → Compose NodeId
  | 0, _ => fail .tooDeep
  | fuel + 1, place => do
    if ends (← ahead) then emptyNode else node fuel place

/-- Items of a block sequence and its end. -/
def items : Nat → Compose (List NodeId)
  | 0 => fail .tooDeep
  | fuel + 1 => do
    match ← ahead with
    | .item =>
      pass
      let first ← nodeUnless endsItem fuel .block
      return first :: (← items fuel)
    | .blockEnd =>
      pass
      return []
    | _ => fail .blockEndExpected

/-- Items of a sequence that stands as deep as the mapping around it. -/
def looseItems : Nat → Compose (List NodeId)
  | 0 => fail .tooDeep
  | fuel + 1 => do
    match ← ahead with
    | .item =>
      pass
      let first ← nodeUnless (fun t => endsItem t || endsBlockEntry t) fuel .block
      return first :: (← looseItems fuel)
    | _ => return []

/-- The value of a block mapping's key, if one is given. -/
def entryValue : Nat → Compose NodeId
  | 0 => fail .tooDeep
  | fuel + 1 => do
    match ← ahead with
    | .value =>
      pass
      nodeUnless endsBlockEntry fuel .entry
    | _ => emptyNode

/-- Entries of a block mapping and its end. -/
def entries : Nat → Compose (List (NodeId × NodeId))
  | 0 => fail .tooDeep
  | fuel + 1 => do
    match ← ahead with
    | .key =>
      pass
      let key ← nodeUnless endsBlockEntry fuel .entry
      let value ← entryValue fuel
      return (key, value) :: (← entries fuel)
    | .blockEnd =>
      pass
      return []
    | _ => fail .blockEndExpected

/-- The comma before every item but the first. -/
def separator (isFirst : Bool) (refusal : Flaw) : Compose Unit := do
  if !isFirst then
    match ← ahead with
    | .comma => pass
    | _ => fail refusal

/-- A mapping of one entry, written as an item of a bracketed sequence. -/
def pair : Nat → Compose NodeId
  | 0 => fail .tooDeep
  | fuel + 1 => do
    let id ← add ⟨.mapping, .mapping []⟩
    let entry ← within do
      let key ← nodeUnless endsPair fuel .bracketed
      match ← ahead with
      | .value =>
        pass
        return (key, ← nodeUnless endsPairValue fuel .bracketed)
      | _ => return (key, ← emptyNode)
    fill id (.mapping [entry])
    return id

/-- Items of a bracketed sequence and its end. -/
def bracketedItems : Nat → Bool → Compose (List NodeId)
  | 0, _ => fail .tooDeep
  | fuel + 1, isFirst => do
    match ← ahead with
    | .sequenceEnd =>
      pass
      return []
    | _ =>
      separator isFirst .sequenceEndExpected
      match ← ahead with
      | .key =>
        pass
        let first ← pair fuel
        return first :: (← bracketedItems fuel false)
      | .sequenceEnd =>
        pass
        return []
      | _ =>
        let first ← node fuel .bracketed
        return first :: (← bracketedItems fuel false)

/-- Entries of a bracketed mapping and its end. -/
def bracketedEntries : Nat → Bool → Compose (List (NodeId × NodeId))
  | 0, _ => fail .tooDeep
  | fuel + 1, isFirst => do
    match ← ahead with
    | .mappingEnd =>
      pass
      return []
    | _ =>
      separator isFirst .mappingEndExpected
      match ← ahead with
      | .key =>
        pass
        let key ← nodeUnless endsBracketedKey fuel .bracketed
        let value ← match ← ahead with
          | .value => do
            pass
            nodeUnless endsBracketedValue fuel .bracketed
          | _ => emptyNode
        return (key, value) :: (← bracketedEntries fuel false)
      | .mappingEnd =>
        pass
        return []
      | _ =>
        let key ← node fuel .bracketed
        let value ← emptyNode
        return (key, value) :: (← bracketedEntries fuel false)

end

/-- The handles that every document has. -/
def commonHandles : List (String × String) := [("!", "!"), ("!!", Tag.commonFront)]

/-- The directives before a document: at most one version, and each handle once. -/
def directives : Nat → Bool → List (String × String) → Compose Unit
  | 0, _, _ => fail .tooDeep
  | fuel + 1, versionGiven, handles => do
    match ← ahead with
    | .directive d =>
      pass
      match d with
      | .version major =>
        if versionGiven then fail .repeatedDirective
        if major ≠ 1 then fail .otherVersion
        directives fuel true handles
      | .handle name shorthand =>
        if (handles.lookup name).isSome then fail .repeatedDirective
        directives fuel versionGiven ((name, shorthand) :: handles)
      | .other => directives fuel versionGiven handles
    | _ => modify fun c => { c with handles := handles ++ commonHandles }

/-- Passes any number of document ends. -/
def passEnds : Nat → Compose Unit
  | 0 => fail .tooDeep
  | fuel + 1 => do
    match ← ahead with
    | .documentEnd =>
      pass
      passEnds fuel
    | _ => return ()

/-- What follows a document: ends of it, and no other. -/
def finish (fuel : Nat) : Compose Unit := do
  passEnds fuel
  match ← ahead with
  | .streamEnd => return ()
  | _ =>
    directives fuel false []
    match ← ahead with
    | .documentStart => fail .secondDocument
    | _ => fail .documentStartExpected

def endsDocument : Token → Bool
  | .directive _ | .documentStart | .documentEnd | .streamEnd => true
  | _ => false

/-- The root of the only document, if there is one. The first document needs no start. -/
def root (fuel : Nat) : Compose (Option NodeId) := do
  match ← ahead with
  | .streamEnd => return none
  | .directive _ | .documentStart =>
    directives fuel false []
    match ← ahead with
    | .documentStart => pass
    | _ => fail .documentStartExpected
    let id ← nodeUnless endsDocument fuel .block
    finish fuel
    return some id
  | _ =>
    let id ← node fuel .block
    finish fuel
    return some id

end Composer

/-- The document that a text holds, if it is not empty. -/
def Document.ofInput? (input : Input) : Except Failure (Option Document) := do
  let found := tokens input
  let start : Composer := ⟨found, #[], [], Composer.commonHandles, 0⟩
  let (root, c) ← (Composer.root (4 * found.length + 4)).run start
  return root.map fun id => ⟨c.nodes, id⟩

end ModuleBundler.Yaml
