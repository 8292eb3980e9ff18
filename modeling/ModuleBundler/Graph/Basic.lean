import ModuleBundler.Cancellation
import ModuleBundler.Json.Basic
import ModuleBundler.Ordered.Set
import ModuleBundler.Ordered.Table

/-! The graph of modules and their dependencies. Four tables keep it: the modules
themselves, the dependencies and the dependents of each, and the entry points.
Every table remembers the order of insertion, which is the order that searches
follow. Cycles are allowed. A failing operation leaves the graph as it was. -/
namespace ModuleBundler

/-- What is known of one module. -/
structure Module where
  id : String
  metadata : Table String Json
  isEntry : Bool
  /-- When it was added, in seconds. -/
  timestamp : Float

structure Graph where
  nodes : Table String Module
  outgoing : Table String (OrderedSet String)
  incoming : Table String (OrderedSet String)
  entries : OrderedSet String

namespace Graph

/-- Why a graph operation did not come to its end. -/
inductive Error where
  | duplicate (id : String)
  | unknown (id : String)
  /-- An adjacency table has no row for a module. Consistent graphs never give this. -/
  | rowMissing (id : String)
  | interrupted (stop : Cancellation.Interruption)

def empty : Graph := ⟨∅, ∅, ∅, ∅⟩

instance : Inhabited Graph := ⟨empty⟩

def size (g : Graph) : Nat := g.nodes.size

def contains (g : Graph) (id : String) : Bool := g.nodes.contains id

def moduleIds (g : Graph) : List String := g.nodes.keys

def entryPoints (g : Graph) : List String := g.entries.toList

/-- The module of an id, or the complaint that there is none. -/
def require (g : Graph) (id : String) : Except Error Module :=
  match g.nodes.get? id with
  | some found => .ok found
  | none => .error (.unknown id)

/-- Adds a module without edges. -/
def addModule (g : Graph) (id : String) (metadata : Table String Json) (isEntry : Bool)
    (timestamp : Float) : Except Error Graph :=
  if g.contains id then .error (.duplicate id)
  else .ok {
    nodes := g.nodes.insert id ⟨id, metadata, isEntry, timestamp⟩
    outgoing := g.outgoing.insert id ∅
    incoming := g.incoming.insert id ∅
    entries := if isEntry then g.entries.insert id else g.entries }

/-- Records that one module depends on another; a known edge changes nothing. -/
def addDependency (g : Graph) (source target : String) : Except Error Graph := do
  let _ ← g.require source
  let _ ← g.require target
  if !g.outgoing.contains source then throw (.rowMissing source)
  if !g.incoming.contains target then throw (.rowMissing target)
  return { g with
    outgoing := g.outgoing.modify source (·.insert target)
    incoming := g.incoming.modify target (·.insert source) }

/-- Removes a module and every edge that touches it. -/
def removeModule (g : Graph) (id : String) : Except Error Graph := do
  let _ ← g.require id
  let some dependents := g.incoming.get? id | throw (.rowMissing id)
  let some dependencies := g.outgoing.get? id | throw (.rowMissing id)
  let outgoing := dependents.toList.foldl (fun t d => t.modify d (·.erase id)) g.outgoing
  let incoming := dependencies.toList.foldl (fun t d => t.modify d (·.erase id)) g.incoming
  return {
    nodes := g.nodes.erase id
    outgoing := outgoing.erase id
    incoming := incoming.erase id
    entries := g.entries.erase id }

/-- What is known of a module under one roof: its id, then its metadata, then its time of
insertion. A later name replaces an earlier one, so metadata may rename a module but not date it. -/
def describe (g : Graph) (id : String) : Except Error (Table String Json) := do
  let node ← g.require id
  return ((Table.ofList [("id", .text node.id)]).insertAll node.metadata.entries).insert
    "timestamp" (.real node.timestamp)

/-- What a module depends on directly. -/
def dependencies (g : Graph) (id : String) : Except Error (OrderedSet String) := do
  let _ ← g.require id
  match g.outgoing.get? id with
  | some targets => .ok targets
  | none => .error (.rowMissing id)

/-- What depends on a module directly. -/
def dependents (g : Graph) (id : String) : Except Error (OrderedSet String) := do
  let _ ← g.require id
  match g.incoming.get? id with
  | some sources => .ok sources
  | none => .error (.rowMissing id)

/-- The graph as plain data: modules, the dependencies of each, and entry points, all in order. -/
structure Export where
  modules : List Module
  dependencies : List (String × List String)
  entryPoints : List String

def toExport (g : Graph) : Export where
  modules := g.nodes.values
  dependencies := g.outgoing.entries.map fun e => (e.1, e.2.toList)
  entryPoints := g.entryPoints

end Graph
end ModuleBundler
