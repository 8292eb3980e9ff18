import ModuleBundler.Graph.Basic

/-! Consistency of the four tables of a graph. Both adjacency tables must have
exactly the modules as rows, hold the same edges seen from their two ends, and
every entry point must be a module. Each violation is named on its own. -/
namespace ModuleBundler.Graph

/-- An adjacency table: dependencies by source or dependents by target. -/
inductive Index where
  | outgoing
  | incoming
  deriving DecidableEq

def Index.name : Index → String
  | outgoing => "outgoing"
  | incoming => "incoming"

def Index.table (i : Index) (g : Graph) : Table String (OrderedSet String) :=
  match i with
  | outgoing => g.outgoing
  | incoming => g.incoming

inductive Inconsistency where
  | rowAbsent (index : Index) (id : String)
  | rowUnknown (index : Index) (id : String)
  | targetUnknown (source target : String)
  | notIncoming (source target : String)
  | notOutgoing (source target : String)
  | entryUnknown (id : String)
  deriving DecidableEq

def Inconsistency.message : Inconsistency → String
  | rowAbsent index id => s!"Module {id} has no {index.name} index entry"
  | rowUnknown index id => s!"{index.name} index references unknown module {id}"
  | targetUnknown source target => s!"Edge {source} -> {target} targets unknown module"
  | notIncoming source target => s!"Edge {source} -> {target} missing from incoming index"
  | notOutgoing source target => s!"Incoming {source} -> {target} missing from outgoing index"
  | entryUnknown id => s!"Entry point {id} is not a module"

/-- By code points, ascending. -/
def sorted (ids : List String) : List String := ids.mergeSort fun a b => decide (a ≤ b)

/-- Rows an index lacks, then rows it has for no module, each in order of id. -/
def rowViolations (g : Graph) (index : Index) : List Inconsistency :=
  let rows := (index.table g).keys
  (sorted (g.moduleIds.filter (· ∉ rows))).map (.rowAbsent index) ++
    (sorted (rows.filter (· ∉ g.moduleIds))).map (.rowUnknown index)

/-- Whether an index lists `member` in the row of `id`. -/
def lists (table : Table String (OrderedSet String)) (id member : String) : Bool :=
  match table.get? id with
  | some row => decide (member ∈ row)
  | none => false

def outgoingViolations (g : Graph) : List Inconsistency :=
  g.outgoing.entries.flatMap fun (source, targets) => targets.toList.filterMap fun target =>
    if !g.contains target then some (.targetUnknown source target)
    else if !lists g.incoming target source then some (.notIncoming source target)
    else none

def incomingViolations (g : Graph) : List Inconsistency :=
  g.incoming.entries.flatMap fun (target, sources) => sources.toList.filterMap fun source =>
    if lists g.outgoing source target then none else some (.notOutgoing source target)

def entryViolations (g : Graph) : List Inconsistency :=
  g.entryPoints.filterMap fun id => if g.contains id then none else some (.entryUnknown id)

/-- Every violation, index by index, then edge by edge, then entry by entry. -/
def inconsistencies (g : Graph) : List Inconsistency :=
  g.rowViolations .outgoing ++ g.rowViolations .incoming ++ g.outgoingViolations ++
    g.incomingViolations ++ g.entryViolations

def isConsistent (g : Graph) : Bool := g.inconsistencies.isEmpty

end ModuleBundler.Graph
