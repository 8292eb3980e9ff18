import ModuleBundler.Graph.Basic

/-! Depth-first searches. All of them hold their work in an explicit stack and
poll a checkpoint before they enter a further module. They end because a module
is entered once and a stack of finitely many pending edges runs out in between:
the number of rows not yet entered, and then what is pending, goes down. -/
namespace ModuleBundler.Graph

open Cancellation

/-- A search under a checkpoint: it may stop early and then keeps the checkpoint's state. -/
abbrev Search (σ α : Type) := ExceptT Error (StateM σ) α

variable {σ : Type}

/-- Polls the checkpoint on behalf of the named operation. -/
def poll (check : Checkpoint σ) (operation : String) : Search σ Unit :=
  ExceptT.mk do
    match ← (check operation).run with
    | .ok () => return .ok ()
    | .error stop => return .error (.interrupted stop)

/-- A module being explored and those of its dependencies still to be looked at. -/
structure Frame where
  node : String
  pending : List String

/-- Edges and returns that a stack of frames still holds. -/
def workload : List Frame → Nat
  | [] => 0
  | f :: stack => f.pending.length + 1 + workload stack

theorem workload_return (node : String) (stack : List Frame) :
    workload stack < workload (⟨node, []⟩ :: stack) := by
  simp only [workload, List.length_nil]
  omega

theorem workload_edge (node next : String) (pending : List String) (stack : List Frame) :
    workload (⟨node, pending⟩ :: stack) < workload (⟨node, next :: pending⟩ :: stack) := by
  simp only [workload, List.length_cons]
  omega

/-- Collects targets of edges out of everything on the stack, the top first. The first collection
holds the modules entered, the second the edge targets met. -/
def closureFrom (g : Graph) (check : Checkpoint σ) (entered met : OrderedSet String) :
    List String → Search σ (OrderedSet String)
  | [] => pure met
  | current :: stack =>
    if seen : current ∈ entered then closureFrom g check entered met stack
    else do
      poll check "dependency traversal"
      match row : g.outgoing.get? current with
      | none => throw (.rowMissing current)
      | some targets =>
        let entered' := entered.insert current
        have : entered'.missing g.outgoing.keys < entered.missing g.outgoing.keys :=
          OrderedSet.missing_insert_lt seen (Table.mem_keys_of_get? row)
        closureFrom g check entered' (met.insertAll targets.toList)
          ((targets.toList.filter (· ∉ entered')).reverse ++ stack)
  termination_by stack => (entered.missing g.outgoing.keys, stack.length)

/-- Everything a module depends on, directly or through others. The module itself is part of it
exactly when a cycle leads back. -/
def allDependencies (g : Graph) (check : Checkpoint σ) (id : String) :
    Search σ (OrderedSet String) := do
  if !g.contains id then throw (.unknown id)
  closureFrom g check ∅ ∅ [id]

/-- Progress of a cycle search: what has been entered and the cycles met so far, last first. -/
structure CycleSearch where
  entered : OrderedSet String
  found : List (List String)

/-- The path from `start` to the top of the stack, in edge order. -/
def pathFrom (start : String) (stack : List Frame) : List String :=
  let path := stack.map Frame.node
  (path.takeWhile (· ≠ start) ++ [start]).reverse

/-- Looks at the pending edges of the top frame until the stack is empty. An edge back into the
path closes a cycle. -/
def cyclesFrom (g : Graph) (check : Checkpoint σ) (s : CycleSearch) :
    List Frame → Search σ CycleSearch
  | [] => pure s
  | ⟨_, []⟩ :: stack => cyclesFrom g check s stack
  | ⟨node, next :: pending⟩ :: stack =>
    let rest := ⟨node, pending⟩ :: stack
    if next ∈ rest.map Frame.node then
      cyclesFrom g check { s with found := pathFrom next rest :: s.found } rest
    else if seen : next ∈ s.entered then cyclesFrom g check s rest
    else do
      poll check "cycle detection"
      match row : g.outgoing.get? next with
      | none => throw (.rowMissing next)
      | some targets =>
        have : (s.entered.insert next).missing g.outgoing.keys
            < s.entered.missing g.outgoing.keys :=
          OrderedSet.missing_insert_lt seen (Table.mem_keys_of_get? row)
        cyclesFrom g check { s with entered := s.entered.insert next }
          (⟨next, targets.toList⟩ :: rest)
  termination_by stack => (s.entered.missing g.outgoing.keys, workload stack)
  decreasing_by
    · exact .right _ (workload_return ..)
    · exact .right _ (workload_edge ..)
    · exact .right _ (workload_edge ..)
    · exact .left _ _ this

/-- One search per module not entered yet, in order of insertion. -/
def cyclesFromAll (g : Graph) (check : Checkpoint σ) :
    List String → CycleSearch → Search σ CycleSearch
  | [], s => pure s
  | start :: rest, s =>
    if start ∈ s.entered then cyclesFromAll g check rest s
    else
      match g.outgoing.get? start with
      | none => throw (.rowMissing start)
      | some targets => do
        let s' ← cyclesFrom g check { s with entered := s.entered.insert start }
          [⟨start, targets.toList⟩]
        cyclesFromAll g check rest s'

/-- Cycles in the order in which the search closes them, each in edge order. At least one is found
in every strongly connected region that has one. -/
def cycles (g : Graph) (check : Checkpoint σ) : Search σ (List (List String)) := do
  let s ← cyclesFromAll g check g.moduleIds ⟨∅, []⟩
  return s.found.reverse

/-- Progress of an ordering: what has been entered and what has been left, last first. -/
structure Ordering where
  entered : OrderedSet String
  left : List String

/-- Enters what the top frame still depends on; a frame without pending edges is left. -/
def orderFrom (g : Graph) (check : Checkpoint σ) (s : Ordering) :
    List Frame → Search σ Ordering
  | [] => pure s
  | ⟨node, []⟩ :: stack => orderFrom g check { s with left := node :: s.left } stack
  | ⟨node, next :: pending⟩ :: stack =>
    let rest := ⟨node, pending⟩ :: stack
    if seen : next ∈ s.entered then orderFrom g check s rest
    else do
      poll check "execution ordering"
      match row : g.outgoing.get? next with
      | none => throw (.rowMissing next)
      | some targets =>
        have : (s.entered.insert next).missing g.outgoing.keys
            < s.entered.missing g.outgoing.keys :=
          OrderedSet.missing_insert_lt seen (Table.mem_keys_of_get? row)
        orderFrom g check { s with entered := s.entered.insert next }
          (⟨next, targets.toList⟩ :: rest)
  termination_by stack => (s.entered.missing g.outgoing.keys, workload stack)
  decreasing_by
    · exact .right _ (workload_return ..)
    · exact .right _ (workload_edge ..)
    · exact .left _ _ this

def orderFromAll (g : Graph) (check : Checkpoint σ) :
    List String → Ordering → Search σ Ordering
  | [], s => pure s
  | start :: rest, s =>
    if start ∈ s.entered then orderFromAll g check rest s
    else
      match g.outgoing.get? start with
      | none => throw (.rowMissing start)
      | some targets => do
        let s' ← orderFrom g check { s with entered := s.entered.insert start }
          [⟨start, targets.toList⟩]
        orderFromAll g check rest s'

/-- Every module once, dependencies before dependents wherever no cycle prevents it. Searches
start from the entry points and then from every module. -/
def executionOrder (g : Graph) (check : Checkpoint σ) : Search σ (List String) := do
  let s ← orderFromAll g check (g.entryPoints ++ g.moduleIds) ⟨∅, []⟩
  return s.left.reverse

/-- A graph at a glance. -/
structure Summary where
  moduleCount : Nat
  entryPoints : List String
  cycles : List (List String)
  executionOrder : List String

/-- The outcome of a search that nothing interrupts. -/
def Search.result {α : Type} (search : Search Unit α) : Except Error α := (search.run.run ()).1

def summary (g : Graph) : Except Error Summary := do
  return ⟨g.size, g.entryPoints, ← (g.cycles unchecked).result,
    ← (g.executionOrder unchecked).result⟩

end ModuleBundler.Graph
