import ModuleBundler.Proofs.Graph.Diagram

/-! Changes of a graph. A change either succeeds or is refused, and a refused one
leaves everything as it was. The four tables follow the two lists of a diagram
through every sequence of changes, refused ones included. -/
namespace ModuleBundler.Graph

/-- A change that is asked of a graph. -/
inductive Mutation where
  | addModule (id : String) (metadata : Table String Json) (isEntry : Bool) (timestamp : Float)
  | addDependency (source target : String)
  | removeModule (id : String)
  | clear

def mutate (g : Graph) : Mutation → Except Error Graph
  | .addModule id metadata isEntry timestamp => g.addModule id metadata isEntry timestamp
  | .addDependency source target => g.addDependency source target
  | .removeModule id => g.removeModule id
  | .clear => .ok .empty

/-- The graph after a change that may have been refused. -/
def settle (g : Graph) (m : Mutation) : Graph := (g.mutate m).toOption.getD g

/-- The graph that changes make out of the empty one. -/
def ofMutations (ms : List Mutation) : Graph := ms.foldl settle .empty

namespace Diagram

/-- The same changes on the two lists. -/
def mutate (d : Diagram) : Mutation → Except Error Diagram
  | .addModule id metadata isEntry timestamp =>
    if known : id ∈ d.ids then .error (.duplicate id)
    else .ok (d.add ⟨id, metadata, isEntry, timestamp⟩ known)
  | .addDependency source target =>
    if first : source ∈ d.ids then
      if second : target ∈ d.ids then .ok (d.connect (source, target) ⟨first, second⟩)
      else .error (.unknown target)
    else .error (.unknown source)
  | .removeModule id => if id ∈ d.ids then .ok (d.remove id) else .error (.unknown id)
  | .clear => .ok .empty

def settle (d : Diagram) (m : Mutation) : Diagram := (d.mutate m).toOption.getD d

def ofMutations (ms : List Mutation) : Diagram := ms.foldl settle .empty

variable {d : Diagram} {id source target : String}

theorem addModule_toGraph (m : Module) (fresh : m.id ∉ d.ids) :
    d.toGraph.addModule m.id m.metadata m.isEntry m.timestamp = .ok (d.add m fresh).toGraph := by
  have nodes : d.toGraph.nodes.insert m.id m = (d.add m fresh).toGraph.nodes := by
    apply Table.ext
    rw [Table.insert, dif_neg (by rw [← moduleIds_toGraph] at fresh; exact fresh)]
    simp [toGraph, add]
  have entries : (if m.isEntry then d.toGraph.entries.insert m.id else d.toGraph.entries) =
      (d.add m fresh).toGraph.entries := by
    apply OrderedSet.ext
    cases marked : m.isEntry with
    | false => simp [toGraph, entryPoints, add, marked]
    | true =>
      have unmarked : m.id ∉ d.toGraph.entries := by
        intro present
        obtain ⟨other, member, same⟩ := List.mem_map.mp present
        exact fresh (same ▸ List.mem_map_of_mem (List.mem_of_mem_filter member))
      rw [if_pos rfl, OrderedSet.toList_insert_of_not_mem unmarked]
      simp [toGraph, entryPoints, add, marked]
  have outgoing : d.toGraph.outgoing.insert m.id ∅ = (d.add m fresh).toGraph.outgoing :=
    rows_add fresh
  have incoming : d.toGraph.incoming.insert m.id ∅ = (d.add m fresh).toGraph.incoming :=
    rows_add fresh
  rw [addModule, contains_toGraph, if_neg (by simpa using fresh), nodes, outgoing, incoming, entries]

theorem addDependency_toGraph (known : source ∈ d.ids ∧ target ∈ d.ids) :
    d.toGraph.addDependency source target = .ok (d.connect (source, target) known).toGraph := by
  obtain ⟨_, first⟩ := require_of_mem known.1
  obtain ⟨_, second⟩ := require_of_mem known.2
  have row : d.toGraph.outgoing.contains source = true := by
    simpa [Table.contains, toGraph, rows] using known.1
  have column : d.toGraph.incoming.contains target = true := by
    simpa [Table.contains, toGraph, rows] using known.2
  have outgoing : d.toGraph.outgoing.modify source (·.insert target) =
      (d.connect (source, target) known).toGraph.outgoing :=
    rows_connect (i := .outgoing) (e := (source, target)) known
  have incoming : d.toGraph.incoming.modify target (·.insert source) =
      (d.connect (source, target) known).toGraph.incoming :=
    rows_connect (i := .incoming) (e := (source, target)) known
  rw [addDependency, first, second, row, column, outgoing, incoming]
  rfl

theorem removeModule_toGraph (known : id ∈ d.ids) :
    d.toGraph.removeModule id = .ok (d.remove id).toGraph := by
  obtain ⟨_, found⟩ := require_of_mem known
  have dependents : d.toGraph.incoming.get? id = some (d.row .incoming id) := by
    rw [toGraph, get?_rows, if_pos known]
  have dependencies : d.toGraph.outgoing.get? id = some (d.row .outgoing id) := by
    rw [toGraph, get?_rows, if_pos known]
  have nodes : d.toGraph.nodes.erase id = (d.remove id).toGraph.nodes := by
    apply Table.ext
    simp only [Table.erase, toGraph, remove, List.filter_map]
    rfl
  have entries : d.toGraph.entries.erase id = (d.remove id).toGraph.entries := by
    apply OrderedSet.ext
    simp only [OrderedSet.erase, toGraph, entryPoints, remove, List.filter_map, List.filter_filter]
    congr 1
    exact List.filter_congr fun m _ => Bool.and_comm _ _
  have outgoing : ((d.row .incoming id).toList.foldl (fun t k => t.modify k (·.erase id))
      d.toGraph.outgoing).erase id = (d.remove id).toGraph.outgoing := rows_remove (i := .outgoing)
  have incoming : ((d.row .outgoing id).toList.foldl (fun t k => t.modify k (·.erase id))
      d.toGraph.incoming).erase id = (d.remove id).toGraph.incoming := rows_remove (i := .incoming)
  rw [removeModule, found, dependents, dependencies]
  change Except.ok (Graph.mk (d.toGraph.nodes.erase id) _ _ (d.toGraph.entries.erase id)) = _
  rw [nodes, outgoing, incoming, entries]

theorem mutate_toGraph (d : Diagram) (m : Mutation) :
    d.toGraph.mutate m = (d.mutate m).map toGraph := by
  cases m with
  | addModule id metadata isEntry timestamp =>
    rw [Graph.mutate, mutate]
    split
    next known => rw [addModule, contains_toGraph, if_pos (by simpa using known)]; rfl
    next fresh => exact addModule_toGraph ⟨id, metadata, isEntry, timestamp⟩ fresh
  | addDependency source target =>
    rw [Graph.mutate, mutate]
    split
    next first =>
      split
      next second => exact addDependency_toGraph ⟨first, second⟩
      next unknown =>
        obtain ⟨_, found⟩ := require_of_mem first
        rw [addDependency, found, require_of_not_mem unknown]
        rfl
    next unknown =>
      rw [addDependency, require_of_not_mem unknown]
      rfl
  | removeModule id =>
    rw [Graph.mutate, mutate]
    split
    next known => exact removeModule_toGraph known
    next unknown =>
      rw [removeModule, require_of_not_mem unknown]
      rfl
  | clear => rfl

theorem settle_toGraph (d : Diagram) (m : Mutation) : d.toGraph.settle m = (d.settle m).toGraph := by
  rw [Graph.settle, settle, mutate_toGraph]
  cases d.mutate m <;> rfl

theorem foldl_settle_toGraph (d : Diagram) (ms : List Mutation) :
    ms.foldl Graph.settle d.toGraph = (ms.foldl settle d).toGraph := by
  induction ms generalizing d with
  | nil => rfl
  | cons m rest ih => rw [List.foldl_cons, List.foldl_cons, settle_toGraph, ih]

end Diagram

/-- The tables follow the lists through every sequence of changes. -/
theorem ofMutations_eq (ms : List Mutation) : ofMutations ms = (Diagram.ofMutations ms).toGraph :=
  Diagram.foldl_settle_toGraph .empty ms

end ModuleBundler.Graph
