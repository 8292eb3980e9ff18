import ModuleBundler.Proofs.Graph.Mutation
import ModuleBundler.Proofs.Graph.Validity

/-! Every graph that changes can make is the graph of a diagram. So its tables agree
with each other, no edge leads out of it, and no query misses a row. -/
namespace ModuleBundler.Graph

open Cancellation

namespace Diagram

variable {d : Diagram} {i : Index} {id other : String}

section Queries

theorem dependencies_toGraph : d.toGraph.dependencies id =
    if id ∈ d.ids then .ok (d.row .outgoing id) else .error (.unknown id) := by
  by_cases known : id ∈ d.ids
  · obtain ⟨_, found⟩ := require_of_mem known
    rw [dependencies, found, toGraph, get?_rows, if_pos known, if_pos known]
    rfl
  · rw [dependencies, require_of_not_mem known, if_neg known]
    rfl

theorem dependents_toGraph : d.toGraph.dependents id =
    if id ∈ d.ids then .ok (d.row .incoming id) else .error (.unknown id) := by
  by_cases known : id ∈ d.ids
  · obtain ⟨_, found⟩ := require_of_mem known
    rw [dependents, found, toGraph, get?_rows, if_pos known, if_pos known]
    rfl
  · rw [dependents, require_of_not_mem known, if_neg known]
    rfl

end Queries

section Validity

theorem table_toGraph (i : Index) : i.table d.toGraph = d.rows i := by
  cases i <;> rfl

theorem keys_table_toGraph (i : Index) : (i.table d.toGraph).keys = d.ids := by
  rw [table_toGraph, rows, Table.keys_tabulate]

theorem lists_toGraph : i.Lists d.toGraph id other ↔ other ∈ d.row i id := by
  rw [Index.Lists, table_toGraph, get?_rows]
  by_cases known : id ∈ d.ids
  · simp [known]
  · simp [known, row_eq_empty]

theorem consistent_toGraph : d.toGraph.Consistent where
  rows i id := by rw [keys_table_toGraph, moduleIds_toGraph]
  mirrored source target := by
    rw [lists_toGraph, lists_toGraph]
    exact (mem_row_other (i := .outgoing)).symm
  marked id entry := by
    obtain ⟨m, member, rfl⟩ := List.mem_map.mp entry
    rw [moduleIds_toGraph]
    exact List.mem_map_of_mem (List.mem_filter.mp member).1

theorem closed_toGraph : d.toGraph.Closed := consistent_toGraph.closed

theorem rowed_toGraph : ∀ id ∈ d.toGraph.moduleIds, id ∈ d.toGraph.outgoing.keys :=
  consistent_toGraph.rowed

theorem marked_toGraph : ∀ id ∈ d.toGraph.entryPoints, id ∈ d.toGraph.moduleIds :=
  consistent_toGraph.marked

theorem inconsistencies_toGraph : d.toGraph.inconsistencies = [] :=
  inconsistencies_eq_nil_iff.mpr consistent_toGraph

end Validity

end Diagram

/-- Changes are refused for two reasons only. -/
theorem Diagram.refused {d : Diagram} {m : Mutation} {e : Error} (refused : d.mutate m = .error e) :
    ∃ id, e = .duplicate id ∨ e = .unknown id := by
  cases m with
  | addModule id =>
    rw [mutate] at refused
    split at refused <;> cases refused
    exact ⟨_, .inl rfl⟩
  | addDependency source target =>
    rw [mutate] at refused
    split at refused
    · split at refused <;> cases refused
      exact ⟨_, .inr rfl⟩
    · cases refused
      exact ⟨_, .inr rfl⟩
  | removeModule id =>
    rw [mutate] at refused
    split at refused <;> cases refused
    exact ⟨_, .inr rfl⟩
  | clear => cases refused

/-- Whatever changes a graph has been through, refused ones included, a list of modules and a list
of edges say what it is, and go on saying so. -/
theorem tables_follow_lists (ms : List Mutation) :
    let g := ofMutations ms
    let d := Diagram.ofMutations ms
    (g.nodes.entries = d.modules.map fun m => (m.id, m)) ∧
    (g.outgoing.entries.map fun r => (r.1, r.2.toList)) =
      (d.ids.map fun u => (u, (d.edges.filter fun e => e.1 = u).map Prod.snd)) ∧
    (g.incoming.entries.map fun r => (r.1, r.2.toList)) =
      (d.ids.map fun v => (v, (d.edges.filter fun e => e.2 = v).map Prod.fst)) ∧
    g.entries.toList = (d.modules.filter (·.isEntry)).map Module.id ∧
    -- A further change does to the tables what it does to the lists, and is refused alike.
    (∀ m, g.mutate m = (d.mutate m).map Diagram.toGraph) ∧
    (∀ m e, g.mutate m = .error e →
      (∃ id, e = .duplicate id ∨ e = .unknown id) ∧ ofMutations (ms ++ [m]) = g) ∧
    -- The tables agree, and no query fails for want of a row.
    g.inconsistencies = [] ∧ g.isConsistent = true ∧
    (∀ id e, g.dependencies id = .error e ∨ g.dependents id = .error e → e = .unknown id) ∧
    ∀ (σ : Type) (check : Checkpoint σ), Search.NeverMisses (g.cycles check) ∧
      Search.NeverMisses (g.executionOrder check) ∧
      ∀ id, Search.NeverMisses (g.allDependencies check id) := by
  intro g d
  have same : g = d.toGraph := ofMutations_eq ms
  rw [same]
  refine ⟨rfl, ?_, ?_, rfl, d.mutate_toGraph, ?_, d.inconsistencies_toGraph, ?_, ?_, ?_⟩
  · exact List.map_map
  · exact List.map_map
  · intro m e refused
    constructor
    · rw [d.mutate_toGraph] at refused
      cases outcome : d.mutate m with
      | ok next =>
        rw [outcome] at refused
        cases refused
      | error e' =>
        rw [outcome] at refused
        cases refused
        exact Diagram.refused outcome
    · rw [ofMutations, List.foldl_append]
      change settle g m = _
      rw [same, settle, refused]
      rfl
  · rw [isConsistent, d.inconsistencies_toGraph]
    rfl
  · rintro id e (failed | failed)
    · rw [Diagram.dependencies_toGraph] at failed
      split at failed <;> cases failed
      rfl
    · rw [Diagram.dependents_toGraph] at failed
      split at failed <;> cases failed
      rfl
  · intro σ check
    have closed : d.toGraph.Closed := Diagram.closed_toGraph
    exact ⟨cycles_neverMisses closed Diagram.rowed_toGraph check,
      executionOrder_neverMisses closed Diagram.rowed_toGraph Diagram.marked_toGraph check,
      allDependencies_neverMisses closed Diagram.rowed_toGraph check⟩

theorem tables_follow_lists_removed :
    let add (id : String) (isEntry : Bool) : Mutation := .addModule id ∅ isEntry 0
    let ms := [add "a" true, add "b" false, .addDependency "a" "b", .addDependency "b" "a",
      .addDependency "a" "a", .removeModule "b", add "b" true, .addDependency "b" "a"]
    let g := ofMutations ms
    (g.outgoing.entries.map fun r => (r.1, r.2.toList)) = [("a", ["a"]), ("b", ["a"])] ∧
      (g.incoming.entries.map fun r => (r.1, r.2.toList)) = [("a", ["a", "b"]), ("b", [])] ∧
      g.entries.toList = ["a", "b"] ∧
      g.mutate (.removeModule "c") = .error (.unknown "c") ∧
      ofMutations (ms ++ [.removeModule "c"]) = g ∧ g.inconsistencies = [] := by
  intro add ms
  dsimp only
  obtain ⟨-, outgoing, incoming, entries, -, refusals, consistent, -⟩ := tables_follow_lists ms
  have unknown : (ofMutations ms).nodes.get? "c" = none := by decide +kernel
  have refused : (ofMutations ms).mutate (.removeModule "c") = .error (.unknown "c") := by
    rw [mutate, removeModule, require, unknown]
    rfl
  obtain ⟨-, unchanged⟩ := refusals _ _ refused
  rw [outgoing, incoming, entries]
  refine ⟨?_, ?_, ?_, refused, unchanged, consistent⟩
  · decide +kernel
  · decide +kernel
  · decide +kernel

end ModuleBundler.Graph
