import Mathlib.Data.List.Perm.Basic
import ModuleBundler.Proofs.Graph.Reach
import ModuleBundler.Proofs.Graph.Replay

/-! The algebra of removals. Striking out a module filters both lists of a diagram, so
removals commute, and what is left after several does not depend on their order. A module
that was new takes all its edges along, and leaves the graph as it was before it came.
What a removal leaves of the edges are those that touch neither side of the module
removed, and closures follow walks around it. -/
namespace ModuleBundler.Graph

open Cancellation Relation

namespace Diagram

variable {d after : Diagram} {m : Module} {id other u v : String} {ids : List String} {e : Edge}

section Several

theorem remove_comm (d : Diagram) (id other : String) :
    (d.remove id).remove other = (d.remove other).remove id := by
  apply ext
  · simp only [remove, List.filter_filter]
    exact List.filter_congr fun m _ => Bool.and_comm _ _
  · simp only [remove, List.filter_filter]
    exact List.filter_congr fun e _ => Bool.and_comm _ _

instance : RightCommutative remove := ⟨remove_comm⟩

/-- Strikes out modules one after another. -/
def removeAll (d : Diagram) (ids : List String) : Diagram := ids.foldl remove d

theorem removeAll_perm {others : List String} (perm : others.Perm ids) (d : Diagram) :
    d.removeAll others = d.removeAll ids := perm.foldl_eq d

theorem ids_removeAll (d : Diagram) (ids : List String) :
    (d.removeAll ids).ids = d.ids.filter (· ∉ ids) := by
  induction ids generalizing d with
  | nil => simp [removeAll]
  | cons id rest ih =>
    change ((d.remove id).removeAll rest).ids = _
    rw [ih, ids_remove, List.filter_filter]
    exact List.filter_congr fun other _ => by simp [Bool.and_comm]

/-- Distinct modules can be removed one after another, each of them being there until its turn. -/
theorem mutateAll_remove (distinct : ids.Nodup) (known : ∀ id ∈ ids, id ∈ d.ids) :
    d.mutateAll (ids.map .removeModule) = .ok (d.removeAll ids) := by
  induction ids generalizing d with
  | nil => rfl
  | cons id rest ih =>
    obtain ⟨once, distinct⟩ := List.nodup_cons.mp distinct
    obtain ⟨here, known⟩ := List.forall_mem_cons.mp known
    have first : d.mutate (.removeModule id) = .ok (d.remove id) := if_pos here
    rw [List.map_cons, mutateAll, List.foldlM_cons, first]
    apply ih distinct
    intro other member
    rw [ids_remove, List.mem_filter]
    refine ⟨known other member, decide_eq_true ?_⟩
    rintro rfl
    exact once member

end Several

section Restored

/-- A diagram that has got one more module since, and edges that touch it. -/
structure Gained (d : Diagram) (m : Module) (after : Diagram) : Prop where
  modules : after.modules = d.modules ++ [m]
  edges : ∃ own : List Edge, after.edges = d.edges ++ own ∧ ∀ e ∈ own, e.1 = m.id ∨ e.2 = m.id

namespace Gained

theorem add (fresh : m.id ∉ d.ids) : d.Gained m (d.add m fresh) :=
  ⟨rfl, [], (List.append_nil _).symm, by simp⟩

theorem connect (gained : d.Gained m after) (touches : e.1 = m.id ∨ e.2 = m.id)
    (known : e.1 ∈ after.ids ∧ e.2 ∈ after.ids) : d.Gained m (after.connect e known) := by
  obtain ⟨modules, own, edges, touching⟩ := gained
  refine ⟨modules, ?_⟩
  by_cases old : e ∈ after.edges
  · exact ⟨own, (if_pos old).trans edges, touching⟩
  · have grown : (after.connect e known).edges = after.edges ++ [e] := if_neg old
    refine ⟨own ++ [e], by rw [grown, edges, List.append_assoc], fun other member => ?_⟩
    rcases List.mem_append.mp member with earlier | new
    · exact touching other earlier
    · rw [List.mem_singleton.mp new]
      exact touches

/-- A dependency that touches the module is recorded or refused. -/
theorem settle (gained : d.Gained m after) (touches : e.1 = m.id ∨ e.2 = m.id) :
    d.Gained m (after.settle (.addDependency e.1 e.2)) := by
  rw [Diagram.settle, Diagram.mutate]
  split
  next first =>
    split
    next second => exact gained.connect touches ⟨first, second⟩
    next => exact gained
  next => exact gained

theorem foldl (gained : d.Gained m after) (calls : List Edge)
    (touch : ∀ e ∈ calls, e.1 = m.id ∨ e.2 = m.id) :
    d.Gained m ((calls.map fun e => Mutation.addDependency e.1 e.2).foldl Diagram.settle after) := by
  induction calls generalizing after with
  | nil => exact gained
  | cons e rest ih =>
    obtain ⟨touches, later⟩ := List.forall_mem_cons.mp touch
    exact ih (gained.settle touches) later

theorem mem_ids (gained : d.Gained m after) : m.id ∈ after.ids := by
  rw [ids, gained.modules]
  simp

/-- Nothing of a new module is left when it is struck out. -/
theorem remove (gained : d.Gained m after) (fresh : m.id ∉ d.ids) : after.remove m.id = d := by
  obtain ⟨modules, own, edges, touching⟩ := gained
  have others : ∀ other ∈ d.modules, other.id ≠ m.id := fun other member same =>
    fresh (same ▸ List.mem_map_of_mem member)
  have apart : ∀ e ∈ d.edges, e.1 ≠ m.id ∧ e.2 ≠ m.id := by
    intro e member
    constructor
    · exact fun same => fresh (same ▸ near_mem_ids member .outgoing)
    · exact fun same => fresh (same ▸ near_mem_ids member .incoming)
  apply ext
  · change after.modules.filter (·.id ≠ m.id) = d.modules
    rw [modules, List.filter_append, List.filter_eq_self.mpr (by simpa using others)]
    simp
  · have gone : own.filter (fun e => e.1 ≠ m.id ∧ e.2 ≠ m.id) = [] := by
      rw [List.filter_eq_nil_iff]
      intro e member
      rcases touching e member with same | same <;> simp [same]
    change after.edges.filter (fun e => e.1 ≠ m.id ∧ e.2 ≠ m.id) = d.edges
    rw [edges, List.filter_append, gone, List.append_nil]
    exact List.filter_eq_self.mpr fun e member => decide_eq_true (apart e member)

end Gained

end Restored

theorem dependsOn_remove : (d.remove id).toGraph.DependsOn u v ↔
    d.toGraph.DependsOn u v ∧ u ≠ id ∧ v ≠ id := by
  rw [dependsOn_toGraph, dependsOn_toGraph, remove, List.mem_filter, decide_eq_true_iff]

end Diagram

/-- Whatever changes a graph has been through: the order in which modules are removed does not
matter, a new module can be removed without a trace whatever edges it has got, and closures lead
around a module that is removed. -/
theorem removals_leave_rest (ms : List Mutation) :
    let g := ofMutations ms
    (∀ ids : List String, ids.Nodup → (∀ id ∈ ids, id ∈ g.moduleIds) →
      ∃ rest, rest.moduleIds = g.moduleIds.filter (· ∉ ids) ∧
        ∀ others : List String, others.Perm ids →
          g.mutateAll (others.map .removeModule) = .ok rest) ∧
    (∀ (m : Module) (calls : List Edge), m.id ∉ g.moduleIds →
      (∀ e ∈ calls, e.1 = m.id ∨ e.2 = m.id) →
      ∃ grown, g.addModule m.id m.metadata m.isEntry m.timestamp = .ok grown ∧
        -- Calls that name an unknown module are refused, and count as well.
        ((calls.map fun e => .addDependency e.1 e.2).foldl settle grown).removeModule m.id = .ok g) ∧
    ∀ id ∈ g.moduleIds, ∃ rest, g.removeModule id = .ok rest ∧
      rest.moduleIds = g.moduleIds.filter (· ≠ id) ∧
      ∀ other ∈ rest.moduleIds, ∃ all, (rest.allDependencies unchecked other).result = .ok all ∧
        ∀ v, v ∈ all ↔ TransGen (fun u v => g.DependsOn u v ∧ u ≠ id ∧ v ≠ id) other v := by
  intro g
  let d := Diagram.ofMutations ms
  have same : g = d.toGraph := ofMutations_eq ms
  rw [same, Diagram.moduleIds_toGraph]
  refine ⟨?_, ?_, ?_⟩
  · intro ids distinct known
    refine ⟨(d.removeAll ids).toGraph, ?_, fun others perm => ?_⟩
    · rw [Diagram.moduleIds_toGraph, Diagram.ids_removeAll]
    · have removed := Diagram.mutateAll_remove (perm.nodup_iff.mpr distinct) fun id member =>
        known id (perm.mem_iff.mp member)
      rw [Diagram.mutateAll_toGraph, removed, Diagram.removeAll_perm perm]
      rfl
  · intro m calls fresh touch
    have gained := (Diagram.Gained.add fresh).foldl calls touch
    refine ⟨(d.add m fresh).toGraph, Diagram.addModule_toGraph m fresh, ?_⟩
    rw [Diagram.foldl_settle_toGraph, Diagram.removeModule_toGraph gained.mem_ids,
      gained.remove fresh]
  · intro id known
    refine ⟨(d.remove id).toGraph, Diagram.removeModule_toGraph known, ?_, ?_⟩
    · rw [Diagram.moduleIds_toGraph, Diagram.ids_remove]
    · intro other left
      have row : other ∈ (d.remove id).toGraph.outgoing.keys := Diagram.rowed_toGraph other left
      obtain ⟨all, met, reached⟩ :=
        allDependencies_eq Diagram.closed_toGraph (contains_iff.mpr left) row
      have around : (d.remove id).toGraph.DependsOn =
          fun u v => d.toGraph.DependsOn u v ∧ u ≠ id ∧ v ≠ id := by
        funext u v
        exact propext Diagram.dependsOn_remove
      exact ⟨all, by rw [met, result_pure], around ▸ reached⟩

theorem removals_leave_rest_mutual :
    let add (id : String) : Mutation := .addModule id ∅ false 0
    let ms := [add "a", add "b", add "c", .addDependency "a" "b", .addDependency "b" "a",
      .addDependency "a" "a", .addDependency "c" "a", .addDependency "b" "c"]
    let g := ofMutations ms
    (∃ rest, rest.moduleIds = ["c"] ∧
      g.mutateAll [.removeModule "a", .removeModule "b"] = .ok rest ∧
      g.mutateAll [.removeModule "b", .removeModule "a"] = .ok rest) ∧
    (∃ grown, g.addModule "x" ∅ true 0 = .ok grown ∧
      (([("x", "a"), ("b", "x"), ("x", "x"), ("x", "y")].map fun e => .addDependency e.1 e.2).foldl
        settle grown).removeModule "x" = .ok g) ∧
    ∃ rest, g.removeModule "b" = .ok rest ∧ rest.moduleIds = ["a", "c"] ∧
      ∃ all, (rest.allDependencies unchecked "c").result = .ok all ∧
        "a" ∈ all ∧ "b" ∉ all ∧ "c" ∉ all := by
  intro add ms g
  obtain ⟨several, restored, around⟩ := removals_leave_rest ms
  have ids : (ofMutations ms).moduleIds = ["a", "b", "c"] := by decide +kernel
  rw [ids] at several restored around
  have edges : (Diagram.ofMutations ms).edges =
      [("a", "b"), ("b", "a"), ("a", "a"), ("c", "a"), ("b", "c")] := by decide +kernel
  have edge : ∀ u v, g.DependsOn u v ↔
      (u, v) ∈ [("a", "b"), ("b", "a"), ("a", "a"), ("c", "a"), ("b", "c")] := by
    intro u v
    rw [← edges]
    exact dependsOn_ofMutations
  refine ⟨?_, ?_, ?_⟩
  · obtain ⟨rest, left, removed⟩ := several ["a", "b"] (by decide) (by decide)
    exact ⟨rest, left, removed ["a", "b"] (.refl _), removed ["b", "a"] (.swap _ _ _)⟩
  · exact restored ⟨"x", ∅, true, 0⟩ _ (by decide) (by decide)
  · obtain ⟨rest, removed, left, closures⟩ := around "b" (by decide)
    have left : rest.moduleIds = ["a", "c"] := left
    obtain ⟨all, met, reached⟩ := closures "c" (by simp [left])
    refine ⟨rest, removed, left, all, met, ?_, fun inside => ?_, fun inside => ?_⟩
    · exact (reached "a").mpr (.single ⟨(edge _ _).mpr (by decide), by decide, by decide⟩)
    · obtain ⟨-, -, -, -, apart⟩ := TransGen.tail'_iff.mp ((reached "b").mp inside)
      exact apart rfl
    · -- Only the module removed leads back.
      obtain ⟨before, -, step, apart, -⟩ := TransGen.tail'_iff.mp ((reached "c").mp inside)
      have origin : before = "b" := by simpa using (edge _ _).mp step
      exact apart origin

end ModuleBundler.Graph
