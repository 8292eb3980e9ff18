import ModuleBundler.Proofs.Graph.Mutation

/-! Graphs under other names. Replacing the names of a graph keeps its modules, edges and
entry points with all their orders, as long as no two names become one; every operation
that adds to a graph adds the same to the renamed one. -/
namespace ModuleBundler

def Module.rename (name : String → String) (m : Module) : Module := { m with id := name m.id }

namespace Graph

/-- The second graph is the first with every name replaced: the same modules, rows and entry points
in the same order, and nothing else changed. -/
structure Renames (name : String → String) (g renamed : Graph) : Prop where
  nodes : renamed.nodes.entries = g.nodes.entries.map fun e => (name e.1, e.2.rename name)
  outgoing : renamed.outgoing.entries.map (fun e => (e.1, e.2.toList)) =
    g.outgoing.entries.map fun e => (name e.1, e.2.toList.map name)
  incoming : renamed.incoming.entries.map (fun e => (e.1, e.2.toList)) =
    g.incoming.entries.map fun e => (name e.1, e.2.toList.map name)
  entries : renamed.entries.toList = g.entries.toList.map name

variable {name : String → String}

theorem Renames.moduleIds {g renamed : Graph} (renames : Renames name g renamed) :
    renamed.moduleIds = g.moduleIds.map name := by
  rw [Graph.moduleIds, Graph.moduleIds, Table.keys, Table.keys, renames.nodes, List.map_map,
    List.map_map]
  rfl

namespace Diagram

/-- The second diagram is the first with every name replaced. -/
structure Renames (name : String → String) (d renamed : Diagram) : Prop where
  modules : renamed.modules = d.modules.map (Module.rename name)
  edges : renamed.edges = d.edges.map (Prod.map name name)

namespace Renames

variable {d renamed : Diagram} (renames : Renames name d renamed)

include renames

theorem ids : renamed.ids = d.ids.map name := by
  rw [Diagram.ids, Diagram.ids, renames.modules, List.map_map, List.map_map]
  rfl

/-- No two names become one. -/
theorem injective : ∀ a ∈ d.ids, ∀ b ∈ d.ids, name a = name b → a = b := by
  have distinct := renamed.nodup_ids
  rw [renames.ids] at distinct
  exact List.inj_on_of_nodup_map distinct

theorem row (i : Index) {id : String} (known : id ∈ d.ids) :
    (renamed.row i (name id)).toList = (d.row i id).toList.map name := by
  have near : ∀ e, i.near (Prod.map name name e) = name (i.near e) := by
    intro e
    cases i <;> rfl
  have far : ∀ e, i.far (Prod.map name name e) = name (i.far e) := by
    intro e
    cases i <;> rfl
  have same : ∀ e ∈ d.edges, (decide (name (i.near e) = name id)) = decide (i.near e = id) := by
    intro e member
    refine decide_eq_decide.mpr ⟨?_, congrArg name⟩
    exact renames.injective _ (near_mem_ids member i) _ known
  simp only [Diagram.row, renames.edges, List.filter_map, List.map_map, Function.comp_def, near, far]
  rw [List.filter_congr same]

theorem rows (i : Index) : (renamed.rows i).entries.map (fun e => (e.1, e.2.toList)) =
    (d.rows i).entries.map fun e => (name e.1, e.2.toList.map name) := by
  simp only [Diagram.rows, Table.tabulate, List.map_map, renames.ids]
  refine List.map_congr_left fun id known => ?_
  simp only [Function.comp_apply, renames.row i known]

theorem toGraph : Graph.Renames name d.toGraph renamed.toGraph where
  nodes := by
    simp only [Diagram.toGraph, renames.modules, List.map_map]
    rfl
  outgoing := renames.rows .outgoing
  incoming := renames.rows .incoming
  entries := by
    simp only [Diagram.toGraph, entryPoints, renames.modules, List.filter_map, List.map_map]
    rfl

theorem add {m : Module} (fresh : m.id ∉ d.ids) (fresh' : (m.rename name).id ∉ renamed.ids) :
    Renames name (d.add m fresh) (renamed.add (m.rename name) fresh') where
  modules := by
    simp only [Diagram.add, renames.modules, List.map_append]
    rfl
  edges := renames.edges

theorem connect {e : Edge} (known : e.1 ∈ d.ids ∧ e.2 ∈ d.ids)
    (known' : name e.1 ∈ renamed.ids ∧ name e.2 ∈ renamed.ids) :
    Renames name (d.connect e known) (renamed.connect (name e.1, name e.2) known') where
  modules := renames.modules
  edges := by
    have present : (name e.1, name e.2) ∈ renamed.edges ↔ e ∈ d.edges := by
      rw [renames.edges, List.mem_map]
      refine ⟨?_, fun member => ⟨e, member, rfl⟩⟩
      rintro ⟨other, member, same⟩
      obtain ⟨source, target⟩ := Prod.mk.inj same
      obtain ⟨first, second⟩ := d.closed other member
      have found : other = e := Prod.ext (renames.injective _ first _ known.1 source)
        (renames.injective _ second _ known.2 target)
      exact found ▸ member
    simp only [Diagram.connect, present]
    split
    · exact renames.edges
    · rw [List.map_append, renames.edges]
      rfl

end Renames

theorem renames_empty (name : String → String) : Renames name .empty .empty := ⟨rfl, rfl⟩

end Diagram
end Graph
end ModuleBundler
