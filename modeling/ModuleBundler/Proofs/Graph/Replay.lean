import ModuleBundler.Proofs.Graph.Refinement

/-! An export loses nothing. Made anew from its export, a graph has its edges grouped
by source and no longer in the order in which they were recorded. The rows of the
outgoing table do not depend on that, and no query sees the order of the incoming
rows; so every query gives the same answer, times of insertion apart. -/
namespace ModuleBundler.Graph

open Cancellation

/-- The changes that make a graph anew from its export, at times of their own. -/
def Export.mutations (e : Export) (stamp : Module → Float) : List Mutation :=
  (e.modules.map fun m => .addModule m.id m.metadata m.isEntry (stamp m)) ++
    e.dependencies.flatMap fun row => row.2.map (.addDependency row.1)

/-- Changes none of which may be refused. -/
def mutateAll (g : Graph) (ms : List Mutation) : Except Error Graph := ms.foldlM mutate g

namespace Diagram

theorem ext {d e : Diagram} (modules : d.modules = e.modules) (edges : d.edges = e.edges) :
    d = e := by
  cases d
  cases e
  cases modules
  cases edges
  rfl

def mutateAll (d : Diagram) (ms : List Mutation) : Except Error Diagram := ms.foldlM mutate d

variable {d e : Diagram} {id : String}

theorem mutateAll_toGraph (d : Diagram) (ms : List Mutation) :
    d.toGraph.mutateAll ms = (d.mutateAll ms).map toGraph := by
  induction ms generalizing d with
  | nil => rfl
  | cons m rest ih =>
    rw [Graph.mutateAll, mutateAll, List.foldlM_cons, List.foldlM_cons, mutate_toGraph]
    cases d.mutate m with
    | error e => rfl
    | ok next => exact ih next

theorem mutateAll_append {first second : List Mutation} (reached : d.mutateAll first = .ok e) :
    d.mutateAll (first ++ second) = e.mutateAll second := by
  rw [mutateAll, List.foldlM_append]
  change d.mutateAll first >>= _ = _
  rw [reached]
  rfl

/-- Modules that are new are all added, in order. -/
theorem mutateAll_add (stamp : Module → Float) (modules : List Module)
    (distinct : (d.ids ++ modules.map Module.id).Nodup) :
    ∃ e, d.mutateAll (modules.map fun m => .addModule m.id m.metadata m.isEntry (stamp m)) = .ok e ∧
      e.modules = d.modules ++ (modules.map fun m => { m with timestamp := stamp m }) ∧
      e.edges = d.edges := by
  induction modules generalizing d with
  | nil => exact ⟨d, rfl, by simp, rfl⟩
  | cons m rest ih =>
    have fresh : m.id ∉ d.ids := fun known =>
      (List.nodup_append.mp distinct).2.2 m.id known m.id (by simp) rfl
    let added := d.add { m with timestamp := stamp m } fresh
    have order : added.ids ++ rest.map Module.id = d.ids ++ (m :: rest).map Module.id := by
      simp [added, ids, add]
    obtain ⟨e, reached, modules, edges⟩ := ih (d := added) (order ▸ distinct)
    refine ⟨e, ?_, ?_, edges⟩
    · have first : d.mutate (.addModule m.id m.metadata m.isEntry (stamp m)) = .ok added :=
        dif_neg fresh
      rw [List.map_cons, mutateAll, List.foldlM_cons, first]
      exact reached
    · rw [modules]
      simp [added, add]

/-- Edges between known modules that are new are all recorded, in order. -/
theorem mutateAll_connect (edges : List Edge) (distinct : (d.edges ++ edges).Nodup)
    (known : ∀ e ∈ edges, e.1 ∈ d.ids ∧ e.2 ∈ d.ids) :
    ∃ e, d.mutateAll (edges.map fun e => .addDependency e.1 e.2) = .ok e ∧
      e.modules = d.modules ∧ e.edges = d.edges ++ edges := by
  induction edges generalizing d with
  | nil => exact ⟨d, rfl, rfl, by simp⟩
  | cons e rest ih =>
    have here := known e List.mem_cons_self
    have fresh : e ∉ d.edges := fun old =>
      (List.nodup_append.mp distinct).2.2 e old e (by simp) rfl
    have grown : (d.connect e here).edges = d.edges ++ [e] := if_neg fresh
    obtain ⟨last, reached, modules, edges⟩ := ih (d := d.connect e here)
      (by rw [grown]; simpa using distinct) fun other member =>
        known other (List.mem_cons_of_mem _ member)
    refine ⟨last, ?_, modules, ?_⟩
    · have first : d.mutate (.addDependency e.1 e.2) = .ok (d.connect e here) := by
        rw [mutate, dif_pos here.1, dif_pos here.2]
      rw [List.map_cons, mutateAll, List.foldlM_cons, first]
      exact reached
    · rw [edges, grown]
      simp

section Regrouped

/-- The edges in the order of an export: by source, in the order of the modules. -/
def grouped (d : Diagram) : List Edge :=
  d.ids.flatMap fun source => (d.row .outgoing source).toList.map fun target => (source, target)

theorem mem_grouped {edge : Edge} : edge ∈ d.grouped ↔ edge ∈ d.edges := by
  simp only [grouped, List.mem_flatMap, List.mem_map]
  constructor
  · rintro ⟨source, -, target, member, rfl⟩
    exact (mem_row_near (i := .outgoing) (e := (source, target))).mp member
  · intro member
    have listed := (mem_row_near (i := .outgoing)).mpr member
    exact ⟨edge.1, near_mem_ids member .outgoing, edge.2, listed, rfl⟩

theorem nodup_grouped : d.grouped.Nodup := by
  refine List.nodup_flatMap.mpr ⟨?_, ?_⟩
  · intro source _
    exact (d.row .outgoing source).nodup.map fun _ _ same => congrArg Prod.snd same
  · refine d.nodup_ids.imp fun {u v} apart => ?_
    intro edge inU inV
    obtain ⟨_, -, rfl⟩ := List.mem_map.mp inU
    obtain ⟨_, -, same⟩ := List.mem_map.mp inV
    exact apart (congrArg Prod.fst same).symm

/-- The same modules at other times, and the same edges by source. -/
def regrouped (d : Diagram) (stamp : Module → Float) : Diagram where
  modules := d.modules.map fun m => { m with timestamp := stamp m }
  edges := d.grouped
  distinct := by simpa [Function.comp_def] using d.distinct
  simple := nodup_grouped
  closed edge member := by simpa [Function.comp_def] using d.closed edge (mem_grouped.mp member)

variable {stamp : Module → Float}

theorem ids_regrouped : (d.regrouped stamp).ids = d.ids := by
  simp [ids, regrouped, Function.comp_def]

theorem mem_row_regrouped {i : Index} {other : String} :
    other ∈ (d.regrouped stamp).row i id ↔ other ∈ d.row i id := by
  rw [mem_row, mem_row]
  exact exists_congr fun edge => and_congr_left fun _ => mem_grouped

theorem flatMap_pick {β : Type} {keys : List String} (distinct : keys.Nodup) (f : String → List β) :
    (keys.flatMap fun key => if key = id then f key else []) = if id ∈ keys then f id else [] := by
  induction keys with
  | nil => rfl
  | cons key rest ih =>
    obtain ⟨fresh, distinct⟩ := List.nodup_cons.mp distinct
    rw [List.flatMap_cons, ih distinct]
    by_cases here : key = id
    · subst here
      simp [fresh]
    · simp [here, Ne.symm here]

/-- Grouping by source keeps the order within each group. -/
theorem row_outgoing_regrouped : (d.regrouped stamp).row .outgoing id = d.row .outgoing id := by
  have picked : ∀ source, (((d.row .outgoing source).toList.map fun target =>
      ((source, target) : Edge)).filter fun e => e.1 = id).map Prod.snd =
        if source = id then (d.row .outgoing source).toList else [] := by
    intro source
    by_cases here : source = id <;> simp [here, List.filter_map, Function.comp_def]
  have whole : ((d.regrouped stamp).row .outgoing id).toList =
      d.ids.flatMap fun source => if source = id then (d.row .outgoing source).toList else [] := by
    change (d.grouped.filter fun e => e.1 = id).map Prod.snd = _
    rw [grouped, List.filter_flatMap, List.map_flatMap]
    exact congrArg (d.ids.flatMap ·) (funext picked)
  apply OrderedSet.ext
  rw [whole, flatMap_pick d.nodup_ids]
  split
  next => rfl
  next unknown => rw [row_eq_empty unknown]; rfl

theorem entryPoints_regrouped : (d.regrouped stamp).toGraph.entryPoints = d.toGraph.entryPoints := by
  change ((d.modules.map fun m => { m with timestamp := stamp m }).filter (·.isEntry)).map Module.id =
    (d.modules.filter (·.isEntry)).map Module.id
  simp [List.filter_map, Function.comp_def]

theorem outgoing_regrouped : (d.regrouped stamp).toGraph.outgoing = d.toGraph.outgoing := by
  change Table.tabulate _ (nodup_ids _) _ = Table.tabulate _ (nodup_ids _) _
  exact Table.tabulate_congr ids_regrouped fun _ _ => row_outgoing_regrouped

theorem toExport_toGraph (d : Diagram) : d.toGraph.toExport =
    ⟨d.modules, d.ids.map fun source => (source, (d.row .outgoing source).toList),
      d.toGraph.entryPoints⟩ := by
  simp [toExport, toGraph, Table.values, rows, Table.tabulate, Function.comp_def]

/-- From nothing, the changes of an export come to the regrouped diagram. -/
theorem mutateAll_export (d : Diagram) (stamp : Module → Float) :
    empty.mutateAll (d.toGraph.toExport.mutations stamp) = .ok (d.regrouped stamp) := by
  have edges : (d.toGraph.toExport.dependencies.flatMap fun row =>
      row.2.map (Mutation.addDependency row.1)) =
        d.grouped.map fun e => .addDependency e.1 e.2 := by
    simp [toExport_toGraph, grouped, List.flatMap_map, List.map_flatMap, Function.comp_def]
  obtain ⟨middle, added, modules', edges'⟩ :=
    mutateAll_add (d := empty) stamp d.modules (by simpa [empty, ids] using d.distinct)
  have ids' : middle.ids = d.ids := by
    simp [ids, modules', empty, Function.comp_def]
  obtain ⟨last, connected, modules'', edges''⟩ := mutateAll_connect (d := middle) d.grouped
    (by simpa [edges', empty] using nodup_grouped)
    fun e member => ids' ▸ d.closed e (mem_grouped.mp member)
  rw [Export.mutations, edges, toExport_toGraph, mutateAll_append added, connected]
  congr 1
  apply ext
  · simp [modules'', modules', empty, regrouped]
  · simp [edges'', edges', empty, regrouped]

theorem describe_regrouped (d : Diagram) (stamp : Module → Float) (id : String) :
    ∃ t, (d.regrouped stamp).toGraph.describe id =
      (d.toGraph.describe id).map fun known => known.insert "timestamp" (.real t) := by
  have nodes : (d.regrouped stamp).toGraph.nodes.get? id =
      (d.toGraph.nodes.get? id).map fun m => { m with timestamp := stamp m } := by
    simp only [Table.get?, toGraph, regrouped, List.map_map, List.find?_map, Option.map_map]
    rfl
  cases found : d.toGraph.nodes.get? id with
  | none =>
    rw [found] at nodes
    refine ⟨0.0, ?_⟩
    simp only [describe, require, found, nodes, Option.map_none]
    rfl
  | some m =>
    rw [found] at nodes
    refine ⟨stamp m, ?_⟩
    simp only [describe, require, found, nodes, Option.map_some]
    exact congrArg Except.ok (Table.insert_insert _ _ _ _).symm

end Regrouped

end Diagram

/-- Whatever changes a graph has been through: made anew from its export, at whatever times, it
answers every query as before. -/
theorem replayed_export_agrees (ms : List Mutation) (stamp : Module → Float) :
    let g := ofMutations ms
    ∃ h, empty.mutateAll (g.toExport.mutations stamp) = .ok h ∧
      h.moduleIds = g.moduleIds ∧ h.entryPoints = g.entryPoints ∧
      (∀ id, h.dependencies id = g.dependencies id) ∧
      -- Dependents are a set: the same members, in an order that nobody sees.
      (∀ id, (h.dependents id).map (fun row other => other ∈ row) =
        (g.dependents id).map fun row other => other ∈ row) ∧
      (∀ (σ : Type) (check : Checkpoint σ), h.cycles check = g.cycles check ∧
        h.executionOrder check = g.executionOrder check ∧
        ∀ id, h.allDependencies check id = g.allDependencies check id) ∧
      h.inconsistencies = g.inconsistencies ∧
      h.toExport = { g.toExport with
        modules := g.toExport.modules.map fun m => { m with timestamp := stamp m } } ∧
      ∀ id, ∃ t, h.describe id =
        (g.describe id).map fun known => known.insert "timestamp" (.real t) := by
  intro g
  let d := Diagram.ofMutations ms
  have same : g = d.toGraph := ofMutations_eq ms
  rw [same]
  have ids : (d.regrouped stamp).toGraph.moduleIds = d.toGraph.moduleIds := by
    rw [Diagram.moduleIds_toGraph, Diagram.moduleIds_toGraph, Diagram.ids_regrouped]
  have outgoing : (d.regrouped stamp).toGraph.outgoing = d.toGraph.outgoing :=
    Diagram.outgoing_regrouped
  have entries : (d.regrouped stamp).toGraph.entryPoints = d.toGraph.entryPoints :=
    Diagram.entryPoints_regrouped
  refine ⟨(d.regrouped stamp).toGraph, ?_, ids, entries, ?_, ?_, ?_, ?_, ?_,
    d.describe_regrouped stamp⟩
  · exact (Diagram.mutateAll_toGraph .empty _).trans (by rw [d.mutateAll_export]; rfl)
  · intro id
    rw [Diagram.dependencies_toGraph, Diagram.dependencies_toGraph, Diagram.ids_regrouped,
      Diagram.row_outgoing_regrouped]
  · intro id
    rw [Diagram.dependents_toGraph, Diagram.dependents_toGraph, Diagram.ids_regrouped]
    split
    next =>
      refine congrArg Except.ok (funext fun other => propext ?_)
      exact Diagram.mem_row_regrouped
    next => rfl
  · intro σ check
    exact ⟨cycles_congr outgoing ids check, executionOrder_congr outgoing ids entries check,
      allDependencies_congr outgoing ids check⟩
  · rw [Diagram.inconsistencies_toGraph, Diagram.inconsistencies_toGraph]
  · rw [Diagram.toExport_toGraph, Diagram.toExport_toGraph, entries, Diagram.ids_regrouped]
    simp only [Diagram.row_outgoing_regrouped]
    rfl

/-- A graph with a cycle, from which a module has been removed and added again without its edge: made
anew an hour later, it has the same modules, entry points and edges, and what searches find. -/
theorem replayed_export_agrees_removed :
    let add (id : String) (isEntry : Bool) : Mutation := .addModule id ∅ isEntry 0
    let ms := [add "b" false, add "old" false, add "a" true, .addDependency "a" "b",
      .addDependency "old" "a", .addDependency "b" "a", .removeModule "old", add "old" true]
    let g := ofMutations ms
    ∃ h, empty.mutateAll (g.toExport.mutations fun _ => 3600) = .ok h ∧
      h.moduleIds = ["b", "a", "old"] ∧ h.entryPoints = ["a", "old"] ∧
      (h.dependencies "b").toOption = some (.ofList ["a"]) ∧
      (h.dependencies "old").toOption = some ∅ ∧
      (h.cycles unchecked).result = (g.cycles unchecked).result ∧
      (h.executionOrder unchecked).result = (g.executionOrder unchecked).result ∧
      h.toExport.modules.map (·.timestamp) = List.replicate 3 3600 := by
  intro add ms g
  obtain ⟨h, made, ids, entries, dependencies, -, searches, -, written, -⟩ :=
    replayed_export_agrees ms fun _ => 3600
  obtain ⟨cycles, order, -⟩ := searches _ unchecked
  have count : g.toExport.modules.length = 3 := by decide +kernel
  have rows : (g.dependencies "b").toOption = some (.ofList ["a"]) ∧
      (g.dependencies "old").toOption = some ∅ := by decide +kernel
  refine ⟨h, made, ?_, ?_, ?_, ?_, congrArg _ cycles, congrArg _ order, ?_⟩
  · rw [ids]
    decide +kernel
  · rw [entries]
    decide +kernel
  · rw [dependencies]
    exact rows.1
  · rw [dependencies]
    exact rows.2
  · rw [written, List.map_map, ← count]
    exact List.map_const'

end ModuleBundler.Graph
