import ModuleBundler.Proofs.Graph.Cycles

/-! The order in which modules are executed. Searches start from seeds, the entry
points and then all modules, and each leaves a block: what its seed reaches and no
earlier seed does, the seed itself last. Inside and across blocks a module stands
after what it depends on, unless that depends on it in turn. -/
namespace ModuleBundler.Graph

open Cancellation Relation

/-- What a search from earlier seeds has dealt with. -/
def Covers (g : Graph) (seeds : List String) (id : String) : Prop :=
  ∃ seed ∈ seeds, g.Reaches seed id

/-- What a seed adds to an order that deals with earlier seeds. -/
structure IsBlock (g : Graph) (earlier : List String) (seed : String) (block : List String) :
    Prop where
  covered : g.Covers earlier seed → block = []
  last : ¬ g.Covers earlier seed → block.getLast? = some seed
  members : ¬ g.Covers earlier seed →
    ∀ id, id ∈ block ↔ g.Reaches seed id ∧ ¬ g.Covers earlier id

/-- An order is made of the blocks of seeds, one after another. -/
def InBlocks (g : Graph) (earlier seeds order : List String) : Prop :=
  ∃ blocks : List (List String), order = blocks.flatten ∧ blocks.length = seeds.length ∧
    ∀ i seed, seeds[i]? = some seed →
      ∃ block, blocks[i]? = some block ∧ g.IsBlock (earlier ++ seeds.take i) seed block

variable {g : Graph} {earlier seeds left : List String} {entered final : OrderedSet String}
  {found : List (List String)} {seed u v id : String}

theorem Covers.of_dependsOn (covers : g.Covers earlier u) (edge : g.DependsOn u v) :
    g.Covers earlier v := by
  obtain ⟨seed, member, reaches⟩ := covers
  exact ⟨seed, member, reaches.tail edge⟩

theorem covers_concat :
    g.Covers (earlier ++ [seed]) id ↔ g.Covers earlier id ∨ g.Reaches seed id := by
  simp [Covers, or_and_right, exists_or]

/-- A seed that is covered covers nothing more. -/
theorem Covers.concat_iff (covers : g.Covers earlier seed) :
    g.Covers (earlier ++ [seed]) id ↔ g.Covers earlier id := by
  rw [covers_concat]
  refine ⟨fun either => either.elim (fun covers => covers) fun reaches => ?_, .inl⟩
  exact reaches.closed (fun u v => Covers.of_dependsOn) covers

theorem InBlocks.cons {block order : List String} (isBlock : g.IsBlock earlier seed block)
    (inBlocks : g.InBlocks (earlier ++ [seed]) seeds order) :
    g.InBlocks earlier (seed :: seeds) (block ++ order) := by
  obtain ⟨blocks, rfl, length, each⟩ := inBlocks
  refine ⟨block :: blocks, rfl, by simp [length], fun i other here => ?_⟩
  cases i with
  | zero =>
    cases here
    exact ⟨block, rfl, by simpa using isBlock⟩
  | succ i =>
    obtain ⟨later, found, isBlock⟩ := each i other here
    exact ⟨later, found, by simpa using isBlock⟩

namespace Explores

/-- From a seed that is not covered, exactly what it reaches and no earlier one does is left. -/
theorem isBlock {targets : OrderedSet String} {middle : OrderedSet String} {inner : List String}
    (covered : ∀ id, id ∈ entered ↔ g.Covers earlier id) (fresh : seed ∉ entered)
    (row : g.outgoing.get? seed = some targets)
    (explores : Explores g [seed] (entered.insert seed) targets.toList found inner middle) :
    g.IsBlock earlier seed (inner ++ [seed]) ∧
      ∀ id, id ∈ middle ↔ g.Covers (earlier ++ [seed]) id := by
  obtain ⟨ahead, behind⟩ := explores.closed
  have inside : ∀ id, id ∈ middle ↔ g.Covers earlier id ∨ id ∈ inner ++ [seed] := by
    intro id
    rw [explores.mem_final, OrderedSet.mem_insert, covered, List.mem_append, List.mem_singleton]
    grind
  have reached : ∀ id ∈ inner ++ [seed], g.Reaches seed id := by
    intro id member
    rcases List.mem_append.mp member with deep | here
    · obtain ⟨target, listed, reaches⟩ := explores.reached id deep
      exact .head ((dependsOn_iff row).mpr listed) reaches
    · rw [List.mem_singleton.mp here]
  have closed : ∀ u v, u ∈ middle → g.DependsOn u v → v ∈ middle := by
    intro u v member edge
    rcases (inside u).mp member with covers | member
    · exact (inside v).mpr (.inl (covers.of_dependsOn edge))
    · rcases List.mem_append.mp member with deep | here
      · exact behind u deep v edge
      · rw [List.mem_singleton.mp here] at edge
        exact ahead v ((dependsOn_iff row).mp edge)
  have all : ∀ id, g.Reaches seed id → id ∈ middle := fun id reaches =>
    reaches.closed closed ((inside seed).mpr (.inr (by simp)))
  have uncovered : ∀ id ∈ inner ++ [seed], ¬ g.Covers earlier id := by
    intro id member covers
    rw [← covered] at covers
    rcases List.mem_append.mp member with deep | here
    · exact explores.nodup_left.2 id deep (OrderedSet.mem_insert.mpr (.inl covers))
    · exact fresh (List.mem_singleton.mp here ▸ covers)
  constructor
  · refine ⟨fun covers => absurd ((covered seed).mpr covers) fresh, by simp, fun _ id => ?_⟩
    refine ⟨fun member => ⟨reached id member, uncovered id member⟩, ?_⟩
    rintro ⟨reaches, apart⟩
    exact ((inside id).mp (all id reaches)).resolve_left apart
  · intro id
    rw [inside, covers_concat]
    constructor
    · exact Or.imp_right (reached id)
    · rintro (covers | reaches)
      · exact .inl covers
      · exact (inside id).mp (all id reaches)

/-- What is left from seeds falls into their blocks. -/
theorem inBlocks (explores : Explores g [] entered seeds found left final)
    (covered : ∀ id, id ∈ entered ↔ g.Covers earlier id) : g.InBlocks earlier seeds left := by
  induction seeds generalizing entered earlier left found with
  | nil =>
    cases explores
    exact ⟨[], rfl, rfl, by simp⟩
  | cons first rest ih =>
    cases explores with
    | back onPath => cases onPath
    | known _ seen later =>
      have covers := (covered first).mp seen
      have nothing : g.IsBlock earlier first [] :=
        ⟨fun _ => rfl, fun apart => absurd covers apart, fun apart => absurd covers apart⟩
      refine InBlocks.cons nothing (ih later fun id => ?_)
      rw [covered, covers.concat_iff]
    | @enter _ _ _ _ _ _ inner _ _ outer _ _ fresh row explores later =>
      obtain ⟨isBlock, covered'⟩ := explores.isBlock covered fresh row
      have whole : inner ++ first :: outer = (inner ++ [first]) ++ outer := by simp
      rw [whole]
      exact InBlocks.cons isBlock (ih later covered')

end Explores

/-- The execution order of every graph that changes can make: each module once, after what it
depends on wherever no cycle prevents it, and in blocks by seed. -/
theorem executionOrder_blocks (ms : List Mutation) :
    let g := ofMutations ms
    let seeds := g.entryPoints ++ g.moduleIds
    ∃ order, (g.executionOrder unchecked).result = .ok order ∧ order.Nodup ∧
      (∀ id, id ∈ order ↔ id ∈ g.moduleIds) ∧
      (∀ u v, g.DependsOn u v → ¬ g.Reaches v u → [v, u].Sublist order) ∧
      g.InBlocks [] seeds order := by
  intro g seeds
  have keys : g.outgoing.keys = g.moduleIds := keys_outgoing_ofMutations ms
  have marked : ∀ id ∈ g.entryPoints, id ∈ g.moduleIds := by
    rw [show g = _ from ofMutations_eq ms]
    exact Diagram.marked_toGraph
  have known : ∀ id ∈ seeds, id ∈ g.outgoing.keys := by
    intro id member
    rw [keys]
    exact (List.mem_append.mp member).elim (marked id) fun known => known
  obtain ⟨found, order, final, explores⟩ :=
    exists_explores (closed_ofMutations ms) [] ∅ seeds (by simp) known
  have leaves : ∀ id ∈ g.moduleIds, id ∈ order := fun id known =>
    ((explores.mem_final id).mp (explores.closed.1 id (List.mem_append_right _ known))).resolve_left
      (OrderedSet.not_mem_empty id)
  refine ⟨order, ?_, explores.nodup_left.1, fun id => ⟨fun left => ?_, leaves id⟩, ?_, ?_⟩
  · rw [executionOrder, explores.orderFromAll_eq, pure_bind, result_pure]
    simp
  · exact keys ▸ explores.left_inside id left
  · intro u v edge apart
    have left := leaves u (keys ▸ edge.mem_keys)
    rcases explores.settled.2 u left v edge with closing | ⟨none, -⟩ | before
    · -- The edge would close a cycle, on which its target reaches its source.
      obtain ⟨c, member, closing⟩ := List.mem_map.mp closing
      obtain ⟨isCycle, -⟩ := explores.isCycle (.start ∅ _) c member
      obtain ⟨last, -⟩ := closing?_eq_some.mp closing
      exact absurd (isCycle.reaches closing u (List.mem_of_getLast? last)).1 apart
    · exact absurd none (OrderedSet.not_mem_empty v)
    · exact before
  · exact explores.inBlocks (by simp [Covers])

/-- A cycle behind an entry point that is added last: what the cycle depends on goes before it and
the entry point after it. The block of the entry point comes first, and a module that it does not
reach is left for a later one. -/
theorem executionOrder_blocks_cyclic :
    let add (id : String) (isEntry : Bool) : Mutation := .addModule id ∅ isEntry 0
    let ms := [add "top" false, add "a" false, add "b" false, add "util" false, add "main" true,
      .addDependency "top" "main", .addDependency "main" "a", .addDependency "a" "b",
      .addDependency "b" "a", .addDependency "b" "util"]
    let g := ofMutations ms
    ∃ order, (g.executionOrder unchecked).result = .ok order ∧ order.Nodup ∧
      (∀ id, id ∈ order ↔ id ∈ ["top", "a", "b", "util", "main"]) ∧
      ["util", "b"].Sublist order ∧ ["a", "main"].Sublist order ∧ ["main", "top"].Sublist order ∧
      g.InBlocks [] ["main", "top", "a", "b", "util", "main"] order := by
  intro add ms g
  obtain ⟨order, met, once, all, after, blocks⟩ := executionOrder_blocks ms
  have ids : g.moduleIds = ["top", "a", "b", "util", "main"] := by decide +kernel
  have seeds : g.entryPoints ++ g.moduleIds = ["main", "top", "a", "b", "util", "main"] := by
    decide +kernel
  have edges : (Diagram.ofMutations ms).edges = [("top", "main"), ("main", "a"), ("a", "b"),
      ("b", "a"), ("b", "util")] := by decide +kernel
  have edge : ∀ {u v}, (u, v) ∈ (Diagram.ofMutations ms).edges → g.DependsOn u v :=
    dependsOn_ofMutations.mpr
  -- What no edge leaves is not left along any number of edges.
  have down : ∀ lower : List String,
      (∀ e ∈ (Diagram.ofMutations ms).edges, e.1 ∈ lower → e.2 ∈ lower) →
      ∀ {u v}, g.Reaches u v → u ∈ lower → v ∈ lower := fun lower closed u v reaches =>
    reaches.closed fun _ _ inside step => closed _ (dependsOn_ofMutations.mp step) inside
  rw [edges] at edge down
  refine ⟨order, met, once, ids ▸ all, ?_, ?_, ?_, seeds ▸ blocks⟩
  · refine after "b" "util" (edge (by decide)) fun back => ?_
    exact absurd (down ["util"] (by decide) back (by decide)) (by decide)
  · refine after "main" "a" (edge (by decide)) fun back => ?_
    exact absurd (down ["a", "b", "util"] (by decide) back (by decide)) (by decide)
  · refine after "top" "main" (edge (by decide)) fun back => ?_
    exact absurd (down ["main", "a", "b", "util"] (by decide) back (by decide)) (by decide)

end ModuleBundler.Graph
