import ModuleBundler.Proofs.Graph.Cycles

/-! What the closure of a module holds: whatever a walk of one edge or more leads to.
Any walk can be cut short where it comes by a module again, so a walk that returns
leaves a cycle of distinct modules behind, and the modules that are part of their own
closure are those that lie on a cycle. -/
namespace ModuleBundler.Graph

open Cancellation Relation

variable {g : Graph} {id u v : String}

/-- What is reached is reached through distinct modules. -/
theorem Reaches.exists_path (reaches : g.Reaches u v) :
    ∃ path : List String, path.IsChain g.DependsOn ∧ path.Nodup ∧
      path.head? = some u ∧ path.getLast? = some v := by
  induction reaches with
  | refl => exact ⟨[u], .singleton u, List.nodup_singleton u, rfl, rfl⟩
  | @tail v w _ edge ih =>
    obtain ⟨path, steps, distinct, first, last⟩ := ih
    by_cases again : w ∈ path
    · -- The walk has been there: what it did since is left out.
      obtain ⟨before, after, rfl⟩ := List.append_of_mem again
      rw [← List.singleton_append, ← List.append_assoc] at steps distinct first
      refine ⟨before ++ [w], steps.left_of_append, distinct.of_append_left, ?_, by simp⟩
      rwa [List.head?_append_of_ne_nil _ (by simp)] at first
    · refine ⟨path ++ [w], ?_, ?_, ?_, by simp⟩
      · apply steps.append (.singleton w)
        intro x final y here
        rw [last, Option.mem_some_iff] at final
        rw [List.head?_singleton, Option.mem_some_iff] at here
        subst final here
        exact edge
      · exact distinct.append (List.nodup_singleton w) (by simpa using again)
      · rw [List.head?_append, first, Option.some_or]

theorem exists_isCycle (walk : TransGen g.DependsOn id id) : ∃ c, g.IsCycle c ∧ id ∈ c := by
  obtain ⟨before, there, back⟩ := TransGen.tail'_iff.mp walk
  obtain ⟨path, steps, distinct, first, last⟩ := Reaches.exists_path there
  have member : id ∈ path := List.mem_of_head? first
  refine ⟨path, ⟨⟨List.ne_nil_of_mem member, steps, ?_⟩, distinct⟩, member⟩
  rintro ⟨u, v⟩ closing
  rw [closing?_eq_some, first, last, Option.some_inj, Option.some_inj] at closing
  obtain ⟨rfl, rfl⟩ := closing
  exact back

/-- Whatever changes a graph has been through, the closure of a module comes to an end and is the
set of what walks of one edge or more lead to. The module itself is in it just if it lies on a
cycle; one that depends on itself is a cycle of its own. -/
theorem closure_holds_reached (ms : List Mutation) (id : String)
    (known : id ∈ (ofMutations ms).moduleIds) :
    let g := ofMutations ms
    ∃ all, (g.allDependencies unchecked id).result = .ok all ∧
      (∀ v, v ∈ all ↔ TransGen g.DependsOn id v) ∧
      (id ∈ all ↔ ∃ c, g.IsCycle c ∧ id ∈ c) ∧ (g.IsCycle [id] ↔ g.DependsOn id id) := by
  intro g
  have row : id ∈ g.outgoing.keys := keys_outgoing_ofMutations ms ▸ known
  obtain ⟨all, met, reached⟩ :=
    allDependencies_eq (closed_ofMutations ms) (contains_iff.mpr known) row
  refine ⟨all, by rw [met, result_pure], reached, ?_, ?_⟩
  · rw [reached]
    constructor
    · exact exists_isCycle
    · rintro ⟨c, cycle, member⟩
      exact cycle.transGen member
  · constructor
    · exact fun cycle => cycle.closes (id, id) rfl
    · intro edge
      refine ⟨⟨List.cons_ne_nil _ _, .singleton id, fun e closing => ?_⟩, List.nodup_singleton id⟩
      cases closing
      exact edge

theorem closure_holds_reached_outside :
    let add (id : String) : Mutation := .addModule id ∅ false 0
    let ms := [add "d", add "a", add "b", .addDependency "d" "a", .addDependency "a" "b",
      .addDependency "b" "a"]
    let g := ofMutations ms
    "d" ∈ g.moduleIds ∧ ∃ all, (g.allDependencies unchecked "d").result = .ok all ∧
      "a" ∈ all ∧ "b" ∈ all ∧ "d" ∉ all := by
  intro add ms g
  have known : "d" ∈ g.moduleIds := by decide +kernel
  obtain ⟨all, met, reached, -, -⟩ := closure_holds_reached ms "d" known
  have edge : ∀ u v, g.DependsOn u v ↔ (u, v) ∈ [("d", "a"), ("a", "b"), ("b", "a")] := by
    intro u v
    have edges : (Diagram.ofMutations ms).edges = [("d", "a"), ("a", "b"), ("b", "a")] := by
      decide +kernel
    rw [← edges]
    exact dependsOn_ofMutations
  have first : g.DependsOn "d" "a" := (edge _ _).mpr (by decide)
  have second : g.DependsOn "a" "b" := (edge _ _).mpr (by decide)
  refine ⟨known, all, met, (reached _).mpr (.single first),
    (reached _).mpr (.tail (.single first) second), fun inside => ?_⟩
  obtain ⟨before, -, back⟩ := TransGen.tail'_iff.mp ((reached _).mp inside)
  simpa using (edge _ _).mp back

end ModuleBundler.Graph
