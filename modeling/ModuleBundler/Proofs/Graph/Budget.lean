import ModuleBundler.Proofs.Graph.Order

/-! What it takes to search a whole graph under a checkpoint. A search polls before it enters
a module along an edge, but not before it enters one that it starts from. So it takes
one poll for each module that some earlier start reaches, and on a graph that has
modules this is less than their number. -/
namespace ModuleBundler.Graph

open Cancellation Relation

/-- The modules that searches from some starts, in turn, enter along an edge. -/
structure Met (g : Graph) (starts met : List String) : Prop where
  once : met.Nodup
  mem_iff : ∀ v, v ∈ met ↔ v ∈ g.moduleIds ∧ ∃ u ∈ starts.takeWhile (· ≠ v), g.Reaches u v

variable {g : Graph} {starts earlier left met : List String} {entered final : OrderedSet String}
  {found : List (List String)}

namespace Searches

theorem explores (searches : Searches g entered starts found left met final) :
    Explores g [] entered starts found left final := by
  induction searches with
  | done => exact .done
  | known seen _ ih => exact .known List.not_mem_nil seen ih
  | root fresh row inner _ ih => exact .enter List.not_mem_nil fresh row inner ih

theorem sublist (searches : Searches g entered starts found left met final) : met.Sublist left := by
  induction searches with
  | done => exact .refl _
  | known _ _ ih => exact ih
  | root _ _ _ _ ih => exact (List.Sublist.refl _).append (ih.cons _)

/-- What is left has been entered along an edge if an earlier start covers it. -/
theorem mem_met (searches : Searches g entered starts found left met final)
    (covered : ∀ id, id ∈ entered ↔ g.Covers earlier id) (v : String) :
    v ∈ met ↔ v ∈ left ∧ g.Covers (earlier ++ starts.takeWhile (· ≠ v)) v := by
  induction searches generalizing earlier with
  | done => simp
  | @known entered start rest found left met final seen searches ih =>
    have covers := (covered start).mp seen
    rw [ih fun id => (covered id).trans covers.concat_iff.symm]
    refine and_congr_right fun leaves => ?_
    have apart : v ≠ start := fun same =>
      searches.explores.nodup_left.2 v leaves (same ▸ seen)
    rw [List.takeWhile_cons_of_pos (by simpa using apart.symm), List.append_assoc,
      List.singleton_append]
  | @root entered start rest targets found inner middle found' outer met final fresh row explores
      searches ih =>
    obtain ⟨isBlock, covered'⟩ := explores.isBlock covered fresh row
    have uncovered : ¬ g.Covers earlier start := fun covers => fresh ((covered start).mpr covers)
    have distinct := (root fresh row explores searches).explores.nodup_left.1
    obtain ⟨-, behind, apart⟩ := List.nodup_append.mp distinct
    have once : start ∉ inner ++ met := by
      intro member
      rcases List.mem_append.mp member with deep | later
      · exact apart start deep start List.mem_cons_self rfl
      · exact (List.nodup_cons.mp behind).1 (searches.sublist.subset later)
    by_cases same : v = start
    · subst same
      rw [List.takeWhile_cons_of_neg (by simp), List.append_nil]
      exact iff_of_false once fun both => uncovered both.2
    · have ahead : earlier ++ (start :: rest).takeWhile (· ≠ v) =
          earlier ++ [start] ++ rest.takeWhile (· ≠ v) := by
        rw [List.takeWhile_cons_of_pos (by simpa using Ne.symm same), List.append_assoc,
          List.singleton_append]
      rw [ahead, List.mem_append, List.mem_append, List.mem_cons, ih covered']
      by_cases deep : v ∈ inner
      · have reaches := ((isBlock.members uncovered v).mp (List.mem_append_left _ deep)).1
        have covers : g.Covers (earlier ++ [start] ++ rest.takeWhile (· ≠ v)) v :=
          ⟨start, by simp, reaches⟩
        exact iff_of_true (.inl deep) ⟨.inl deep, covers⟩
      · simp [deep, same]

end Searches

/-- Searches that start from all modules in turn, and which of them they meet. -/
theorem exists_searches {ms : List Mutation} (inside : ∀ id ∈ starts, id ∈ (ofMutations ms).moduleIds)
    (all : ∀ id ∈ (ofMutations ms).moduleIds, id ∈ starts) :
    ∃ found left met final, Searches (ofMutations ms) ∅ starts found left met final ∧
      (ofMutations ms).Met starts met ∧
      ((ofMutations ms).moduleIds ≠ [] → met.length < (ofMutations ms).moduleIds.length) := by
  have keys := keys_outgoing_ofMutations ms
  obtain ⟨found, left, final, explores⟩ :=
    exists_explores (closed_ofMutations ms) [] ∅ starts (by simp) fun id member =>
      keys ▸ inside id member
  obtain ⟨met, searches⟩ := explores.exists_searches
  have leaves : ∀ id, id ∈ left ↔ id ∈ (ofMutations ms).moduleIds := by
    intro id
    refine ⟨fun leaves => keys ▸ explores.left_inside id leaves, fun known => ?_⟩
    exact ((explores.mem_final id).mp (explores.closed.1 id (all id known))).resolve_left
      (OrderedSet.not_mem_empty id)
  have mem_iff : ∀ v, v ∈ met ↔ v ∈ (ofMutations ms).moduleIds ∧
      (ofMutations ms).Covers (starts.takeWhile (· ≠ v)) v := by
    intro v
    have unentered : ∀ id, id ∈ (∅ : OrderedSet String) ↔ (ofMutations ms).Covers [] id := by
      simp [Covers]
    rw [searches.mem_met unentered, leaves, List.nil_append]
  have once : met.Nodup := searches.sublist.nodup explores.nodup_left.1
  refine ⟨found, left, met, final, searches, ⟨once, mem_iff⟩, fun some => ?_⟩
  -- The first start is not met.
  obtain ⟨id, known⟩ := List.exists_mem_of_ne_nil _ some
  obtain ⟨first, rest, rfl⟩ := List.exists_cons_of_ne_nil (List.ne_nil_of_mem (all id known))
  have unmet : first ∉ met := by
    rw [mem_iff, List.takeWhile_cons_of_neg (by simp)]
    simp [Covers]
  have within : ∀ v ∈ first :: met, v ∈ (ofMutations ms).moduleIds :=
    List.forall_mem_cons.mpr
      ⟨inside first List.mem_cons_self, fun v member => ((mem_iff v).mp member).1⟩
  exact (List.subperm_of_subset (List.nodup_cons.mpr ⟨unmet, once⟩) within).length_le

/-- The closure of a module takes one poll for it and one for every other module that it reaches; that
of a module which is not there takes none. -/
theorem allDependencies_cost (ms : List Mutation) (id : String) : ∃ visited : List String,
    visited.Nodup ∧
    (∀ v, v ∈ visited ↔ v ∈ (ofMutations ms).moduleIds ∧
      (v = id ∨ TransGen (ofMutations ms).DependsOn id v)) ∧
    Costs (fun check => (ofMutations ms).allDependencies check id) "dependency traversal"
      visited.length := by
  have keys := keys_outgoing_ofMutations ms
  by_cases known : id ∈ (ofMutations ms).moduleIds
  · obtain ⟨all, visited, same, distinct, reached, -⟩ :=
      allDependencies_polls (closed_ofMutations ms) (contains_iff.mpr known) (keys ▸ known)
    refine ⟨visited, distinct, fun v => ?_, .of_polls all same⟩
    have inside : (ofMutations ms).Reaches id v → v ∈ (ofMutations ms).moduleIds := by
      refine fun reaches => reaches.closed (fun u v _ edge => ?_) known
      obtain ⟨targets, row, member⟩ := edge
      exact keys ▸ closed_ofMutations ms u targets row v member
    rw [reached, ← reflTransGen_iff_eq_or_transGen]
    exact ⟨fun reaches => ⟨inside reaches, reaches⟩, And.right⟩
  · have absent : (ofMutations ms).contains id = false := decide_eq_false known
    refine ⟨[], List.nodup_nil, fun v => iff_of_false List.not_mem_nil ?_, .of_throw (.unknown id) ?_⟩
    · rintro ⟨inside, rfl | walk⟩
      · exact known inside
      · obtain ⟨next, edge, -⟩ := TransGen.head'_iff.mp walk
        exact known (keys ▸ edge.mem_keys)
    · intro σ check
      rw [allDependencies, absent]
      rfl

theorem cycles_cost (ms : List Mutation) :
    ∃ met, (ofMutations ms).Met (ofMutations ms).moduleIds met ∧
      ((ofMutations ms).moduleIds ≠ [] → met.length < (ofMutations ms).moduleIds.length) ∧
      Costs (ofMutations ms).cycles "cycle detection" met.length := by
  have all : ∀ id ∈ (ofMutations ms).moduleIds, id ∈ (ofMutations ms).moduleIds :=
    fun _ known => known
  obtain ⟨found, left, met, final, searches, isMet, fewer⟩ := exists_searches all all
  refine ⟨met, isMet, fewer, .of_polls found fun check => ?_⟩
  rw [cycles, searches.cyclesFromAll_eq, bind_assoc]
  simp

theorem executionOrder_cost (ms : List Mutation) :
    ∃ met, (ofMutations ms).Met ((ofMutations ms).entryPoints ++ (ofMutations ms).moduleIds) met ∧
      ((ofMutations ms).moduleIds ≠ [] → met.length < (ofMutations ms).moduleIds.length) ∧
      Costs (ofMutations ms).executionOrder "execution ordering" met.length := by
  have marked : ∀ id ∈ (ofMutations ms).entryPoints, id ∈ (ofMutations ms).moduleIds := by
    rw [ofMutations_eq ms]
    exact Diagram.marked_toGraph
  have inside : ∀ id ∈ (ofMutations ms).entryPoints ++ (ofMutations ms).moduleIds,
      id ∈ (ofMutations ms).moduleIds := fun id member =>
    (List.mem_append.mp member).elim (marked id) fun known => known
  obtain ⟨found, left, met, final, searches, isMet, fewer⟩ :=
    exists_searches inside fun id => List.mem_append_right _
  refine ⟨met, isMet, fewer, .of_polls left fun check => ?_⟩
  rw [executionOrder, searches.orderFromAll_eq, bind_assoc]
  simp

/-- A checkpoint stops a search over a whole graph just if its budget is less than the number of
modules that the search enters along an edge; the others, at least one, are entered unasked. -/
theorem whole_searches_cost (ms : List Mutation) :
    let g := ofMutations ms
    (∃ met, g.Met g.moduleIds met ∧ (g.moduleIds ≠ [] → met.length < g.moduleIds.length) ∧
      Costs g.cycles "cycle detection" met.length) ∧
    ∃ met, g.Met (g.entryPoints ++ g.moduleIds) met ∧
      (g.moduleIds ≠ [] → met.length < g.moduleIds.length) ∧
      Costs g.executionOrder "execution ordering" met.length :=
  ⟨cycles_cost ms, executionOrder_cost ms⟩

/-- A token with one poll left is not enough for a chain of three modules. -/
theorem whole_searches_cost_chain :
    let add (id : String) : Mutation := .addModule id ∅ false 0
    let ms := [add "a", add "b", add "c", .addDependency "a" "b", .addDependency "b" "c"]
    let g := ofMutations ms
    let token : Token := ⟨some 0.5, false⟩
    (∃ stop, ((g.cycles token.check).run.run ⟨0.0, 1.0⟩).1 = .error (.interrupted stop)) ∧
      ∃ stop, ((g.executionOrder token.check).run.run ⟨0.0, 1.0⟩).1 =
        .error (.interrupted stop) := by
  intro add ms g token
  have grants : ∀ operation, Checkpoint.Grants token.check operation ⟨0.0, 1.0⟩ 1 :=
    Token.grants_of_deadline (by decide +kernel) (by decide +kernel)
  have modules : g.moduleIds = ["a", "b", "c"] := by decide +kernel
  have entries : g.entryPoints = [] := by decide +kernel
  have edge : ∀ u v, g.DependsOn u v ↔ (u, v) ∈ [("a", "b"), ("b", "c")] := by
    intro u v
    have edges : (Diagram.ofMutations ms).edges = [("a", "b"), ("b", "c")] := by decide +kernel
    rw [← edges]
    exact dependsOn_ofMutations
  have first : g.DependsOn "a" "b" := (edge _ _).mpr (by decide)
  have second : g.DependsOn "b" "c" := (edge _ _).mpr (by decide)
  have many : ∀ met, g.Met ["a", "b", "c"] met → 1 < met.length := by
    intro met isMet
    have middle : "b" ∈ met := (isMet.mem_iff _).mpr
      ⟨by rw [modules]; decide, "a", by decide, .single first⟩
    have last : "c" ∈ met := (isMet.mem_iff _).mpr
      ⟨by rw [modules]; decide, "b", by decide, .single second⟩
    have both : ∀ id ∈ ["b", "c"], id ∈ met :=
      List.forall_mem_cons.mpr ⟨middle, List.forall_mem_singleton.mpr last⟩
    exact (List.subperm_of_subset (by decide) both).length_le
  obtain ⟨⟨met, isMet, -, cycles⟩, met', isMet', -, order⟩ := whole_searches_cost ms
  have seeds : g.entryPoints ++ g.moduleIds = ["a", "b", "c"] := by rw [entries, modules]; rfl
  obtain ⟨stop, stopped⟩ := cycles.stops token.check _ 1 (grants _) (many met (modules ▸ isMet))
  obtain ⟨stop', stopped'⟩ := order.stops token.check _ 1 (grants _) (many met' (seeds ▸ isMet'))
  exact ⟨⟨stop, by rw [stopped]⟩, stop', by rw [stopped']⟩

/-- The law that a search takes one poll for each module is false: a module without edges is entered
under a token that has been cancelled before. -/
theorem lone_module_unpolled :
    ¬ ∀ (ms : List Mutation) (token : Token) (clock : Clock) (budget : Nat),
      Checkpoint.Grants token.check "cycle detection" clock budget →
        ((((ofMutations ms).cycles token.check).run.run clock).1 =
            ((ofMutations ms).cycles unchecked).result ↔
          (ofMutations ms).moduleIds.length ≤ budget) := by
  intro law
  let ms : List Mutation := [.addModule "a" ∅ false 0]
  have modules : (ofMutations ms).moduleIds = ["a"] := by decide +kernel
  obtain ⟨met, -, fewer, costs⟩ := cycles_cost ms
  rw [modules] at fewer
  have free : met.length = 0 := Nat.lt_one_iff.mp (fewer (by decide))
  have grants : Checkpoint.Grants (Token.check ⟨none, true⟩) "cycle detection" ⟨0.0, 1.0⟩ 0 :=
    Token.grants_of_cancelled rfl _ _
  have finished := (costs.affords _ _ 0 grants).mpr (Nat.le_of_eq free)
  have counted := (law ms _ _ 0 grants).mp finished
  rw [modules] at counted
  exact absurd counted (by decide)

end ModuleBundler.Graph
