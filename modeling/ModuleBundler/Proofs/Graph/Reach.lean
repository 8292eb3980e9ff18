import Mathlib.Logic.Relation
import ModuleBundler.Proofs.Graph.Refinement

/-! Reachability along the outgoing table. The closure search keeps a stack that may
hold a module several times and modules entered since. What carries it is that every
target of a module entered is entered or on the stack: when the stack is empty, the
modules entered are closed under edges. -/
namespace ModuleBundler.Graph

open Cancellation Relation

variable {g : Graph} {id other : String}

/-- What the outgoing table says of two modules. -/
def DependsOn (g : Graph) (source target : String) : Prop :=
  ∃ targets, g.outgoing.get? source = some targets ∧ target ∈ targets

/-- Along any number of edges, none included. -/
abbrev Reaches (g : Graph) : String → String → Prop := ReflTransGen g.DependsOn

theorem dependsOn_iff {targets : OrderedSet String} (row : g.outgoing.get? id = some targets) :
    g.DependsOn id other ↔ other ∈ targets := by
  constructor
  · rintro ⟨others, found, member⟩
    rw [row] at found
    cases found
    exact member
  · exact fun member => ⟨targets, row, member⟩

theorem DependsOn.mem_keys (edge : g.DependsOn id other) : id ∈ g.outgoing.keys := by
  obtain ⟨targets, row, -⟩ := edge
  exact Table.mem_keys_of_get? row

theorem Reaches.closed {inside : String → Prop} (reaches : g.Reaches id other)
    (closed : ∀ u v, inside u → g.DependsOn u v → inside v) (start : inside id) :
    inside other := by
  induction reaches with
  | refl => exact start
  | tail _ edge ih => exact closed _ _ ih edge

namespace Diagram

variable {d : Diagram}

theorem keys_outgoing : d.toGraph.outgoing.keys = d.ids := keys_table_toGraph .outgoing

theorem dependsOn_toGraph : d.toGraph.DependsOn id other ↔ (id, other) ∈ d.edges :=
  (lists_toGraph (i := .outgoing)).trans (mem_row_near (i := .outgoing) (e := (id, other)))

end Diagram

theorem closed_ofMutations (ms : List Mutation) : (ofMutations ms).Closed :=
  ofMutations_eq ms ▸ Diagram.closed_toGraph

theorem dependsOn_ofMutations {ms : List Mutation} : (ofMutations ms).DependsOn id other ↔
    (id, other) ∈ (Diagram.ofMutations ms).edges := by
  rw [ofMutations_eq, Diagram.dependsOn_toGraph]

theorem keys_outgoing_ofMutations (ms : List Mutation) :
    (ofMutations ms).outgoing.keys = (ofMutations ms).moduleIds := by
  rw [ofMutations_eq, Diagram.keys_outgoing, Diagram.moduleIds_toGraph]

section Closure

/-- What holds of the modules entered, the targets met, and the stack. -/
structure Closing (g : Graph) (id : String) (entered met : OrderedSet String)
    (stack : List String) : Prop where
  met_iff : ∀ v, v ∈ met ↔ ∃ u ∈ entered, g.DependsOn u v
  covered : ∀ u ∈ entered, ∀ v, g.DependsOn u v → v ∈ entered ∨ v ∈ stack
  reached : ∀ u, u ∈ entered ∨ u ∈ stack → g.Reaches id u
  started : id ∈ entered ∨ id ∈ stack

namespace Closing

variable {entered met targets : OrderedSet String} {current : String} {stack : List String}

theorem drop (closing : g.Closing id entered met (current :: stack)) (seen : current ∈ entered) :
    g.Closing id entered met stack where
  met_iff := closing.met_iff
  covered u member v edge := by
    rcases closing.covered u member v edge with old | pending
    · exact .inl old
    · rcases List.mem_cons.mp pending with rfl | later
      · exact .inl seen
      · exact .inr later
  reached u member := closing.reached u (member.imp_right (List.mem_cons_of_mem _))
  started := by
    rcases closing.started with old | pending
    · exact .inl old
    · rcases List.mem_cons.mp pending with rfl | later
      · exact .inl seen
      · exact .inr later

theorem enter (closing : g.Closing id entered met (current :: stack))
    (row : g.outgoing.get? current = some targets) :
    g.Closing id (entered.insert current) (met.insertAll targets.toList)
      ((targets.toList.filter (· ∉ entered.insert current)).reverse ++ stack) where
  met_iff v := by
    rw [OrderedSet.mem_insertAll, closing.met_iff, ← OrderedSet.mem_def, ← dependsOn_iff row]
    simp only [OrderedSet.mem_insert]
    constructor
    · rintro (⟨u, member, edge⟩ | edge)
      · exact ⟨u, .inl member, edge⟩
      · exact ⟨current, .inr rfl, edge⟩
    · rintro ⟨u, member | rfl, edge⟩
      · exact .inl ⟨u, member, edge⟩
      · exact .inr edge
  covered u member v edge := by
    by_cases known : v ∈ entered.insert current
    · exact .inl known
    · right
      rw [List.mem_append, List.mem_reverse, List.mem_filter]
      rcases OrderedSet.mem_insert.mp member with old | rfl
      · right
        rcases closing.covered u old v edge with seen | pending
        · exact absurd (OrderedSet.mem_insert.mpr (.inl seen)) known
        · rcases List.mem_cons.mp pending with rfl | later
          · exact absurd (OrderedSet.mem_insert.mpr (.inr rfl)) known
          · exact later
      · exact .inl ⟨(dependsOn_iff row).mp edge, decide_eq_true known⟩
  reached u member := by
    have here : g.Reaches id current := closing.reached current (.inr List.mem_cons_self)
    rw [OrderedSet.mem_insert, List.mem_append, List.mem_reverse, List.mem_filter] at member
    rcases member with (old | rfl) | (⟨target, -⟩ | later)
    · exact closing.reached u (.inl old)
    · exact here
    · exact here.tail ((dependsOn_iff row).mpr target)
    · exact closing.reached u (.inr (List.mem_cons_of_mem _ later))
  started := by
    rw [OrderedSet.mem_insert]
    rcases closing.started with old | pending
    · exact .inl (.inl old)
    · rcases List.mem_cons.mp pending with rfl | later
      · exact .inl (.inr rfl)
      · exact .inr (List.mem_append_right _ later)

/-- With nothing on the stack, everything that can be reached has been entered. -/
theorem mem_entered (closing : g.Closing id entered met []) (u : String) :
    u ∈ entered ↔ g.Reaches id u := by
  have covered : ∀ u v, u ∈ entered → g.DependsOn u v → v ∈ entered := fun u v member edge =>
    (closing.covered u member v edge).resolve_right List.not_mem_nil
  exact ⟨fun member => closing.reached u (.inl member), fun reaches =>
    reaches.closed covered (closing.started.resolve_right List.not_mem_nil)⟩

/-- With nothing on the stack, the targets met are what can be reached along an edge. -/
theorem mem_met (closing : g.Closing id entered met []) (v : String) :
    v ∈ met ↔ TransGen g.DependsOn id v := by
  rw [closing.met_iff, TransGen.tail'_iff]
  exact exists_congr fun u => and_congr_left fun _ => closing.mem_entered u

end Closing

/-- The search polls once for each module that it enters, however often it met that on its stack. -/
theorem closureFrom_eq (closed : g.Closed) (entered met : OrderedSet String) (stack : List String)
    (inside : ∀ id ∈ stack, id ∈ g.outgoing.keys) (closing : g.Closing id entered met stack) :
    ∃ (all : OrderedSet String) (visited : List String),
      (∀ {σ : Type} (check : Checkpoint σ), closureFrom g check entered met stack =
        (do
          polls check "dependency traversal" visited.length
          pure all)) ∧
      visited.Nodup ∧ (∀ v, v ∈ visited ↔ g.Reaches id v ∧ v ∉ entered) ∧
      ∀ v, v ∈ all ↔ TransGen g.DependsOn id v := by
  induction entered, met, stack using closureFrom.induct g with
  | case1 entered met =>
    refine ⟨met, [], fun check => ?_, List.nodup_nil, fun v => ?_, closing.mem_met⟩
    · rw [closureFrom]
      rfl
    · rw [closing.mem_entered]
      exact ⟨fun none => absurd none List.not_mem_nil, fun both => absurd both.1 both.2⟩
  | case2 entered met current stack seen ih =>
    obtain ⟨all, visited, same, rest⟩ :=
      ih (fun id member => inside id (List.mem_cons_of_mem _ member)) (closing.drop seen)
    refine ⟨all, visited, fun check => ?_, rest⟩
    rw [closureFrom, dif_pos seen, same]
  | case3 entered met current stack fresh ih =>
    obtain ⟨targets, row⟩ := row_of_mem (inside current List.mem_cons_self)
    have inside' : ∀ id ∈ (targets.toList.filter (· ∉ entered.insert current)).reverse ++ stack,
        id ∈ g.outgoing.keys := by
      intro id member
      rcases List.mem_append.mp member with new | old
      · exact closed current targets row id ((List.mem_filter.mp (List.mem_reverse.mp new)).1)
      · exact inside id (List.mem_cons_of_mem _ old)
    obtain ⟨all, visited, same, distinct, reached, met⟩ := ih targets row inside' (closing.enter row)
    have once : current ∉ visited := by simp [reached]
    refine ⟨all, current :: visited, fun check => ?_, List.nodup_cons.mpr ⟨once, distinct⟩,
      fun v => ?_, met⟩
    · rw [closureFrom_enter fresh, row, Option.elim_some, same, List.length_cons, polls, bind_assoc]
    · have here : g.Reaches id current := closing.reached current (.inr List.mem_cons_self)
      rw [List.mem_cons, reached, OrderedSet.mem_insert]
      grind

/-- The closure of a module is what it reaches along one edge or more; the search for it polls once
for the module and for every other one that it reaches. -/
theorem allDependencies_polls (closed : g.Closed) (present : g.contains id = true)
    (row : id ∈ g.outgoing.keys) :
    ∃ (all : OrderedSet String) (visited : List String),
      (∀ {σ : Type} (check : Checkpoint σ), g.allDependencies check id =
        (do
          polls check "dependency traversal" visited.length
          pure all)) ∧
      visited.Nodup ∧ (∀ v, v ∈ visited ↔ g.Reaches id v) ∧
      ∀ v, v ∈ all ↔ TransGen g.DependsOn id v := by
  have start : g.Closing id ∅ ∅ [id] := by
    refine ⟨fun v => ?_, fun u none => absurd none (OrderedSet.not_mem_empty u), ?_,
      .inr List.mem_cons_self⟩
    · simp
    · rintro u (none | here)
      · exact absurd none (OrderedSet.not_mem_empty u)
      · rw [List.mem_singleton.mp here]
  have inside : ∀ other ∈ [id], other ∈ g.outgoing.keys := fun other member =>
    List.mem_singleton.mp member ▸ row
  obtain ⟨all, visited, same, distinct, reached, met⟩ := closureFrom_eq closed ∅ ∅ [id] inside start
  refine ⟨all, visited, fun check => ?_, distinct, fun v => ?_, met⟩
  · rw [allDependencies, present]
    exact same check
  · rw [reached, and_iff_left (OrderedSet.not_mem_empty v)]

theorem allDependencies_eq {σ : Type} (closed : g.Closed) (present : g.contains id = true)
    (row : id ∈ g.outgoing.keys) :
    ∃ all : OrderedSet String, g.allDependencies unchecked id = (pure all : Search σ _) ∧
      ∀ v, v ∈ all ↔ TransGen g.DependsOn id v := by
  obtain ⟨all, visited, same, -, -, met⟩ := allDependencies_polls closed present row
  refine ⟨all, ?_, met⟩
  rw [same, polls_unchecked, pure_bind]

end Closure

end ModuleBundler.Graph
