import Mathlib.Tactic.ByContra
import ModuleBundler.Graph.Validity
import ModuleBundler.Proofs.Graph.Search

/-! The check of the four tables decides whether they agree. Each complaint stands for
one condition at one place, and it is made just if the condition fails there, whatever
else is wrong: a row that is absent counts as empty, and is complained of by itself.
Tables that agree are all that the searches ask of a graph. -/
namespace ModuleBundler.Graph

open Cancellation

/-- What an index says of two modules: the row of the first lists the second. -/
def Index.Lists (i : Index) (g : Graph) (id member : String) : Prop :=
  ∃ row, (i.table g).get? id = some row ∧ member ∈ row

/-- The four tables of a graph agree: both indices have the modules as rows and hold the same
edges, and entry points are modules. -/
structure Consistent (g : Graph) : Prop where
  rows : ∀ (i : Index) (id : String), id ∈ (i.table g).keys ↔ id ∈ g.moduleIds
  mirrored : ∀ source target,
    Index.outgoing.Lists g source target ↔ Index.incoming.Lists g target source
  marked : ∀ id ∈ g.entryPoints, id ∈ g.moduleIds

/-- What has to be wrong with the tables for a complaint to be in place. -/
def Inconsistency.Occurs (g : Graph) : Inconsistency → Prop
  | rowAbsent i id => id ∈ g.moduleIds ∧ id ∉ (i.table g).keys
  | rowUnknown i id => id ∈ (i.table g).keys ∧ id ∉ g.moduleIds
  | targetUnknown source target =>
    Index.outgoing.Lists g source target ∧ target ∉ g.moduleIds
  | notIncoming source target =>
    Index.outgoing.Lists g source target ∧ target ∈ g.moduleIds ∧
      ¬ Index.incoming.Lists g target source
  | notOutgoing source target =>
    Index.incoming.Lists g target source ∧ ¬ Index.outgoing.Lists g source target
  | entryUnknown id => id ∈ g.entryPoints ∧ id ∉ g.moduleIds

variable {g : Graph} {i : Index} {id member source target : String} {x : Inconsistency}

section Complaints

theorem contains_iff : g.contains id = true ↔ id ∈ g.moduleIds := decide_eq_true_iff

theorem lists_iff {table : Table String (OrderedSet String)} :
    lists table id member = true ↔ ∃ row, table.get? id = some row ∧ member ∈ row := by
  rw [lists]
  cases table.get? id <;> simp

theorem mem_rowViolations : x ∈ g.rowViolations i ↔
    (∃ id, x = .rowAbsent i id ∧ x.Occurs g) ∨ ∃ id, x = .rowUnknown i id ∧ x.Occurs g := by
  simp only [rowViolations, sorted, List.mem_append, List.mem_map, List.mem_mergeSort,
    List.mem_filter, decide_eq_true_eq]
  constructor
  · rintro (⟨id, there, rfl⟩ | ⟨id, there, rfl⟩)
    · exact .inl ⟨id, rfl, there⟩
    · exact .inr ⟨id, rfl, there⟩
  · rintro (⟨id, rfl, there⟩ | ⟨id, rfl, there⟩)
    · exact .inl ⟨id, there, rfl⟩
    · exact .inr ⟨id, there, rfl⟩

theorem mem_outgoingViolations : x ∈ g.outgoingViolations ↔
    ∃ source target, (x = .targetUnknown source target ∨ x = .notIncoming source target) ∧
      x.Occurs g := by
  simp only [outgoingViolations, List.mem_flatMap, List.mem_filterMap, Prod.exists,
    Table.mem_entries_iff, Bool.not_eq_true', Bool.eq_false_iff, Ne, contains_iff, lists_iff]
  constructor
  · rintro ⟨source, targets, row, target, member, found⟩
    have listed : Index.outgoing.Lists g source target := ⟨targets, row, member⟩
    refine ⟨source, target, ?_⟩
    split at found
    next unknown =>
      cases found
      exact ⟨.inl rfl, listed, unknown⟩
    next known =>
      split at found
      next unlisted =>
        cases found
        exact ⟨.inr rfl, listed, not_not.mp known, unlisted⟩
      next => cases found
  · rintro ⟨source, target, rfl | rfl, ⟨targets, row, member⟩, wrong⟩
    · exact ⟨source, targets, row, target, member, if_pos wrong⟩
    · obtain ⟨known, unlisted⟩ := wrong
      refine ⟨source, targets, row, target, member, ?_⟩
      rw [if_neg (not_not.mpr known)]
      exact if_pos unlisted

theorem mem_incomingViolations : x ∈ g.incomingViolations ↔
    ∃ source target, x = .notOutgoing source target ∧ x.Occurs g := by
  simp only [incomingViolations, List.mem_flatMap, List.mem_filterMap, Prod.exists,
    Table.mem_entries_iff, lists_iff]
  constructor
  · rintro ⟨target, sources, row, source, member, found⟩
    split at found
    next => cases found
    next unlisted =>
      cases found
      exact ⟨source, target, rfl, ⟨sources, row, member⟩, unlisted⟩
  · rintro ⟨source, target, rfl, ⟨sources, row, member⟩, unlisted⟩
    exact ⟨target, sources, row, source, member, if_neg unlisted⟩

theorem mem_entryViolations : x ∈ g.entryViolations ↔
    ∃ id, x = .entryUnknown id ∧ x.Occurs g := by
  simp only [entryViolations, List.mem_filterMap, contains_iff]
  constructor
  · rintro ⟨id, marked, found⟩
    split at found
    next => cases found
    next unknown =>
      cases found
      exact ⟨id, rfl, marked, unknown⟩
  · rintro ⟨id, rfl, marked, unknown⟩
    exact ⟨id, marked, if_neg unknown⟩

/-- A complaint is made just if what it names is wrong. -/
theorem mem_inconsistencies : x ∈ g.inconsistencies ↔ x.Occurs g := by
  simp only [inconsistencies, List.mem_append, mem_rowViolations, mem_outgoingViolations,
    mem_incomingViolations, mem_entryViolations]
  constructor
  · grind
  · intro occurs
    cases x with
    | rowAbsent i id | rowUnknown i id => cases i <;> simp [occurs]
    | targetUnknown source target | notIncoming source target => simp [occurs]
    | notOutgoing source target => simp [occurs]
    | entryUnknown id => simp [occurs]

end Complaints

namespace Consistent

/-- A target has a row in the other index, and so is a module. -/
theorem target_known (consistent : g.Consistent)
    (listed : Index.outgoing.Lists g source target) : target ∈ g.moduleIds := by
  obtain ⟨sources, column, -⟩ := (consistent.mirrored source target).mp listed
  exact (consistent.rows .incoming target).mp (Table.mem_keys_of_get? column)

theorem closed (consistent : g.Consistent) : g.Closed := by
  intro id targets row target member
  exact (consistent.rows .outgoing target).mpr (consistent.target_known ⟨targets, row, member⟩)

theorem rowed (consistent : g.Consistent) : ∀ id ∈ g.moduleIds, id ∈ g.outgoing.keys :=
  fun id => (consistent.rows .outgoing id).mpr

end Consistent

/-- Tables agree just if there is nothing to complain of. A target that is no module is wrong
whatever the other index says: it lists the edge in a row of no module, or not at all. -/
theorem consistent_iff : g.Consistent ↔ ∀ x : Inconsistency, ¬ x.Occurs g := by
  constructor
  · rintro consistent (⟨i, id⟩ | ⟨i, id⟩ | ⟨source, target⟩ | ⟨source, target⟩ | ⟨source, target⟩ | id)
    · rintro ⟨known, absent⟩
      exact absent ((consistent.rows i id).mpr known)
    · rintro ⟨row, unknown⟩
      exact unknown ((consistent.rows i id).mp row)
    · rintro ⟨listed, unknown⟩
      exact unknown (consistent.target_known listed)
    · rintro ⟨listed, -, unlisted⟩
      exact unlisted ((consistent.mirrored source target).mp listed)
    · rintro ⟨listed, unlisted⟩
      exact unlisted ((consistent.mirrored source target).mpr listed)
    · rintro ⟨entry, unknown⟩
      exact unknown (consistent.marked id entry)
  · intro faultless
    refine ⟨fun i id => ⟨fun row => ?_, fun known => ?_⟩,
      fun source target => ⟨fun listed => ?_, fun listed => ?_⟩, fun id entry => ?_⟩
    · by_contra unknown
      exact faultless (.rowUnknown i id) ⟨row, unknown⟩
    · by_contra absent
      exact faultless (.rowAbsent i id) ⟨known, absent⟩
    · by_contra unlisted
      by_cases known : target ∈ g.moduleIds
      · exact faultless (.notIncoming source target) ⟨listed, known, unlisted⟩
      · exact faultless (.targetUnknown source target) ⟨listed, known⟩
    · by_contra unlisted
      exact faultless (.notOutgoing source target) ⟨listed, unlisted⟩
    · by_contra unknown
      exact faultless (.entryUnknown id) ⟨entry, unknown⟩

theorem inconsistencies_eq_nil_iff : g.inconsistencies = [] ↔ g.Consistent := by
  rw [List.eq_nil_iff_forall_not_mem, consistent_iff]
  exact forall_congr' fun _ => not_congr mem_inconsistencies

theorem isConsistent_iff : g.isConsistent = true ↔ g.inconsistencies = [] := List.isEmpty_iff

/-- The check accepts exactly the graphs whose tables agree, whatever the tables hold. Everything
that is wrong with the others is complained of in its own words, and nothing else is. In a graph
that is accepted no search misses a row. -/
theorem complaints_decide_consistency (g : Graph) :
    let messages := g.inconsistencies.map Inconsistency.message
    (g.isConsistent = true ↔ g.Consistent) ∧ (messages = [] ↔ g.Consistent) ∧
    (∀ (i : Index) id, id ∈ g.moduleIds → id ∉ (i.table g).keys →
      s!"Module {id} has no {i.name} index entry" ∈ messages) ∧
    (∀ (i : Index) id, id ∈ (i.table g).keys → id ∉ g.moduleIds →
      s!"{i.name} index references unknown module {id}" ∈ messages) ∧
    (∀ source target, Index.outgoing.Lists g source target →
      ¬ Index.incoming.Lists g target source →
      s!"Edge {source} -> {target} targets unknown module" ∈ messages ∨
        s!"Edge {source} -> {target} missing from incoming index" ∈ messages) ∧
    (∀ source target, Index.incoming.Lists g target source →
      ¬ Index.outgoing.Lists g source target →
      s!"Incoming {source} -> {target} missing from outgoing index" ∈ messages) ∧
    (∀ id ∈ g.entryPoints, id ∉ g.moduleIds →
      s!"Entry point {id} is not a module" ∈ messages) ∧
    (∀ x, x ∈ g.inconsistencies ↔ x.Occurs g) ∧
    (g.isConsistent = true → ∀ (σ : Type) (check : Checkpoint σ),
      Search.NeverMisses (g.cycles check) ∧ Search.NeverMisses (g.executionOrder check) ∧
        ∀ id, Search.NeverMisses (g.allDependencies check id)) := by
  intro messages
  have named : ∀ x : Inconsistency, x.Occurs g → x.message ∈ messages := fun x occurs =>
    List.mem_map_of_mem (mem_inconsistencies.mpr occurs)
  have silent : messages = [] ↔ g.inconsistencies = [] := List.map_eq_nil_iff
  refine ⟨?_, ?_, ?_, ?_, ?_, ?_, ?_, fun _ => mem_inconsistencies, ?_⟩
  · rw [isConsistent_iff, inconsistencies_eq_nil_iff]
  · rw [silent, inconsistencies_eq_nil_iff]
  · exact fun i id known absent => named (.rowAbsent i id) ⟨known, absent⟩
  · exact fun i id row unknown => named (.rowUnknown i id) ⟨row, unknown⟩
  · intro source target listed unlisted
    by_cases known : target ∈ g.moduleIds
    · exact .inr (named (.notIncoming source target) ⟨listed, known, unlisted⟩)
    · exact .inl (named (.targetUnknown source target) ⟨listed, known⟩)
  · exact fun source target listed unlisted =>
      named (.notOutgoing source target) ⟨listed, unlisted⟩
  · exact fun id entry unknown => named (.entryUnknown id) ⟨entry, unknown⟩
  · intro accepted σ check
    have consistent := inconsistencies_eq_nil_iff.mp (isConsistent_iff.mp accepted)
    exact ⟨cycles_neverMisses consistent.closed consistent.rowed check,
      executionOrder_neverMisses consistent.closed consistent.rowed consistent.marked check,
      allDependencies_neverMisses consistent.closed consistent.rowed check⟩

theorem complaints_decide_consistency_corrupted :
    let plain (id : String) : Module := ⟨id, ∅, false, 0⟩
    let nodes : Table String Module := .ofList [("a", plain "a"), ("b", plain "b")]
    -- One row is absent, one is of no module, as is an entry point, and both edges are one-sided.
    let g : Graph := ⟨nodes, .ofList [("a", .ofList ["b"]), ("c", ∅)],
      .ofList [("a", .ofList ["b"]), ("b", ∅)], .ofList ["d"]⟩
    let messages := g.inconsistencies.map Inconsistency.message
    let h : Graph := ⟨nodes, .ofList [("a", .ofList ["b"]), ("b", ∅)],
      .ofList [("a", ∅), ("b", .ofList ["a"])], .ofList ["a"]⟩
    "Module b has no outgoing index entry" ∈ messages ∧
      "outgoing index references unknown module c" ∈ messages ∧
      ("Edge a -> b targets unknown module" ∈ messages ∨
        "Edge a -> b missing from incoming index" ∈ messages) ∧
      "Incoming b -> a missing from outgoing index" ∈ messages ∧
      "Entry point d is not a module" ∈ messages ∧
      h.isConsistent = true ∧ Search.NeverMisses (h.cycles (unchecked : Checkpoint Unit)) := by
  intro plain nodes g messages h
  obtain ⟨-, -, absent, unknown, forward, backward, stray, -, -⟩ := complaints_decide_consistency g
  obtain ⟨-, -, -, -, -, -, -, -, searches⟩ := complaints_decide_consistency h
  have edge : lists g.outgoing "a" "b" = true ∧ ¬ lists g.incoming "b" "a" = true := by
    decide +kernel
  have back : lists g.incoming "a" "b" = true ∧ ¬ lists g.outgoing "b" "a" = true := by
    decide +kernel
  have consistent : h.isConsistent = true := by decide +kernel
  refine ⟨?_, ?_, ?_, ?_, ?_, consistent, (searches consistent Unit unchecked).1⟩
  · exact absent .outgoing "b" (by decide +kernel) (by decide +kernel)
  · exact unknown .outgoing "c" (by decide +kernel) (by decide +kernel)
  · exact forward "a" "b" (lists_iff.mp edge.1) (mt lists_iff.mpr edge.2)
  · exact backward "b" "a" (lists_iff.mp back.1) (mt lists_iff.mpr back.2)
  · exact stray "d" (by decide +kernel) (by decide +kernel)

end ModuleBundler.Graph
