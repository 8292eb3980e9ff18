import Mathlib.Data.List.Nodup
import Mathlib.Logic.Relation
import ModuleBundler.Ordered.Set

/-! Depth-first order. Nodes are visited in turn, and after each node all that it leads
to, before the next; a node seen is passed by. What is met for the first time, and in
which order, is told by a relation without stack and budget, so that it can be named
for nodes that nobody has walked yet. -/
namespace ModuleBundler.Source

open Relation

/-- Visiting nodes in turn, with some seen before, meets others for the first time in an order. -/
inductive DepthFirst {α : Type} (next : α → List α) : List α → List α → List α → Prop where
  | nil {seen} : DepthFirst next seen [] []
  | seen {seen node rest order} : node ∈ seen → DepthFirst next seen rest order →
      DepthFirst next seen (node :: rest) order
  | visit {seen node rest below later} : node ∉ seen →
      DepthFirst next (seen ++ [node]) (next node) below →
      DepthFirst next (seen ++ node :: below) rest later →
      DepthFirst next seen (node :: rest) (node :: (below ++ later))

namespace DepthFirst

variable {α : Type} {next : α → List α} {seen nodes rest order other first second : List α}
  {node start : α}

theorem unique (met : DepthFirst next seen nodes order) (again : DepthFirst next seen nodes other) :
    order = other := by
  induction met generalizing other with
  | nil =>
    cases again
    rfl
  | seen old _ ih =>
    cases again with
    | seen _ rest => exact ih rest
    | visit fresh => exact absurd old fresh
  | visit fresh _ _ ihBelow ihLater =>
    cases again with
    | seen old => exact absurd old fresh
    | visit _ below later =>
      obtain rfl := ihBelow below
      rw [ihLater later]

section Stack

theorem append (met : DepthFirst next seen nodes first)
    (later : DepthFirst next (seen ++ first) rest second) :
    DepthFirst next seen (nodes ++ rest) (first ++ second) := by
  induction met generalizing second with
  | nil =>
    rw [List.append_nil] at later
    exact later
  | seen old _ ih => exact .seen old (ih later)
  | visit fresh below _ _ ih =>
    rw [List.cons_append, List.cons_append, List.append_assoc]
    refine .visit fresh below (ih ?_)
    rwa [List.append_assoc, List.cons_append]

theorem of_append (met : DepthFirst next seen (nodes ++ rest) order) :
    ∃ first second, order = first ++ second ∧ DepthFirst next seen nodes first ∧
      DepthFirst next (seen ++ first) rest second := by
  induction nodes generalizing seen order with
  | nil => exact ⟨[], order, rfl, .nil, by rwa [List.append_nil]⟩
  | cons node nodes ih =>
    cases met with
    | seen old met =>
      obtain ⟨first, second, split, here, later⟩ := ih met
      exact ⟨first, second, split, .seen old here, later⟩
    | @visit _ _ _ below _ fresh inner met =>
      obtain ⟨first, second, rfl, here, later⟩ := ih met
      refine ⟨node :: (below ++ first), second, by simp, .visit fresh inner here, ?_⟩
      rwa [List.append_assoc, List.cons_append] at later

/-- A fresh node is met first; what it leads to may as well stand on a stack before the rest. -/
theorem cons_iff (fresh : node ∉ seen) : DepthFirst next seen (node :: rest) order ↔
    ∃ later, order = node :: later ∧
      DepthFirst next (seen ++ [node]) (next node ++ rest) later := by
  constructor
  · intro met
    cases met with
    | seen old => exact absurd old fresh
    | visit _ below later => exact ⟨_, rfl, below.append (by simpa using later)⟩
  · rintro ⟨later, rfl, met⟩
    obtain ⟨first, second, rfl, below, met⟩ := of_append met
    exact .visit fresh below (by simpa using met)

end Stack

section Members

theorem nodup (met : DepthFirst next seen nodes order) (distinct : seen.Nodup) :
    (seen ++ order).Nodup := by
  induction met with
  | nil => rwa [List.append_nil]
  | seen _ _ ih => exact ih distinct
  | @visit seen node rest below later fresh _ _ ihBelow ihLater =>
    have apart : ∀ old ∈ seen, ∀ new ∈ [node], old ≠ new := by
      intro old member new single
      rw [List.mem_singleton.mp single]
      exact ne_of_mem_of_not_mem member fresh
    have here : (seen ++ [node]).Nodup :=
      List.nodup_append.mpr ⟨distinct, List.nodup_singleton node, apart⟩
    have inner := ihBelow here
    rw [List.append_assoc, List.singleton_append] at inner
    have outer := ihLater inner
    rwa [List.append_assoc, List.cons_append] at outer

/-- Every node visited has been seen then. -/
theorem covers (met : DepthFirst next seen nodes order) : ∀ node ∈ nodes, node ∈ seen ++ order := by
  induction met with
  | nil => exact fun _ none => absurd none List.not_mem_nil
  | seen old _ ih => exact List.forall_mem_cons.mpr ⟨List.mem_append_left _ old, ih⟩
  | visit _ _ _ _ ih =>
    refine List.forall_mem_cons.mpr ⟨by simp, fun node member => ?_⟩
    simpa using ih node member

/-- All that a node met leads to has been seen then. -/
theorem closed (met : DepthFirst next seen nodes order) :
    ∀ node ∈ order, ∀ other ∈ next node, other ∈ seen ++ order := by
  induction met with
  | nil => exact fun _ none => absurd none List.not_mem_nil
  | seen _ _ ih => exact ih
  | @visit seen node rest below later _ inner _ ihBelow ihLater =>
    have within : ∀ other, other ∈ seen ++ [node] ++ below →
        other ∈ seen ++ node :: (below ++ later) := by
      intro other member
      have early := List.mem_append_left later member
      simpa using early
    intro source member other leads
    rcases List.mem_cons.mp member with rfl | member
    · exact within other (inner.covers other leads)
    · rcases List.mem_append.mp member with deeper | behind
      · exact within other (ihBelow source deeper other leads)
      · simpa using ihLater source behind other leads

/-- Whatever is met can be reached from a node visited. -/
theorem reached (met : DepthFirst next seen nodes order) :
    ∀ node ∈ order, ∃ start ∈ nodes, ReflTransGen (fun a b => b ∈ next a) start node := by
  induction met with
  | nil => exact fun _ none => absurd none List.not_mem_nil
  | seen _ _ ih =>
    intro node member
    obtain ⟨start, here, reaches⟩ := ih node member
    exact ⟨start, List.mem_cons_of_mem _ here, reaches⟩
  | visit _ _ _ ihBelow ihLater =>
    intro other member
    rcases List.mem_cons.mp member with rfl | member
    · exact ⟨_, List.mem_cons_self, .refl⟩
    · rcases List.mem_append.mp member with deeper | behind
      · obtain ⟨start, leads, reaches⟩ := ihBelow other deeper
        exact ⟨_, List.mem_cons_self, .head leads reaches⟩
      · obtain ⟨start, here, reaches⟩ := ihLater other behind
        exact ⟨start, List.mem_cons_of_mem _ here, reaches⟩

/-- From nodes that lead to nothing unseen: what can be reached has been seen then, and no more. -/
theorem mem_iff (met : DepthFirst next seen nodes order)
    (settled : ∀ node ∈ seen, ∀ other ∈ next node, other ∈ seen) : node ∈ seen ++ order ↔
      node ∈ seen ∨ ∃ start ∈ nodes, ReflTransGen (fun a b => b ∈ next a) start node := by
  constructor
  · intro member
    exact (List.mem_append.mp member).imp_right (met.reached node)
  · rintro (old | ⟨start, here, reaches⟩)
    · exact List.mem_append_left _ old
    · induction reaches with
      | refl => exact met.covers start here
      | tail _ leads ih =>
        rcases List.mem_append.mp ih with old | new
        · exact List.mem_append_left _ (settled _ old _ leads)
        · exact met.closed _ new _ leads

end Members

/-- Nodes that lead to finitely many can be visited, in turn, to the end. -/
theorem exists_order [DecidableEq α] {all : List α} {kind : α → Prop}
    (inside : ∀ node, kind node → node ∈ all)
    (closed : ∀ node, kind node → ∀ other ∈ next node, kind other)
    (seen : OrderedSet α) (nodes : List α) (kinds : ∀ node ∈ nodes, kind node) :
    ∃ order, DepthFirst next seen.toList nodes order := by
  -- A visit leaves fewer nodes that may still be met; a node passed by leaves a shorter list.
  induction left : seen.missing all using Nat.strongRecOn generalizing seen nodes with
  | ind n ih =>
    induction nodes with
    | nil => exact ⟨[], .nil⟩
    | cons node rest passed =>
      obtain ⟨here, others⟩ := List.forall_mem_cons.mp kinds
      by_cases old : node ∈ seen
      · obtain ⟨order, met⟩ := passed others
        exact ⟨order, .seen old met⟩
      · have fewer := OrderedSet.missing_insert_lt old (inside node here)
        obtain ⟨later, met⟩ := ih _ (left ▸ fewer) (seen.insert node) (next node ++ rest)
          (List.forall_mem_append.mpr ⟨closed node here, others⟩) rfl
        rw [OrderedSet.toList_insert_of_not_mem old] at met
        exact ⟨node :: later, (cons_iff old).mpr ⟨later, rfl, met⟩⟩

end DepthFirst
end ModuleBundler.Source
