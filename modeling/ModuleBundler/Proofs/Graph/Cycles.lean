import Mathlib.Data.List.Chain
import Mathlib.Data.List.Perm.Basic
import Mathlib.Data.List.Rotate
import ModuleBundler.Proofs.Graph.Exploration

/-! What the cycle search reports. A reported cycle is a stretch of the path, so its
modules stand in the order in which they were entered: a rotation of it that is
reported too is the same list. Each edge is looked at once, so no two cycles are closed
by one edge. And an edge that closes none leads to a module that is left earlier:
without the closing edges the graph runs down the order of leaving. -/
namespace ModuleBundler.Graph

open Cancellation Relation

/-- The edge from the last module of a list back to its first. -/
def closing? (c : List String) : Option Edge :=
  c.getLast?.bind fun u => c.head?.map fun v => (u, v)

/-- A list uses the edges between neighbours and the one from its last module to its first. -/
def Uses (c : List String) (e : Edge) : Prop := [e.1, e.2] <:+: c ∨ closing? c = some e

/-- A directed cycle that may come by a module several times. -/
structure IsLoop (g : Graph) (c : List String) : Prop where
  nonempty : c ≠ []
  steps : c.IsChain g.DependsOn
  closes : ∀ e, closing? c = some e → g.DependsOn e.1 e.2

/-- A directed cycle of pairwise distinct modules. -/
structure IsCycle (g : Graph) (c : List String) : Prop extends g.IsLoop c where
  distinct : c.Nodup

theorem closing?_eq_some {c : List String} {u v : String} :
    closing? c = some (u, v) ↔ c.getLast? = some u ∧ c.head? = some v := by
  simp [closing?, Option.bind_eq_some_iff]

variable {g : Graph} {path pending left : List String} {entered final : OrderedSet String}
  {found : List (List String)} {node next u v : String}

section Path

theorem closing?_cycleTo (onPath : next ∈ path) (top : path.head? = some node) :
    closing? (cycleTo next path) = some (node, next) := by
  obtain ⟨above, rfl⟩ := List.head?_eq_some_iff.mp top
  rw [closing?_eq_some, cycleTo, List.getLast?_reverse, List.head?_reverse]
  constructor
  · by_cases same : node = next
    · simp [same]
    · simp [same]
  · simp

theorem cycleTo_suffix (onPath : next ∈ path) : cycleTo next path <:+ path.reverse := by
  rw [cycleTo, List.reverse_suffix]
  induction path with
  | nil => cases onPath
  | cons node above ih =>
    by_cases same : node = next
    · subst same
      simp
    · have deeper := ih ((List.mem_cons.mp onPath).resolve_left (Ne.symm same))
      rw [List.takeWhile_cons, if_pos (by simpa using same), List.cons_append,
        List.cons_prefix_cons]
      exact ⟨rfl, deeper⟩

/-- A path, its top first, runs along edges through modules in the order in which they were entered,
and its top has the pending edges. -/
structure Trail (g : Graph) (path : List String) (entered : OrderedSet String)
    (pending : List String) : Prop where
  steps : path.reverse.IsChain g.DependsOn
  order : path.reverse.Sublist entered.toList
  ahead : ∀ node ∈ path.head?, ∀ next ∈ pending, g.DependsOn node next

namespace Trail

theorem start (entered : OrderedSet String) (pending : List String) :
    g.Trail [] entered pending :=
  ⟨.nil, List.nil_sublist _, fun _ none => by cases none⟩

theorem tail (trail : g.Trail path entered (next :: pending)) : g.Trail path entered pending :=
  ⟨trail.steps, trail.order, fun node top other member =>
    trail.ahead node top other (List.mem_cons_of_mem _ member)⟩

theorem later (trail : g.Trail path entered pending) (grown : entered.toList <+: final.toList) :
    g.Trail path final pending :=
  ⟨trail.steps, trail.order.trans grown.sublist, trail.ahead⟩

theorem enter {targets : OrderedSet String} (trail : g.Trail path entered (next :: pending))
    (fresh : next ∉ entered) (row : g.outgoing.get? next = some targets) :
    g.Trail (next :: path) (entered.insert next) targets.toList where
  steps := by
    rw [List.reverse_cons]
    refine trail.steps.append (.singleton next) ?_
    intro node top other here
    rw [List.getLast?_reverse] at top
    rw [List.head?_singleton, Option.mem_some_iff] at here
    exact here ▸ trail.ahead node top next List.mem_cons_self
  order := by
    rw [List.reverse_cons, OrderedSet.toList_insert_of_not_mem fresh]
    exact trail.order.append (List.Sublist.refl _)
  ahead node top other listed := by
    rw [List.head?_cons, Option.mem_some_iff] at top
    exact top ▸ (dependsOn_iff row).mpr listed

theorem mem_entered (trail : g.Trail path entered pending) {id : String} (member : id ∈ path) :
    id ∈ entered := trail.order.subset (List.mem_reverse.mpr member)

theorem isCycle (trail : g.Trail path entered (next :: pending)) (onPath : next ∈ path) :
    g.IsCycle (cycleTo next path) := by
  have suffix := cycleTo_suffix onPath
  refine ⟨⟨by simp [cycleTo], trail.steps.suffix suffix, ?_⟩, ?_⟩
  · rintro ⟨u, v⟩ closing
    obtain ⟨node, above, rfl⟩ := List.exists_cons_of_ne_nil (List.ne_nil_of_mem onPath)
    rw [closing?_cycleTo onPath rfl] at closing
    cases closing
    exact trail.ahead _ rfl _ List.mem_cons_self
  · exact entered.nodup.sublist (suffix.sublist.trans trail.order)

end Trail

end Path

/-- An edge that is looked at while pending ones are explored: one of them, or one of a module
entered since. -/
def LookedAt (path : List String) (entered : OrderedSet String) (pending : List String)
    (final : OrderedSet String) (e : Edge) : Prop :=
  e.1 ∈ final ∧ (path.head? = some e.1 ∧ e.2 ∈ pending ∨ e.1 ∉ entered)

theorem LookedAt.cons {e : Edge} (lookedAt : LookedAt path entered pending final e) :
    LookedAt path entered (next :: pending) final e :=
  ⟨lookedAt.1, lookedAt.2.imp_left fun ⟨top, ahead⟩ => ⟨top, List.mem_cons_of_mem _ ahead⟩⟩

namespace Explores

/-- Each list found is a cycle, and its modules stand in the order of entering. -/
theorem isCycle (explores : Explores g path entered pending found left final)
    (trail : g.Trail path entered pending) :
    ∀ c ∈ found, g.IsCycle c ∧ c.Sublist final.toList := by
  induction explores with
  | done => simp
  | back onPath _ rest ih =>
    intro c member
    rcases List.mem_cons.mp member with rfl | later
    · have order := (cycleTo_suffix onPath).sublist.trans trail.order
      exact ⟨trail.isCycle onPath, order.trans rest.prefix_final.sublist⟩
    · exact ih trail.tail c later
  | known _ _ _ ih => exact ih trail.tail
  | enter _ fresh row inner rest ih ih' =>
    have grown := (OrderedSet.prefix_insert _ _).trans inner.prefix_final
    intro c member
    rcases List.mem_append.mp member with first | later
    · obtain ⟨cycle, order⟩ := ih (trail.enter fresh row) c first
      exact ⟨cycle, order.trans rest.prefix_final.sublist⟩
    · exact ih' (trail.tail.later grown) c later

/-- Each edge closes one cycle at most, and it is looked at meanwhile. -/
theorem closings (explores : Explores g path entered pending found left final)
    (trail : g.Trail path entered pending) (once : pending.Nodup) :
    (∀ closing ∈ found.map closing?, ∃ e, closing = some e ∧ LookedAt path entered pending final e) ∧
      (found.map closing?).Nodup := by
  induction explores with
  | done => simp
  | @back path entered next pending found left final onPath _ rest ih =>
    obtain ⟨fresh, once⟩ := List.nodup_cons.mp once
    obtain ⟨seen, distinct⟩ := ih trail.tail once
    obtain ⟨node, above, rfl⟩ := List.exists_cons_of_ne_nil (List.ne_nil_of_mem onPath)
    have inside : node ∈ entered := trail.mem_entered List.mem_cons_self
    rw [List.map_cons, closing?_cycleTo onPath rfl]
    constructor
    · intro closing member
      rcases List.mem_cons.mp member with rfl | later
      · exact ⟨_, rfl, rest.mem_of_entered inside, .inl ⟨rfl, List.mem_cons_self⟩⟩
      · obtain ⟨e, same, lookedAt⟩ := seen closing later
        exact ⟨e, same, lookedAt.cons⟩
    · refine List.nodup_cons.mpr ⟨fun again => ?_, distinct⟩
      obtain ⟨e, same, -, ⟨-, ahead⟩ | outside⟩ := seen _ again
      · cases same
        exact fresh ahead
      · cases same
        exact outside inside
  | known _ _ _ ih =>
    obtain ⟨seen, distinct⟩ := ih trail.tail (List.nodup_cons.mp once).2
    refine ⟨fun closing member => ?_, distinct⟩
    obtain ⟨e, same, lookedAt⟩ := seen closing member
    exact ⟨e, same, lookedAt.cons⟩
  | @enter path entered next pending targets found left middle found' left' final _ fresh row inner
      rest ih ih' =>
    have grown := (OrderedSet.prefix_insert _ _).trans inner.prefix_final
    obtain ⟨seen, distinct⟩ := ih (trail.enter fresh row) targets.nodup
    obtain ⟨seen', distinct'⟩ := ih' (trail.tail.later grown) (List.nodup_cons.mp once).2
    have new : ∀ e, LookedAt (next :: path) (entered.insert next) targets.toList middle e →
        e.1 ∉ entered := by
      rintro e ⟨-, ⟨top, -⟩ | outside⟩
      · cases top
        exact fresh
      · exact fun old => outside (OrderedSet.mem_insert.mpr (.inl old))
    rw [List.map_append]
    constructor
    · intro closing member
      rcases List.mem_append.mp member with first | later
      · obtain ⟨e, same, lookedAt⟩ := seen closing first
        exact ⟨e, same, rest.mem_of_entered lookedAt.1, .inr (new e lookedAt)⟩
      · obtain ⟨e, same, known, edge⟩ := seen' closing later
        exact ⟨e, same, LookedAt.cons ⟨known, edge.imp_right fun out old => out (grown.subset old)⟩⟩
    · -- The edges of the first exploration start outside what was entered, and inside `middle`.
      refine distinct.append distinct' fun closing first later => ?_
      obtain ⟨e, same, lookedAt⟩ := seen closing first
      obtain ⟨e', same', -, ⟨top, -⟩ | outside⟩ := seen' closing later
      · cases same.symm.trans same'
        exact new e lookedAt (trail.mem_entered (List.mem_of_mem_head? top))
      · cases same.symm.trans same'
        exact outside lookedAt.1

/-- An edge of a module left closes a cycle, leads to a module left before all of this, or leads to
one that is left earlier. -/
theorem settled (explores : Explores g path entered pending found left final) :
    (∀ u ∈ path.head?, ∀ v ∈ pending,
      some (u, v) ∈ found.map closing? ∨ (v ∈ entered ∧ v ∉ path) ∨ v ∈ left) ∧
    ∀ u ∈ left, ∀ v, g.DependsOn u v →
      some (u, v) ∈ found.map closing? ∨ (v ∈ entered ∧ v ∉ path) ∨ [v, u].Sublist left := by
  induction explores with
  | done => simp
  | back onPath _ _ ih =>
    obtain ⟨ahead, behind⟩ := ih
    rw [List.map_cons]
    constructor
    · intro u top v member
      rcases List.mem_cons.mp member with rfl | later
      · rw [closing?_cycleTo onPath top]
        exact .inl List.mem_cons_self
      · exact (ahead u top v later).imp_left (List.mem_cons_of_mem _)
    · intro u member v edge
      exact (behind u member v edge).imp_left (List.mem_cons_of_mem _)
  | known offPath seen _ ih =>
    obtain ⟨ahead, behind⟩ := ih
    refine ⟨fun u top v member => ?_, behind⟩
    rcases List.mem_cons.mp member with rfl | later
    · exact .inr (.inl ⟨seen, offPath⟩)
    · exact ahead u top v later
  | @enter path entered next pending targets found left middle found' left' final offPath fresh row
      inner _ ih ih' =>
    obtain ⟨ahead, behind⟩ := ih
    obtain ⟨ahead', behind'⟩ := ih'
    have outer : ∀ v, v ∈ entered.insert next ∧ v ∉ next :: path → v ∈ entered ∧ v ∉ path := by
      rintro v ⟨inside, off⟩
      rw [OrderedSet.mem_insert] at inside
      rw [List.mem_cons, not_or] at off
      exact ⟨inside.resolve_right off.1, off.2⟩
    -- To the edges looked at later, `next` and what it leads to are modules left before.
    have before : ∀ v, v ∈ middle ∧ v ∉ path → (v ∈ entered ∧ v ∉ path) ∨ v ∈ left ++ [next] := by
      rintro v ⟨inside, off⟩
      rw [inner.mem_final, OrderedSet.mem_insert] at inside
      rw [List.mem_append, List.mem_singleton]
      grind
    have split : left ++ next :: left' = (left ++ [next]) ++ left' := by simp
    rw [List.map_append]
    constructor
    · intro u top v member
      rcases List.mem_cons.mp member with rfl | later
      · exact .inr (.inr (by simp))
      · rcases ahead' u top v later with closing | old | last
        · exact .inl (List.mem_append_right _ closing)
        · rw [split]
          exact .inr ((before v old).imp_right (List.mem_append_left _))
        · exact .inr (.inr (List.mem_append_right _ (List.mem_cons_of_mem _ last)))
    · intro u member v edge
      rcases List.mem_append.mp member with first | later
      · rcases behind u first v edge with closing | old | earlier
        · exact .inl (List.mem_append_left _ closing)
        · exact .inr (.inl (outer v old))
        · exact .inr (.inr (earlier.trans (List.sublist_append_left _ _)))
      · rcases List.mem_cons.mp later with rfl | last
        · rcases ahead u rfl v ((dependsOn_iff row).mp edge) with closing | old | first
          · exact .inl (List.mem_append_left _ closing)
          · exact .inr (.inl (outer v old))
          · exact .inr (.inr ((List.singleton_sublist.mpr first).append (by simp)))
        · rw [split]
          rcases behind' u last v edge with closing | old | earlier
          · exact .inl (List.mem_append_right _ closing)
          · have follows : [u].Sublist left' := List.singleton_sublist.mpr last
            refine .inr ((before v old).imp_right fun first => ?_)
            exact (List.singleton_sublist.mpr first).append follows
          · exact .inr (.inr (earlier.trans (List.sublist_append_right _ _)))

end Explores

section Loops

variable {R : String → String → Prop}

theorem idxOf_lt_idxOf {order : List String} (distinct : order.Nodup)
    (before : [v, u].Sublist order) : order.idxOf v < order.idxOf u := by
  have rising : order.Pairwise fun a b => order.idxOf a < order.idxOf b := by
    rw [List.pairwise_iff_getElem]
    intro i j first second lt
    rwa [distinct.idxOf_getElem i first, distinct.idxOf_getElem j second]
  simpa using rising.sublist before

theorem rank_lt_of_transGen (rank : String → Nat) (falls : ∀ u v, R u v → rank v < rank u)
    (walk : TransGen R u v) : rank v < rank u := by
  induction walk with
  | single edge => exact falls _ _ edge
  | tail _ edge ih => exact (falls _ _ edge).trans ih

theorem IsLoop.dependsOn {loop : List String} (isLoop : g.IsLoop loop) {e : Edge}
    (uses : Uses loop e) : g.DependsOn e.1 e.2 := by
  rcases uses with infix' | closing
  · simpa using isLoop.steps.infix infix'
  · exact isLoop.closes e closing

/-- A loop has an edge along which a rank does not fall. -/
theorem IsLoop.exists_rise {loop : List String} (isLoop : g.IsLoop loop) (rank : String → Nat) :
    ∃ e, Uses loop e ∧ ¬ rank e.2 < rank e.1 := by
  by_contra none
  have falls : ∀ e, Uses loop e → rank e.2 < rank e.1 := fun e uses =>
    not_not.mp fun rises => none ⟨e, uses, rises⟩
  obtain ⟨first, rest, rfl⟩ := List.exists_cons_of_ne_nil isLoop.nonempty
  obtain ⟨last, top⟩ := Option.isSome_iff_exists.mp (List.getLast?_isSome.mpr isLoop.nonempty)
  have back : rank first < rank last :=
    falls (last, first) (.inr (closing?_eq_some.mpr ⟨top, rfl⟩))
  have steps : (first :: rest).IsChain fun u v => rank v < rank u :=
    (List.isChain_isInfix _).imp fun u v infix' => falls (u, v) (.inl infix')
  have lower := List.pairwise_cons.mp (List.isChain_iff_pairwise.mp steps)
  rcases List.mem_cons.mp (List.mem_of_getLast? top) with rfl | later
  · exact lt_irrefl _ back
  · exact lt_asymm back (lower.1 last later)

/-- From the head of a loop to any module, and from there to the last. -/
theorem IsLoop.reaches {loop : List String} (isLoop : g.IsLoop loop)
    (closing : closing? loop = some (u, v)) :
    ∀ id ∈ loop, g.Reaches v id ∧ g.Reaches id u := by
  obtain ⟨last, first⟩ := closing?_eq_some.mp closing
  have ordered : loop.Pairwise g.Reaches :=
    List.isChain_iff_pairwise.mp (isLoop.steps.imp fun _ _ => .single)
  intro id member
  constructor
  · obtain ⟨rest, rfl⟩ := List.head?_eq_some_iff.mp first
    rcases List.mem_cons.mp member with rfl | later
    · exact .refl
    · exact (List.pairwise_cons.mp ordered).1 id later
  · obtain ⟨init, rfl⟩ := List.getLast?_eq_some_iff.mp last
    rcases List.mem_append.mp member with earlier | here
    · exact (List.pairwise_append.mp ordered).2.2 id earlier u List.mem_cons_self
    · rw [List.mem_singleton.mp here]

/-- Along a loop every module of it leads back to itself. -/
theorem IsLoop.transGen {loop : List String} (isLoop : g.IsLoop loop) {id : String}
    (member : id ∈ loop) : TransGen g.DependsOn id id := by
  obtain ⟨first, rest, rfl⟩ := List.exists_cons_of_ne_nil isLoop.nonempty
  obtain ⟨last, top⟩ := Option.isSome_iff_exists.mp (List.getLast?_isSome.mpr isLoop.nonempty)
  have closing : closing? (first :: rest) = some (last, first) := closing?_eq_some.mpr ⟨top, rfl⟩
  obtain ⟨there, back⟩ := isLoop.reaches closing id member
  exact (TransGen.tail' back (isLoop.closes _ closing)).trans_left there

theorem IsLoop.exists_transGen {loop : List String} (isLoop : g.IsLoop loop) :
    ∃ id, TransGen g.DependsOn id id :=
  ⟨_, isLoop.transGen (List.head_mem isLoop.nonempty)⟩

/-- What runs from a module back to it stays among the modules that reach it and are reached. -/
theorem transGen_between {id : String} (walk : TransGen g.DependsOn u v) (start : g.Reaches id u)
    (back : g.Reaches v id) :
    TransGen (fun u v => g.DependsOn u v ∧ g.Reaches id u ∧ g.Reaches v id) u v := by
  induction walk with
  | single edge => exact .single ⟨edge, start, back⟩
  | tail walk edge ih =>
    exact (ih (back.head edge)).tail ⟨edge, start.trans walk.to_reflTransGen, back⟩

end Loops

/-- The search for cycles reports cycles, none of them twice, and enough of them to break every loop
of the graph, whatever changes the graph has been through. -/
theorem cycles_break_loops (ms : List Mutation) :
    let g := ofMutations ms
    ∃ cycles, (g.cycles unchecked).result = .ok cycles ∧ (∀ c ∈ cycles, g.IsCycle c) ∧
      cycles.Pairwise (fun c d => ¬ c.IsRotated d) ∧
      (∀ loop, g.IsLoop loop → ∃ c ∈ cycles, ∃ e, closing? c = some e ∧ Uses loop e) ∧
      (∀ id, ¬ TransGen (fun u v => g.DependsOn u v ∧ some (u, v) ∉ cycles.map closing?) id id) ∧
      (cycles = [] ↔ ∀ id, ¬ TransGen g.DependsOn id id) ∧
      ∀ id, TransGen g.DependsOn id id →
        ∃ c ∈ cycles, ∀ other ∈ c, g.Reaches id other ∧ g.Reaches other id := by
  intro g
  have keys : g.outgoing.keys = g.moduleIds := keys_outgoing_ofMutations ms
  obtain ⟨cycles, left, final, explores⟩ :=
    exists_explores (closed_ofMutations ms) [] ∅ g.moduleIds (by simp) fun _ known => keys ▸ known
  have trail : g.Trail [] ∅ g.moduleIds := .start ∅ _
  have sound := explores.isCycle trail
  have once : (cycles.map closing?).Nodup := (explores.closings trail g.nodes.nodup_keys).2
  -- The order of leaving falls along every edge that closes no cycle.
  have falls : ∀ u v, g.DependsOn u v →
      some (u, v) ∉ cycles.map closing? → left.idxOf v < left.idxOf u := by
    intro u v edge unclosed
    have entered := explores.closed.1 u (keys ▸ edge.mem_keys)
    have leaves := ((explores.mem_final u).mp entered).resolve_left (OrderedSet.not_mem_empty u)
    rcases explores.settled.2 u leaves v edge with closing | ⟨none, -⟩ | before
    · exact absurd closing unclosed
    · exact absurd none (OrderedSet.not_mem_empty v)
    · exact idxOf_lt_idxOf explores.nodup_left.1 before
  have broken : ∀ id, ¬ TransGen
      (fun u v => g.DependsOn u v ∧ some (u, v) ∉ cycles.map closing?) id id := fun id walk =>
    lt_irrefl _ (rank_lt_of_transGen left.idxOf (fun u v edge => falls u v edge.1 edge.2) walk)
  have loops : ∀ id, TransGen g.DependsOn id id →
      ∃ c ∈ cycles, ∀ other ∈ c, g.Reaches id other ∧ g.Reaches other id := by
    intro id walk
    by_contra none
    refine lt_irrefl _ (rank_lt_of_transGen left.idxOf ?_
      (transGen_between walk .refl .refl))
    rintro u v ⟨edge, start, back⟩
    refine falls u v edge fun closing => none ?_
    obtain ⟨c, member, closing⟩ := List.mem_map.mp closing
    refine ⟨c, member, fun other inside => ?_⟩
    obtain ⟨first, last⟩ := (sound c member).1.reaches closing other inside
    exact ⟨(start.tail edge).trans first, last.trans (back.head edge)⟩
  refine ⟨cycles, ?_, fun c member => (sound c member).1, ?_, ?_, broken, ⟨?_, ?_⟩, loops⟩
  · rw [Graph.cycles, explores.cyclesFromAll_eq, pure_bind, result_pure]
    simp
  · -- Reported cycles are parts of one list without repetitions.
    refine (List.Nodup.of_map _ once).imp_of_mem fun {c d} first second apart rotated => ?_
    obtain ⟨-, order⟩ := sound c first
    obtain ⟨-, order'⟩ := sound d second
    exact apart ((List.Nodup.perm_iff_eq_of_sublist final.nodup order order').mp rotated.perm)
  · intro loop isLoop
    obtain ⟨⟨u, v⟩, uses, rises⟩ := isLoop.exists_rise left.idxOf
    have closing : some (u, v) ∈ cycles.map closing? := by
      by_contra unclosed
      exact rises (falls u v (isLoop.dependsOn uses) unclosed)
    obtain ⟨c, member, closing⟩ := List.mem_map.mp closing
    exact ⟨c, member, (u, v), closing, uses⟩
  · intro none id walk
    obtain ⟨c, member, -⟩ := loops id walk
    rw [none] at member
    cases member
  · intro acyclic
    rw [List.eq_nil_iff_forall_not_mem]
    intro c member
    obtain ⟨id, walk⟩ := (sound c member).1.exists_transGen
    exact acyclic id walk

/-- Two cycles share a module, and a module before them is on none: each cycle has a module on one
that is reported, and no reported one has the module before. -/
theorem cycles_break_loops_shared :
    let add (id : String) : Mutation := .addModule id ∅ false 0
    let ms := [add "a", add "b", add "c", add "d", .addDependency "d" "a", .addDependency "a" "b",
      .addDependency "b" "a", .addDependency "b" "c", .addDependency "c" "b"]
    let g := ofMutations ms
    ∃ cycles, (g.cycles unchecked).result = .ok cycles ∧
      cycles.Pairwise (fun c d => ¬ c.IsRotated d) ∧ (∀ c ∈ cycles, g.IsCycle c ∧ "d" ∉ c) ∧
      (∃ c ∈ cycles, "a" ∈ c) ∧ ∃ c ∈ cycles, "c" ∈ c := by
  intro add ms g
  obtain ⟨cycles, met, sound, once, broken, -⟩ := cycles_break_loops ms
  have edges : (Diagram.ofMutations ms).edges =
      [("d", "a"), ("a", "b"), ("b", "a"), ("b", "c"), ("c", "b")] := by decide +kernel
  have edge : ∀ u v, g.DependsOn u v ↔
      (u, v) ∈ [("d", "a"), ("a", "b"), ("b", "a"), ("b", "c"), ("c", "b")] := by
    intro u v
    rw [← edges]
    exact dependsOn_ofMutations
  -- A cycle of two is broken at one of its two edges, and both have both modules.
  have pair : ∀ u v, g.DependsOn u v → g.DependsOn v u → ∃ c ∈ cycles, u ∈ c ∧ v ∈ c := by
    intro u v there back
    have isLoop : g.IsLoop [u, v] := by
      refine ⟨List.cons_ne_nil _ _, by simpa using there, ?_⟩
      rintro e closing
      obtain rfl := Option.some.inj closing
      exact back
    obtain ⟨c, member, e, closing, uses⟩ := broken _ isLoop
    obtain ⟨last, first⟩ := closing?_eq_some.mp closing
    have ends : e.1 ∈ c ∧ e.2 ∈ c := ⟨List.mem_of_getLast? last, List.mem_of_head? first⟩
    refine ⟨c, member, ?_⟩
    rcases uses with infix' | closes
    · obtain ⟨rfl, rfl⟩ : e.1 = u ∧ e.2 = v := by
        simpa using infix'.eq_of_length rfl
      exact ends
    · obtain rfl := Option.some.inj closes
      exact ends.symm
  refine ⟨cycles, met, once, fun c member => ⟨sound c member, fun inside => ?_⟩, ?_, ?_⟩
  · obtain ⟨before, -, step⟩ := TransGen.tail'_iff.mp ((sound c member).toIsLoop.transGen inside)
    simpa using (edge _ _).mp step
  · obtain ⟨c, member, inside, -⟩ :=
      pair "a" "b" ((edge _ _).mpr (by decide)) ((edge _ _).mpr (by decide))
    exact ⟨c, member, inside⟩
  · obtain ⟨c, member, -, inside⟩ :=
      pair "b" "c" ((edge _ _).mpr (by decide)) ((edge _ _).mpr (by decide))
    exact ⟨c, member, inside⟩

end ModuleBundler.Graph
