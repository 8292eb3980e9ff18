import ModuleBundler.Graph.Search
import ModuleBundler.Proofs.Cancellation.Budget

/-! What the searches need of a graph and what they look at. If every target in the
outgoing table has a row there, no search misses a row. And nothing but the outgoing
table, the ids and the entry points has a part in what a search finds. A search that
does nothing to its checkpoint but poll it some times costs as much of its budget. -/
namespace ModuleBundler.Graph

open Cancellation

variable {σ α β : Type} {g h : Graph} {check : Checkpoint σ}

namespace Search

section Bind

variable {x : Search σ α} {f : α → Search σ β} {s after : σ}

theorem run_bind_of_ok {a : α} (found : x.run.run s = (.ok a, after)) :
    (x >>= f).run.run s = (f a).run.run after := by
  change ExceptT.bindCont f (x.run.run s).1 (x.run.run s).2 = _
  rw [found]
  rfl

theorem run_bind_of_error {e : Error} (failed : x.run.run s = (.error e, after)) :
    (x >>= f).run.run s = (.error e, after) := by
  change ExceptT.bindCont f (x.run.run s).1 (x.run.run s).2 = _
  rw [failed]
  rfl

end Bind

/-- No run of the search fails for want of a row. -/
def NeverMisses (search : Search σ α) : Prop :=
  ∀ s id, (search.run.run s).1 ≠ .error (.rowMissing id)

theorem neverMisses_pure (a : α) : NeverMisses (pure a : Search σ α) := fun _ _ missed => by
  cases missed

theorem NeverMisses.bind {x : Search σ α} {f : α → Search σ β} (first : NeverMisses x)
    (rest : ∀ a, NeverMisses (f a)) : NeverMisses (x >>= f) := by
  intro s id
  have here := first s id
  cases outcome : x.run.run s with
  | mk answer after =>
    rw [outcome] at here
    cases answer with
    | ok a =>
      rw [run_bind_of_ok outcome]
      exact rest a after id
    | error e =>
      rw [run_bind_of_error outcome]
      exact fun missed => here (congrArg Except.error (Except.error.inj missed))

theorem neverMisses_unknown (id : String) :
    NeverMisses (throw (.unknown id) : Search σ α) := fun _ _ missed => by cases missed

theorem neverMisses_poll (check : Checkpoint σ) (operation : String) :
    NeverMisses (poll check operation) := by
  intro s id
  unfold poll
  rw [ExceptT.run_mk, StateT.run_bind]
  cases answer : ((check operation).run.run s) with
  | mk stopped after =>
    cases stopped <;> exact fun missed => by cases missed

end Search

section Polls

/-- Polls on behalf of an operation, one after the other. -/
def polls (check : Checkpoint σ) (operation : String) : Nat → Search σ Unit
  | 0 => pure ()
  | n + 1 => do
    poll check operation
    polls check operation n

theorem polls_add (check : Checkpoint σ) (operation : String) (m n : Nat) :
    polls check operation (m + n) =
      (do polls check operation m; polls check operation n) := by
  induction m with
  | zero => rw [Nat.zero_add, polls, pure_bind]
  | succ m ih => rw [Nat.succ_add, polls, polls, ih, bind_assoc]

theorem poll_unchecked (operation : String) :
    poll unchecked operation = (pure () : Search σ Unit) := rfl

theorem polls_unchecked (operation : String) (n : Nat) :
    polls unchecked operation n = (pure () : Search σ Unit) := by
  induction n with
  | zero => rfl
  | succ n ih => rw [polls, ih, poll_unchecked, pure_bind]

variable {operation : String} {s : σ} {budget n : Nat}

theorem run_poll_of_ok {after : σ} (passed : (check operation).run.run s = (.ok (), after)) :
    (poll check operation).run.run s = (.ok (), after) := by
  unfold poll
  rw [ExceptT.run_mk, StateT.run_bind, passed]
  rfl

theorem run_poll_of_error {after : σ} {stop : Interruption}
    (stopped : (check operation).run.run s = (.error stop, after)) :
    (poll check operation).run.run s = (.error (.interrupted stop), after) := by
  unfold poll
  rw [ExceptT.run_mk, StateT.run_bind, stopped]
  rfl

theorem run_polls_within (grants : check.Grants operation s budget) (few : n ≤ budget) :
    (polls check operation n).run.run s = (.ok (), check.after operation s n) := by
  induction n generalizing s budget with
  | zero => rfl
  | succ n ih =>
    cases budget with
    | zero => exact absurd few (Nat.not_succ_le_zero n)
    | succ budget =>
      obtain ⟨passed, rest⟩ := grants.pass
      rw [polls, Search.run_bind_of_ok (run_poll_of_ok passed),
        ih rest (Nat.le_of_succ_le_succ few)]
      rfl

theorem run_polls_beyond (grants : check.Grants operation s budget) (many : budget < n) :
    ∃ stop, (polls check operation n).run.run s =
      (.error (.interrupted stop), check.after operation s (budget + 1)) := by
  induction n generalizing s budget with
  | zero => exact absurd many (Nat.not_lt_zero budget)
  | succ n ih =>
    cases budget with
    | zero =>
      obtain ⟨stop, stopped⟩ := grants.stop
      exact ⟨stop, Search.run_bind_of_error (run_poll_of_error stopped)⟩
    | succ budget =>
      obtain ⟨passed, rest⟩ := grants.pass
      obtain ⟨stop, stopped⟩ := ih rest (Nat.lt_of_succ_lt_succ many)
      refine ⟨stop, ?_⟩
      rw [polls, Search.run_bind_of_ok (run_poll_of_ok passed), stopped]
      rfl

/-- A search under a checkpoint comes to what it does without one just if the budget of the
checkpoint is no less than a cost; otherwise it is interrupted once the budget is used up. -/
structure Costs (search : {σ : Type} → Checkpoint σ → Search σ α) (operation : String)
    (cost : Nat) : Prop where
  affords : ∀ {σ : Type} (check : Checkpoint σ) (s : σ) (budget : Nat),
    check.Grants operation s budget →
      (((search check).run.run s).1 = (search unchecked).result ↔ cost ≤ budget)
  stops : ∀ {σ : Type} (check : Checkpoint σ) (s : σ) (budget : Nat),
    check.Grants operation s budget → budget < cost →
      ∃ stop, (search check).run.run s =
        (.error (.interrupted stop), check.after operation s (budget + 1))

theorem result_pure (a : α) : (pure a : Search Unit α).result = .ok a := rfl

theorem Costs.of_polls {search : {σ : Type} → Checkpoint σ → Search σ α} (a : α)
    (same : ∀ {σ : Type} (check : Checkpoint σ),
      search check = (do polls check operation n; pure a)) : Costs search operation n := by
  have whole : (search unchecked).result = .ok a := by
    rw [same, polls_unchecked, pure_bind, result_pure]
  have stops : ∀ {σ : Type} (check : Checkpoint σ) (s : σ) (budget : Nat),
      check.Grants operation s budget → budget < n → ∃ stop, (search check).run.run s =
        (.error (.interrupted stop), check.after operation s (budget + 1)) := by
    intro σ check s budget grants many
    obtain ⟨stop, stopped⟩ := run_polls_beyond grants many
    exact ⟨stop, by rw [same, Search.run_bind_of_error stopped]⟩
  refine ⟨fun check s budget grants => ⟨fun finished => ?_, fun few => ?_⟩, stops⟩
  · refine Nat.le_of_not_lt fun many => ?_
    obtain ⟨stop, stopped⟩ := stops check s budget grants many
    rw [stopped, whole] at finished
    cases finished
  · rw [same, Search.run_bind_of_ok (run_polls_within grants few), whole]
    rfl

theorem Costs.of_throw {search : {σ : Type} → Checkpoint σ → Search σ α} (e : Error)
    (same : ∀ {σ : Type} (check : Checkpoint σ), search check = throw e) :
    Costs search operation 0 where
  affords check s budget _ := by
    refine iff_of_true ?_ (Nat.zero_le budget)
    rw [same, same]
    rfl
  stops check s budget _ many := absurd many (Nat.not_lt_zero budget)

end Polls

section Equations

variable {entered met : OrderedSet String} {current next node : String} {stack pending : List String}
  {frames : List Frame}

theorem closureFrom_enter (fresh : current ∉ entered) :
    closureFrom g check entered met (current :: stack) =
      (do
        poll check "dependency traversal"
        (g.outgoing.get? current).elim (throw (.rowMissing current)) fun targets =>
          closureFrom g check (entered.insert current) (met.insertAll targets.toList)
            ((targets.toList.filter (· ∉ entered.insert current)).reverse ++ stack)) := by
  rw [closureFrom, dif_neg fresh]
  congr 1
  funext _
  split <;> simp_all

theorem cyclesFrom_enter {s : CycleSearch}
    (apart : next ∉ (⟨node, pending⟩ :: frames).map Frame.node) (fresh : next ∉ s.entered) :
    cyclesFrom g check s (⟨node, next :: pending⟩ :: frames) =
      (do
        poll check "cycle detection"
        (g.outgoing.get? next).elim (throw (.rowMissing next)) fun targets =>
          cyclesFrom g check { s with entered := s.entered.insert next }
            (⟨next, targets.toList⟩ :: ⟨node, pending⟩ :: frames)) := by
  rw [cyclesFrom, if_neg apart, dif_neg fresh]
  congr 1
  funext _
  split <;> simp_all

theorem orderFrom_enter {s : Ordering} (fresh : next ∉ s.entered) :
    orderFrom g check s (⟨node, next :: pending⟩ :: frames) =
      (do
        poll check "execution ordering"
        (g.outgoing.get? next).elim (throw (.rowMissing next)) fun targets =>
          orderFrom g check { s with entered := s.entered.insert next }
            (⟨next, targets.toList⟩ :: ⟨node, pending⟩ :: frames)) := by
  rw [orderFrom, dif_neg fresh]
  congr 1
  funext _
  split <;> simp_all

end Equations

section Rows

/-- Every target in the outgoing table has a row there. -/
def Closed (g : Graph) : Prop :=
  ∀ id targets, g.outgoing.get? id = some targets → ∀ t ∈ targets, t ∈ g.outgoing.keys

theorem row_of_mem {id : String} (inside : id ∈ g.outgoing.keys) :
    ∃ targets, g.outgoing.get? id = some targets :=
  Option.isSome_iff_exists.mp (Table.mem_keys_iff_isSome.mp inside)

theorem closureFrom_neverMisses (closed : g.Closed) (check : Checkpoint σ)
    (entered met : OrderedSet String) (stack : List String)
    (inside : ∀ id ∈ stack, id ∈ g.outgoing.keys) :
    Search.NeverMisses (closureFrom g check entered met stack) := by
  induction entered, met, stack using closureFrom.induct g with
  | case1 entered met =>
    rw [closureFrom]
    exact Search.neverMisses_pure met
  | case2 entered met current stack seen ih =>
    rw [closureFrom, dif_pos seen]
    exact ih fun id member => inside id (List.mem_cons_of_mem _ member)
  | case3 entered met current stack fresh ih =>
    obtain ⟨targets, row⟩ := row_of_mem (inside current List.mem_cons_self)
    rw [closureFrom_enter fresh, row]
    refine (Search.neverMisses_poll check _).bind fun _ => ih targets row fun id member => ?_
    rcases List.mem_append.mp member with new | old
    · exact closed current targets row id ((List.mem_filter.mp (List.mem_reverse.mp new)).1)
    · exact inside id (List.mem_cons_of_mem _ old)

/-- Whatever a stack still has to look at has a row. -/
def Inside (g : Graph) (frames : List Frame) : Prop :=
  ∀ f ∈ frames, ∀ id ∈ f.pending, id ∈ g.outgoing.keys

section Inside

variable {node next : String} {pending : List String} {frames : List Frame}
  {targets : OrderedSet String}

theorem Inside.tail {f : Frame} (inside : g.Inside (f :: frames)) : g.Inside frames :=
  fun f member => inside f (List.mem_cons_of_mem _ member)

theorem Inside.head (inside : g.Inside (⟨node, next :: pending⟩ :: frames)) :
    next ∈ g.outgoing.keys := inside _ List.mem_cons_self next List.mem_cons_self

theorem Inside.rest (inside : g.Inside (⟨node, next :: pending⟩ :: frames)) :
    g.Inside (⟨node, pending⟩ :: frames) := by
  intro f member id later
  rcases List.mem_cons.mp member with rfl | old
  · exact inside _ List.mem_cons_self id (List.mem_cons_of_mem _ later)
  · exact inside f (List.mem_cons_of_mem _ old) id later

theorem Inside.enter (inside : g.Inside frames) (closed : g.Closed)
    (row : g.outgoing.get? node = some targets) :
    g.Inside (⟨node, targets.toList⟩ :: frames) := by
  intro f member id later
  rcases List.mem_cons.mp member with rfl | old
  · exact closed node targets row id later
  · exact inside f old id later

theorem inside_start (closed : g.Closed) (row : g.outgoing.get? node = some targets) :
    g.Inside [⟨node, targets.toList⟩] :=
  Inside.enter (fun _ none => by cases none) closed row

end Inside

theorem cyclesFrom_neverMisses (closed : g.Closed) (check : Checkpoint σ) (s : CycleSearch)
    (frames : List Frame) (inside : g.Inside frames) :
    Search.NeverMisses (cyclesFrom g check s frames) := by
  induction s, frames using cyclesFrom.induct g with
  | case1 s =>
    rw [cyclesFrom]
    exact Search.neverMisses_pure s
  | case2 s node frames ih =>
    rw [cyclesFrom]
    exact ih inside.tail
  | case3 s node next pending frames rest back ih =>
    rw [cyclesFrom, if_pos back]
    exact ih inside.rest
  | case4 s node next pending frames rest apart seen ih =>
    rw [cyclesFrom, if_neg apart, dif_pos seen]
    exact ih inside.rest
  | case5 s node next pending frames rest apart fresh ih =>
    obtain ⟨targets, row⟩ := row_of_mem inside.head
    rw [cyclesFrom_enter apart fresh, row]
    exact (Search.neverMisses_poll check _).bind fun _ =>
      ih targets row (inside.rest.enter closed row)

theorem orderFrom_neverMisses (closed : g.Closed) (check : Checkpoint σ) (s : Ordering)
    (frames : List Frame) (inside : g.Inside frames) :
    Search.NeverMisses (orderFrom g check s frames) := by
  induction s, frames using orderFrom.induct g with
  | case1 s =>
    rw [orderFrom]
    exact Search.neverMisses_pure s
  | case2 s node frames ih =>
    rw [orderFrom]
    exact ih inside.tail
  | case3 s node next pending frames rest seen ih =>
    rw [orderFrom, dif_pos seen]
    exact ih inside.rest
  | case4 s node next pending frames rest fresh ih =>
    obtain ⟨targets, row⟩ := row_of_mem inside.head
    rw [orderFrom_enter fresh, row]
    exact (Search.neverMisses_poll check _).bind fun _ =>
      ih targets row (inside.rest.enter closed row)

theorem cyclesFromAll_neverMisses (closed : g.Closed) (check : Checkpoint σ) (starts : List String)
    (s : CycleSearch) (inside : ∀ id ∈ starts, id ∈ g.outgoing.keys) :
    Search.NeverMisses (cyclesFromAll g check starts s) := by
  induction starts generalizing s with
  | nil => exact Search.neverMisses_pure s
  | cons start rest ih =>
    have later : ∀ id ∈ rest, id ∈ g.outgoing.keys := fun id member =>
      inside id (List.mem_cons_of_mem _ member)
    rw [cyclesFromAll]
    split
    next => exact ih s later
    next =>
      obtain ⟨targets, row⟩ := row_of_mem (inside start List.mem_cons_self)
      rw [row]
      exact (cyclesFrom_neverMisses closed check _ _ (inside_start closed row)).bind fun s =>
        ih s later

theorem orderFromAll_neverMisses (closed : g.Closed) (check : Checkpoint σ) (starts : List String)
    (s : Ordering) (inside : ∀ id ∈ starts, id ∈ g.outgoing.keys) :
    Search.NeverMisses (orderFromAll g check starts s) := by
  induction starts generalizing s with
  | nil => exact Search.neverMisses_pure s
  | cons start rest ih =>
    have later : ∀ id ∈ rest, id ∈ g.outgoing.keys := fun id member =>
      inside id (List.mem_cons_of_mem _ member)
    rw [orderFromAll]
    split
    next => exact ih s later
    next =>
      obtain ⟨targets, row⟩ := row_of_mem (inside start List.mem_cons_self)
      rw [row]
      exact (orderFrom_neverMisses closed check _ _ (inside_start closed row)).bind fun s =>
        ih s later

variable (closed : g.Closed) (known : ∀ id ∈ g.moduleIds, id ∈ g.outgoing.keys)

include closed known

theorem allDependencies_neverMisses (check : Checkpoint σ) (id : String) :
    Search.NeverMisses (g.allDependencies check id) := by
  rw [allDependencies]
  by_cases present : g.contains id = true
  · have inside : id ∈ g.outgoing.keys := known id (of_decide_eq_true present)
    rw [present]
    exact closureFrom_neverMisses closed check _ _ _ fun other member =>
      List.mem_singleton.mp member ▸ inside
  · rw [Bool.not_eq_true] at present
    rw [present]
    exact Search.neverMisses_unknown id

theorem cycles_neverMisses (check : Checkpoint σ) : Search.NeverMisses (g.cycles check) :=
  (cyclesFromAll_neverMisses closed check _ _ known).bind fun _ => Search.neverMisses_pure _

theorem executionOrder_neverMisses (marked : ∀ id ∈ g.entryPoints, id ∈ g.moduleIds)
    (check : Checkpoint σ) : Search.NeverMisses (g.executionOrder check) := by
  refine (orderFromAll_neverMisses closed check _ _ fun id member => ?_).bind fun _ =>
    Search.neverMisses_pure _
  rcases List.mem_append.mp member with entry | other
  · exact known id (marked id entry)
  · exact known id other

end Rows

section Congruence

variable (same : h.outgoing = g.outgoing)

include same

theorem closureFrom_congr (check : Checkpoint σ) (entered met : OrderedSet String)
    (stack : List String) : closureFrom h check entered met stack =
      closureFrom g check entered met stack := by
  induction entered, met, stack using closureFrom.induct g with
  | case1 entered met => rw [closureFrom, closureFrom]
  | case2 entered met current stack seen ih =>
    rw [closureFrom, dif_pos seen, ih, closureFrom, dif_pos seen]
  | case3 entered met current stack fresh ih =>
    rw [closureFrom_enter fresh, closureFrom_enter fresh, same]
    cases row : g.outgoing.get? current with
    | none => rfl
    | some targets => simp only [Option.elim_some, ih targets row]

theorem cyclesFrom_congr (check : Checkpoint σ) (s : CycleSearch) (frames : List Frame) :
    cyclesFrom h check s frames = cyclesFrom g check s frames := by
  induction s, frames using cyclesFrom.induct g with
  | case1 s => rw [cyclesFrom, cyclesFrom]
  | case2 s node frames ih => rw [cyclesFrom, ih, cyclesFrom]
  | case3 s node next pending frames rest back ih =>
    rw [cyclesFrom, if_pos back, ih, cyclesFrom, if_pos back]
  | case4 s node next pending frames rest apart seen ih =>
    rw [cyclesFrom, if_neg apart, dif_pos seen, ih, cyclesFrom, if_neg apart, dif_pos seen]
  | case5 s node next pending frames rest apart fresh ih =>
    rw [cyclesFrom_enter apart fresh, cyclesFrom_enter apart fresh, same]
    cases row : g.outgoing.get? next with
    | none => rfl
    | some targets =>
      have deeper := ih targets row
      simp only [Option.elim_some]
      rw [deeper]

theorem orderFrom_congr (check : Checkpoint σ) (s : Ordering) (frames : List Frame) :
    orderFrom h check s frames = orderFrom g check s frames := by
  induction s, frames using orderFrom.induct g with
  | case1 s => rw [orderFrom, orderFrom]
  | case2 s node frames ih => rw [orderFrom, ih, orderFrom]
  | case3 s node next pending frames rest seen ih =>
    rw [orderFrom, dif_pos seen, ih, orderFrom, dif_pos seen]
  | case4 s node next pending frames rest fresh ih =>
    rw [orderFrom_enter fresh, orderFrom_enter fresh, same]
    cases row : g.outgoing.get? next with
    | none => rfl
    | some targets =>
      have deeper := ih targets row
      simp only [Option.elim_some]
      rw [deeper]

theorem cyclesFromAll_congr (check : Checkpoint σ) (starts : List String) (s : CycleSearch) :
    cyclesFromAll h check starts s = cyclesFromAll g check starts s := by
  induction starts generalizing s with
  | nil => rfl
  | cons start rest ih =>
    rw [cyclesFromAll, cyclesFromAll, same, ih s]
    simp only [cyclesFrom_congr same, ih]

theorem orderFromAll_congr (check : Checkpoint σ) (starts : List String) (s : Ordering) :
    orderFromAll h check starts s = orderFromAll g check starts s := by
  induction starts generalizing s with
  | nil => rfl
  | cons start rest ih =>
    rw [orderFromAll, orderFromAll, same, ih s]
    simp only [orderFrom_congr same, ih]

theorem allDependencies_congr (ids : h.moduleIds = g.moduleIds) (check : Checkpoint σ)
    (id : String) : h.allDependencies check id = g.allDependencies check id := by
  have known : h.contains id = g.contains id :=
    decide_eq_decide.mpr (iff_of_eq (congrArg (id ∈ ·) ids))
  rw [allDependencies, allDependencies, known, closureFrom_congr same]

theorem cycles_congr (ids : h.moduleIds = g.moduleIds) (check : Checkpoint σ) :
    h.cycles check = g.cycles check := by
  rw [cycles, cycles, ids, cyclesFromAll_congr same]

theorem executionOrder_congr (ids : h.moduleIds = g.moduleIds)
    (entries : h.entryPoints = g.entryPoints) (check : Checkpoint σ) :
    h.executionOrder check = g.executionOrder check := by
  rw [executionOrder, executionOrder, ids, entries, orderFromAll_congr same]

end Congruence

end ModuleBundler.Graph
