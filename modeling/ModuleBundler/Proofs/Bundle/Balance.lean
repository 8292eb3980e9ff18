import Mathlib.Algebra.BigOperators.Group.Finset.Piecewise
import ModuleBundler.Proofs.Bundle.Failure
import ModuleBundler.Proofs.Cache.History

/-! The balance of a cache that is shared by calls for bundles. The calls may come from
several bundlers. A call that has looked in vain, or is forced, owes a claim; one that
has been granted its claim owes the end of a build. Debts arise and are settled by
events of the cache, so that the counters balance when nobody owes anything. -/
namespace ModuleBundler.Bundle

open Source Cache

namespace Request

/-- The operation of the cache that the next step of a request is. -/
def operation? (r : Request) : Option (Operation Failure) :=
  match r.phase with
  | .asking => some (.lookUp r.key)
  | .claiming => some (.claim r.key)
  | .ending ticket generation (.ok text) => some (.complete r.key ticket text generation)
  | .ending ticket _ (.error e) => some (.fail r.key ticket e)
  | .starting .. | .building .. | .waiting _ | .finished _ => none

/-- What happens in the cache in the next step of a request. -/
def events (r : Request) (s : Site) : List (Event Failure) := history s.cache r.operation?.toList

/-- One for a request that comes to its claim next. -/
def dueClaims (r : Request) : Nat :=
  match r.phase with
  | .claiming => 1
  | _ => 0

/-- One for a request that holds a build. -/
def dueEnds (r : Request) : Nat := if r.held?.isSome then 1 else 0

variable {r r' : Request} {s s' : Site}

theorem Turn.cache (turn : r.Turn s r' s') : s'.cache = after s.cache r.operation?.toList := by
  cases turn with
  | found phase | missed phase | granted phase | joined phase | unstarted phase | started phase
  | went phase | built phase | failed phase | served phase | waits phase | rests phase =>
    simp only [operation?, phase]
    rfl
  | @ended _ _ result _ phase =>
    cases result with
    | ok | error =>
      simp only [operation?, phase]
      rfl

theorem events_of_asking (asking : r.phase = .asking) :
    r.events s = [⟨s.cache, .lookUp r.key⟩] := by
  simp only [events, operation?, asking]
  rfl

theorem events_of_claiming (claiming : r.phase = .claiming) :
    r.events s = [⟨s.cache, .claim r.key⟩] := by
  simp only [events, operation?, claiming]
  rfl

/-- What a request owes before a step and after it, against what happens in the cache. A miss is
followed by a claim, which joins or is granted, and a grant by the end of the build. A text that is
not stored has come too late. -/
structure Balanced (r : Request) (events : List (Event Failure)) (r' : Request) : Prop where
  claims : events.countP Event.isMiss + r.dueClaims =
    events.countP Event.isJoin + events.countP Event.isGrant + r'.dueClaims
  ends : events.countP Event.isGrant + r.dueEnds = events.countP Event.isTimely +
    events.countP Event.isFailure + events.countP Event.isDiscard + r'.dueEnds

theorem Turn.balanced (turn : r.Turn s r' s')
    (begun : ∀ h, r.held? = some h → h.generation ≤ s.cache.generation) :
    r.Balanced (r.events s) r' := by
  cases turn with
  | found phase present =>
    have hit := Event.isMiss_lookUp s.cache r.key
    rw [present] at hit
    rw [events_of_asking phase]
    constructor
    · rw [List.countP_singleton, hit, dueClaims, phase]
      rfl
    · rw [dueEnds, held?, phase]
      rfl
  | missed phase absent =>
    have miss := Event.isMiss_lookUp s.cache r.key
    rw [absent] at miss
    rw [events_of_asking phase]
    constructor
    · rw [List.countP_singleton, miss, dueClaims, phase]
      rfl
    · rw [dueEnds, held?, phase]
      rfl
  | granted phase idle =>
    have grant := Event.isGrant_claim s.cache r.key
    have join := Event.isJoin_claim s.cache r.key
    rw [idle] at grant join
    rw [events_of_claiming phase]
    constructor
    · simp only [List.countP_singleton, grant, join, dueClaims, phase]
      rfl
    · simp only [List.countP_singleton, grant, dueEnds, held?, phase]
      rfl
  | joined phase flying =>
    have grant := Event.isGrant_claim s.cache r.key
    have join := Event.isJoin_claim s.cache r.key
    rw [flying] at grant join
    rw [events_of_claiming phase]
    constructor
    · simp only [List.countP_singleton, grant, join, dueClaims, phase]
      rfl
    · simp only [List.countP_singleton, grant, dueEnds, held?, phase]
      rfl
  | @ended ticket generation result host phase =>
    have holds : r.held? = some ⟨ticket, r.key, generation⟩ := by simp only [held?, phase]
    have claimed : generation ≤ s.cache.generation := begun _ holds
    cases result with
    | ok text =>
      have last : r.events s = [⟨s.cache, .complete r.key ticket text generation⟩] := by
        simp only [events, operation?, phase]
        rfl
      rw [last]
      constructor
      · rw [dueClaims, phase]
        rfl
      · simp only [List.countP_singleton, Event.isTimely, Event.isDiscard, decide_eq_true_eq,
          dueEnds, holds]
        rcases Int.lt_or_eq_of_le claimed with cleared | current
        · rw [if_neg (Int.ne_of_lt cleared), if_pos cleared]
          rfl
        · rw [if_pos current, if_neg (Int.not_lt.mpr (Int.le_of_eq current.symm))]
          rfl
    | error e =>
      have last : r.events s = [⟨s.cache, .fail r.key ticket e⟩] := by
        simp only [events, operation?, phase]
        rfl
      rw [last]
      constructor
      · rw [dueClaims, phase]
        rfl
      · rw [dueEnds, holds]
        rfl
  | unstarted phase | started phase | went phase | built phase | failed phase | served phase
  | waits phase | rests phase =>
    have quiet : r.events s = [] := by
      simp only [events, operation?, phase]
      rfl
    rw [quiet]
    constructor
    · simp only [dueClaims, goTo, phase]
      rfl
    · simp only [dueEnds, held?, goTo, phase]
      rfl

end Request
namespace Concurrency

universe u

variable {ι : Type u}

/-- Calls to several bundlers that share a cache, before anything has happened. -/
def together (bundlers : ι → Bundler) (host : Host) (calls : ι → Call) : State ι :=
  ⟨⟨Cache.empty, host⟩, fun i => (calls i).request (bundlers i)⟩

/-- The operation of the cache that a move is. -/
def State.operation? (s : State ι) : Move ι → Option (Operation Failure)
  | .advance i => (s.requests i).operation?
  | .clearCache | .sourceChanged _ => some .clear
  | .change _ | .disturb .. => none

section Run

variable [DecidableEq ι]

/-- The operations of the cache that some moves are. -/
def operations (s : State ι) : List (Move ι) → List (Operation Failure)
  | [] => []
  | move :: rest => (s.operation? move).toList ++ operations (step s move) rest

/-- The calls that some moves belong to. -/
def movers (moves : List (Move ι)) : Finset ι := (moves.filterMap Move.mover?).toFinset

variable {s t : State ι} {move : Move ι} {moves : List (Move ι)} {callers : Finset ι}

theorem mem_movers {i : ι} : i ∈ movers moves ↔ .advance i ∈ moves := by
  rw [movers, List.mem_toFinset, List.mem_filterMap]
  constructor
  · rintro ⟨move, member, mine⟩
    cases move with
    | advance j =>
      cases mine
      exact member
    | clearCache | sourceChanged | change | disturb => cases mine
  · intro member
    exact ⟨_, member, rfl⟩

theorem cache_step (s : State ι) (move : Move ι) :
    (step s move).site.cache = after s.site.cache (s.operation? move).toList := by
  cases move with
  | advance i => exact ((s.requests i).turn s.site).cache
  | clearCache => exact clearCache_does.cache s.site
  | sourceChanged path => exact (onSourceChanged_does path).cache s.site
  | change | disturb => rfl

/-- A run comes to its operations on the cache. -/
theorem cache_runFrom (s : State ι) (moves : List (Move ι)) :
    (runFrom s moves).site.cache = after s.site.cache (operations s moves) := by
  induction moves generalizing s with
  | nil => rfl
  | cons move rest ih =>
    rw [operations, after_append, ← cache_step]
    exact ih (step s move)

/-- What the others amount to is left as it is by a call's own move. -/
theorem sum_advance (due : Request → Nat) {i : ι} (effect : Effect s (.advance i) t)
    (called : i ∈ callers) :
    ∑ j ∈ callers, due (t.requests j) + due (s.requests i) =
      ∑ j ∈ callers, due (s.requests j) + due (t.requests i) := by
  have others : ∑ j ∈ callers.erase i, due (t.requests j) =
      ∑ j ∈ callers.erase i, due (s.requests j) := by
    refine Finset.sum_congr rfl fun j member => ?_
    have ne : Move.advance i ≠ .advance j := by
      rintro ⟨⟩
      exact Finset.ne_of_mem_erase member rfl
    rw [effect.requests_of_ne ne]
  rw [← Finset.add_sum_erase _ _ called, ← Finset.add_sum_erase _ _ called, others]
  omega

/-- What happens in the cache in the course of some moves. -/
def State.history (s : State ι) (moves : List (Move ι)) : List (Event Failure) :=
  Cache.history s.site.cache (operations s moves)

theorem history_cons (s : State ι) (move : Move ι) (rest : List (Move ι)) :
    s.history (move :: rest) =
      Cache.history s.site.cache (s.operation? move).toList ++ (step s move).history rest := by
  rw [State.history, operations, history_append, ← cache_step]
  rfl

/-- What all callers owe before some moves and after them. -/
structure Balanced (callers : Finset ι) (s : State ι) (events : List (Event Failure))
    (t : State ι) : Prop where
  claims : events.countP Event.isMiss + ∑ i ∈ callers, (s.requests i).dueClaims =
    events.countP Event.isJoin + events.countP Event.isGrant +
      ∑ i ∈ callers, (t.requests i).dueClaims
  ends : events.countP Event.isGrant + ∑ i ∈ callers, (s.requests i).dueEnds =
    events.countP Event.isTimely + events.countP Event.isFailure +
      events.countP Event.isDiscard + ∑ i ∈ callers, (t.requests i).dueEnds

theorem step_balanced (coherent : Coherent s.site.cache s.held) (move : Move ι)
    (called : ∀ i, move = .advance i → i ∈ callers) :
    Balanced callers s (Cache.history s.site.cache (s.operation? move).toList) (step s move) := by
  cases move with
  | advance i =>
    have effect := effect_step s (.advance i)
    have balanced := effect.turn.balanced fun h holds => coherent.begun holds
    have claims := sum_advance Request.dueClaims effect (called i rfl)
    have ends := sum_advance Request.dueEnds effect (called i rfl)
    change Balanced callers s ((s.requests i).events s.site) _
    constructor
    · have own := balanced.claims
      omega
    · have own := balanced.ends
      omega
  | clearCache | sourceChanged | change | disturb => constructor <;> rfl

theorem runFrom_balanced (coherent : Coherent s.site.cache s.held)
    (called : ∀ i, .advance i ∈ moves → i ∈ callers) :
    Balanced callers s (s.history moves) (runFrom s moves) := by
  induction moves generalizing s with
  | nil => exact ⟨rfl, rfl⟩
  | cons move rest ih =>
    have first := step_balanced coherent move fun i same => called i (same ▸ List.mem_cons_self)
    have later := ih ((effect_step s move).coherent coherent)
      fun i member => called i (List.mem_cons_of_mem _ member)
    rw [history_cons]
    change Balanced callers s _ (runFrom (step s move) rest)
    constructor
    · have now := first.claims
      have after := later.claims
      simp only [List.countP_append]
      omega
    · have now := first.ends
      have after := later.ends
      simp only [List.countP_append]
      omega

/-- Calls put nothing into the cache but by ending a build. -/
theorem puts_history (s : State ι) (moves : List (Move ι)) :
    (s.history moves).countP Event.isPut = 0 := by
  induction moves generalizing s with
  | nil => rfl
  | cons move rest ih =>
    have unput : ∀ operation ∈ s.operation? move,
        Event.isPut ⟨s.site.cache, operation⟩ = false := by
      intro operation next
      cases move with
      | advance i =>
        change (s.requests i).operation? = some operation at next
        unfold Request.operation? at next
        split at next <;> cases next <;> rfl
      | clearCache | sourceChanged =>
        cases next
        rfl
      | change | disturb => cases next
    rw [history_cons, List.countP_append, ih]
    cases next : s.operation? move with
    | none => rfl
    | some operation =>
      change List.countP Event.isPut [⟨s.site.cache, operation⟩] + 0 = 0
      rw [List.countP_singleton, unput operation next]
      rfl

end Run

section Together

variable {bundlers : ι → Bundler} {host : Host} {calls : ι → Call}

/-- At the start, nobody holds a build. -/
theorem held_together (i : ι) : ((together bundlers host calls).requests i).held? = none := by
  simp only [together, Call.request, Request.start, Request.held?]
  cases (calls i).force <;> rfl

theorem together_coherent :
    Coherent (together bundlers host calls).site.cache (together bundlers host calls).held := by
  have idle : (together bundlers host calls).held = fun _ => none := funext held_together
  rw [idle]
  exact .empty

theorem dueClaims_together (callers : Finset ι) :
    ∑ i ∈ callers, ((together bundlers host calls).requests i).dueClaims =
      (callers.filter fun i => (calls i).force).card := by
  rw [Finset.card_filter]
  refine Finset.sum_congr rfl fun i _ => ?_
  simp only [together, Call.request, Request.start, Request.dueClaims]
  cases (calls i).force <;> rfl

theorem dueEnds_together (callers : Finset ι) :
    ∑ i ∈ callers, ((together bundlers host calls).requests i).dueEnds = 0 := by
  refine Finset.sum_eq_zero fun i _ => ?_
  rw [Request.dueEnds, held_together]
  rfl

theorem due_of_answered {r : Request} (answered : r.result?.isSome = true) :
    r.dueClaims = 0 ∧ r.dueEnds = 0 := by
  obtain ⟨result, given⟩ := Option.isSome_iff_exists.mp answered
  have finished := Request.result?_eq_some.mp given
  simp [Request.dueClaims, Request.dueEnds, Request.held?, finished]

end Together

/-- The counters of a cache agree with its history, whatever was asked of it; and those of a cache
that calls for bundles share balance whenever each call that has begun is over. -/
theorem counters_reconcile {ε : Type} {ι : Type u} [DecidableEq ι] :
    (∀ operations : List (Operation ε),
      let c := after .empty operations
      let events := Cache.history .empty operations
      c.statistics.currentEntryCount = c.size ∧
      IsGreatest {n | ∃ sooner, sooner <+: operations ∧ n = (after .empty sooner).size}
        c.statistics.peakEntryCount ∧
      c.statistics.clears = c.generation ∧
      c.statistics.hits + c.statistics.misses = events.countP Event.isLookUp ∧
      c.statistics.stores = events.countP Event.isPut + events.countP Event.isTimely ∧
      c.statistics.failures = events.countP Event.isFailure ∧
      c.statistics.coalescedWaits = events.countP Event.isJoin) ∧
    ∀ (bundlers : ι → Bundler) (host : Host) (calls : ι → Call) (moves : List (Move ι)),
      let s := together bundlers host calls
      let forced := (movers moves).filter fun i => (calls i).force
      let c := (runFrom s moves).site.cache
      let granted := (s.history moves).countP Event.isGrant
      (∀ i, .advance i ∈ moves → ((runFrom s moves).requests i).result?.isSome = true) →
      c.statistics.misses + forced.card = c.statistics.coalescedWaits + granted ∧
        granted = c.statistics.stores + c.statistics.failures +
          (s.history moves).countP Event.isDiscard := by
  constructor
  · intro operations c events
    have measured := measured_after operations
    exact ⟨measured.current, peak_after operations, measured.clears, lookUps_after operations,
      stores_after operations, failures_after operations, joins_after operations⟩
  · intro bundlers host calls moves s forced c granted answered
    have cache : c = after .empty (operations s moves) := cache_runFrom s moves
    have balanced : Balanced (movers moves) s (s.history moves) (runFrom s moves) :=
      runFrom_balanced together_coherent fun i => mem_movers.mpr
    have settled : ∀ i ∈ movers moves, ((runFrom s moves).requests i).dueClaims = 0 ∧
        ((runFrom s moves).requests i).dueEnds = 0 :=
      fun i member => due_of_answered (answered i (mem_movers.mp member))
    have claims := balanced.claims
    have ends := balanced.ends
    have puts := puts_history s moves
    rw [dueClaims_together, Finset.sum_eq_zero fun i member => (settled i member).1] at claims
    rw [dueEnds_together, Finset.sum_eq_zero fun i member => (settled i member).2] at ends
    rw [cache, misses_after, joins_after, stores_after, failures_after]
    change (s.history moves).countP _ + forced.card = (s.history moves).countP _ + granted ∧
      granted = (s.history moves).countP _ + (s.history moves).countP _ +
        (s.history moves).countP _ + _
    rw [puts]
    exact ⟨by omega, by omega⟩

/-- A text that comes after a clearing, a forced build in its place, and a call that joins that. -/
theorem counters_reconcile_discarded :
    let b : Bundler := ⟨{ Settings.default with minify := false }⟩
    let host := Host.ofDisk (Disk.empty.put "/p/m.js" (.file "a".toUTF8))
    let calls : Fin 3 → Call := fun i => ⟨⟨"/p", "m.js"⟩, i = 1, none⟩
    let moves : List (Move (Fin 3)) := List.replicate 2 (.advance 0) ++ [.clearCache] ++
      [.advance 1] ++ List.replicate 2 (.advance 2) ++ List.replicate 6 (.advance 0) ++
      List.replicate 6 (.advance 1) ++ [.advance 2]
    let s := together (fun _ => b) host calls
    let c := (runFrom s moves).site.cache
    (∀ i, .advance i ∈ moves → ((runFrom s moves).requests i).result?.isSome = true) ∧
      c.statistics.misses + 1 = c.statistics.coalescedWaits + 2 ∧
      2 = c.statistics.stores + c.statistics.failures + 1 := by
  intro b host calls moves s
  dsimp only
  obtain ⟨answered, forced, granted, discarded⟩ :
      (∀ i, ((runFrom s moves).requests i).result?.isSome = true) ∧
        ((movers moves).filter fun i => (calls i).force).card = 1 ∧
        (s.history moves).countP Event.isGrant = 2 ∧
        (s.history moves).countP Event.isDiscard = 1 := by decide +kernel
  have law := (counters_reconcile (ε := Failure)).2 (fun _ => b) host calls moves
  dsimp only at law
  rw [show together (fun _ => b) host calls = s from rfl, forced, granted, discarded] at law
  have all : ∀ i, .advance i ∈ moves → ((runFrom s moves).requests i).result?.isSome = true :=
    fun i _ => answered i
  exact ⟨all, law all⟩

end Concurrency
end ModuleBundler.Bundle
