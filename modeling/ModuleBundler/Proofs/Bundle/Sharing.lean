import Mathlib.Data.List.Induction
import ModuleBundler.Proofs.Bundle.Ledger

/-! How many builds the calls for one key take, while nothing is cleared and no build
fails. The look into the cache and the claim are two steps. A call that has looked
in vain may come to its claim when the text is there and the build that stored it is
no longer in flight; it then owns a second build. One build is enough exactly if no
claim is as late as that. -/
namespace ModuleBundler

namespace Cache

variable {ε : Type} {c d : Cache ε} {key : Key}

/-- Every build of the only key has stored its text, but for the one in flight. -/
structure Tally (key : Key) (c : Cache ε) : Prop where
  busy : ∀ {ticket}, c.inFlight.get? key = some ticket →
    c.builds.length = c.statistics.stores + 1
  idle : c.inFlight.get? key = none → c.builds.length = c.statistics.stores
  filled : c.contains key = true ↔ 0 < c.statistics.stores

namespace Tally

theorem empty (key : Key) : Tally key (Cache.empty : Cache ε) where
  busy flying := by cases flying
  idle _ := rfl
  filled := by simp [Cache.empty, Table.contains_iff_isSome, contains, Statistics.zero]

theorem of_same (tally : Tally key c) (inFlight : d.inFlight = c.inFlight)
    (builds : d.builds = c.builds) (stores : d.statistics.stores = c.statistics.stores)
    (entries : d.entries = c.entries) : Tally key d := by
  constructor
  · intro ticket flying
    rw [inFlight] at flying
    rw [builds, stores]
    exact tally.busy flying
  · intro idle
    rw [inFlight] at idle
    rw [builds, stores]
    exact tally.idle idle
  · rw [contains, entries, stores]
    exact tally.filled

theorem lookUp (tally : Tally key c) : Tally key (lookUp key c).2 :=
  tally.of_same (inFlight_lookUp key c) (builds_lookUp key c) (stores_lookUp key c)
    (entries_lookUp key c)

theorem join (tally : Tally key c) {ticket : Ticket}
    (flying : c.inFlight.get? key = some ticket) : Tally key (beginBuild key c).2 := by
  rw [beginBuild_of_some flying]
  exact tally.of_same rfl rfl rfl rfl

theorem claim (tally : Tally key c) (idle : c.inFlight.get? key = none) :
    Tally key (beginBuild key c).2 := by
  rw [beginBuild_of_none idle]
  constructor
  · intro ticket _
    rw [List.length_append]
    exact congrArg (· + 1) (tally.idle idle)
  · intro gone
    rw [Table.get?_insert_self] at gone
    cases gone
  · exact tally.filled

theorem store (tally : Tally key c) {ticket : Ticket} {text : String}
    (flying : c.inFlight.get? key = some ticket) :
    Tally key (finishBuild key ticket c.generation (.ok text) c).2 := by
  have stores : (finishBuild key ticket c.generation (.ok text) c).2.statistics.stores =
      c.statistics.stores + 1 := by
    rw [statistics_finishBuild, settled, if_pos rfl, Cache.store]
  have gone : (finishBuild key ticket c.generation (.ok text) c).2.inFlight.get? key = none := by
    rw [inFlight_finishBuild, get?_release, if_pos ⟨rfl, flying⟩]
  constructor
  · intro other marked
    rw [gone] at marked
    cases marked
  · intro _
    rw [length_builds_finishBuild, stores]
    exact tally.busy flying
  · rw [stores, contains, entries_finishBuild, settled, if_pos rfl, Cache.store,
      Table.contains_iff_isSome]
    simp

end Tally
end Cache

namespace Bundle.Concurrency

open Source Cache

universe u

variable {ι : Type u}

/-- Calls share a key, nothing was cleared, and the builds add up. -/
structure Shared (key : Key) (s : State ι) : Prop where
  coherent : Coherent s.site.cache s.held
  keyed : ∀ i, (s.requests i).key = key
  current : ∀ {i h}, s.held i = some h → h.generation = s.site.cache.generation
  tally : Tally key s.site.cache

variable {key : Key} {b : Bundler} {host : Host} {calls : ι → Call}

theorem initial_shared (same : ∀ i, (calls i).key = key) : Shared key (initial b host calls) where
  coherent := initial_coherent b host calls
  keyed := same
  current {i h} holds := by
    simp only [State.held, initial, Call.request, Request.start, Request.held?] at holds
    cases forced : (calls i).force <;> simp [forced] at holds
  tally := .empty key

theorem Shared.inFlight_of_answered {s : State ι} (shared : Shared key s)
    (answered : ∀ i, (s.requests i).result?.isSome = true) :
    s.site.cache.inFlight.get? key = none := by
  cases flying : s.site.cache.inFlight.get? key with
  | none => rfl
  | some ticket =>
    obtain ⟨i, holds⟩ := shared.coherent.owned flying
    have settled := answered i
    unfold State.held Request.held? at holds
    unfold Request.result? at settled
    split at settled
    next finished =>
      rw [finished] at holds
      cases holds
    next => cases settled

variable [DecidableEq ι]

/-- Some call claims the build of its key when the cache has the text by then. -/
def LateClaim (b : Bundler) (host : Host) (calls : ι → Call) (moves : List (Move ι)) : Prop :=
  ∃ before i after, moves = before ++ .advance i :: after ∧
    ((run b host calls before).requests i).phase = .claiming ∧
    (run b host calls before).site.cache.contains (calls i).key = true

variable {s t : State ι} {move : Move ι} {moves : List (Move ι)}

theorem Shared.moved (shared : Shared key s) (effect : Effect s move t)
    (unbroken : move.clears = false)
    (unfailed : ∀ ticket e, t.site.cache.result? ticket ≠ some (.error e)) : Shared key t := by
  constructor
  · exact effect.coherent shared.coherent
  · intro i
    exact (effect.key i).trans (shared.keyed i)
  · intro i h holds
    rw [effect.generation unbroken]
    rcases effect.holds holds with before | ⟨-, -, rfl⟩
    · exact shared.current before
    · rfl
  · cases effect with
    | @advanced i r site turn =>
      have tally : Tally (s.requests i).key s.site.cache := (shared.keyed i).symm ▸ shared.tally
      change Tally key site.cache
      rw [← shared.keyed i]
      cases turn with
      | found | missed => exact tally.lookUp
      | granted _ idle => exact tally.claim idle
      | joined _ flying => exact tally.join flying
      | @ended ticket generation result _ ending =>
        have holds := held_of_ending ending
        have current : generation = s.site.cache.generation := shared.current holds
        subst current
        cases result with
        | ok text => exact tally.store (shared.coherent.marked holds rfl)
        | error e =>
          have failed := result?_finishBuild (s.requests i).key s.site.cache.generation (.error e)
            (shared.coherent.pending holds) (shared.coherent.known holds) ticket
          rw [if_pos rfl] at failed
          exact absurd failed (unfailed ticket e)
      | unstarted | started | went | built | failed | served | waits | rests => exact tally
    | cleared clears =>
      rw [clears] at unbroken
      cases unbroken
    | changed | disturbed => exact shared.tally

omit [DecidableEq ι] in
theorem builds_le_one_iff_of_same
    (length : t.site.cache.builds.length = s.site.cache.builds.length)
    (unclaimed : ∀ i, move = .advance i → (s.requests i).phase ≠ .claiming) :
    t.site.cache.builds.length ≤ 1 ↔ s.site.cache.builds.length ≤ 1 ∧
      ∀ i, move = .advance i → (s.requests i).phase = .claiming →
        s.site.cache.contains key ≠ true := by
  rw [length]
  exact ⟨fun few => ⟨few, fun i same claiming => absurd claiming (unclaimed i same)⟩, And.left⟩

/-- A move leaves at most one build if there was at most one and it is no late claim. -/
theorem Shared.builds_le_one_iff (shared : Shared key s) (effect : Effect s move t) :
    t.site.cache.builds.length ≤ 1 ↔ s.site.cache.builds.length ≤ 1 ∧
      ∀ i, move = .advance i → (s.requests i).phase = .claiming →
        s.site.cache.contains key ≠ true := by
  have tally := shared.tally
  have filled := tally.filled
  cases effect with
  | @advanced i r site turn =>
    have elsewhere : (s.requests i).phase ≠ .claiming →
        ∀ j, Move.advance i = .advance j → (s.requests j).phase ≠ .claiming := by
      rintro phase j same
      cases same
      exact phase
    cases turn with
    | granted claiming idle =>
      rw [shared.keyed i] at idle
      have length := tally.idle idle
      change (beginBuild _ _).2.builds.length ≤ 1 ↔ _
      rw [shared.keyed i, beginBuild_of_none idle]
      simp only [List.length_append, List.length_singleton]
      constructor
      · intro few
        exact ⟨by omega, fun _ _ _ late => by have := filled.mp late; omega⟩
      · rintro ⟨_, timely⟩
        have unfilled : ¬ 0 < s.site.cache.statistics.stores := fun some =>
          timely i rfl claiming (filled.mpr some)
        omega
    | joined claiming flying =>
      rw [shared.keyed i] at flying
      have length := tally.busy flying
      change (beginBuild _ _).2.builds.length ≤ 1 ↔ _
      rw [shared.keyed i, beginBuild_of_some flying]
      change s.site.cache.builds.length ≤ 1 ↔ _
      refine ⟨fun few => ⟨few, fun _ _ _ late => ?_⟩, And.left⟩
      have := filled.mp late
      omega
    | found phase | missed phase =>
      exact builds_le_one_iff_of_same (congrArg List.length (builds_lookUp _ _))
        (elsewhere (by simp [phase]))
    | ended phase =>
      exact builds_le_one_iff_of_same length_builds_finishBuild (elsewhere (by simp [phase]))
    | unstarted phase | started phase | went phase | built phase | failed phase | served phase
    | waits phase | rests phase => exact builds_le_one_iff_of_same rfl (elsewhere (by simp [phase]))
  | cleared clears =>
    refine builds_le_one_iff_of_same rfl ?_
    rintro j rfl
    cases clears
  | changed | disturbed =>
    refine builds_le_one_iff_of_same rfl ?_
    intro j same
    cases same

theorem lateClaim_concat : LateClaim b host calls (moves ++ [move]) ↔
    LateClaim b host calls moves ∨ ∃ i, move = .advance i ∧
      ((run b host calls moves).requests i).phase = .claiming ∧
      (run b host calls moves).site.cache.contains (calls i).key = true := by
  constructor
  · rintro ⟨before, i, after, order, claiming, late⟩
    rcases List.eq_nil_or_concat after with rfl | ⟨after, last, rfl⟩
    · obtain ⟨rfl, same⟩ := List.append_inj' order rfl
      cases same
      exact .inr ⟨i, rfl, claiming, late⟩
    · rw [List.concat_eq_append, ← List.cons_append, ← List.append_assoc] at order
      obtain ⟨rfl, -⟩ := List.append_inj' order rfl
      exact .inl ⟨before, i, after, rfl, claiming, late⟩
  · rintro (⟨before, i, after, rfl, claiming, late⟩ | ⟨i, rfl, claiming, late⟩)
    · exact ⟨before, i, after ++ [move], by simp, claiming, late⟩
    · exact ⟨moves, i, [], rfl, claiming, late⟩

/-- As long as no build has failed, the builds add up, and a second one takes a late claim. -/
theorem run_shared (same : ∀ i, (calls i).key = key) (unbroken : ∀ move ∈ moves, move.clears = false)
    (unfailed : ∀ ticket e, (run b host calls moves).site.cache.result? ticket ≠ some (.error e)) :
    Shared key (run b host calls moves) ∧
      ((run b host calls moves).site.cache.builds.length ≤ 1 ↔ ¬ LateClaim b host calls moves) := by
  induction moves using List.reverseRecOn with
  | nil =>
    refine ⟨initial_shared same, fun _ => ?_, fun _ => Nat.zero_le _⟩
    rintro ⟨before, i, after, order, -⟩
    cases before <;> cases order
  | append_singleton moves move ih =>
    have effect := effect_step (run b host calls moves) move
    rw [run_concat] at unfailed ⊢
    -- A build that had failed before the move would still have failed after it.
    obtain ⟨shared, few⟩ := ih (fun m member => unbroken m (List.mem_append_left _ member))
      fun ticket e failed => unfailed ticket e (effect.result? failed)
    have calm := unbroken move (List.mem_append_right _ List.mem_cons_self)
    refine ⟨shared.moved effect calm unfailed, ?_⟩
    rw [shared.builds_le_one_iff effect, few, lateClaim_concat, not_or]
    refine and_congr_right fun _ => ?_
    constructor
    · rintro timely ⟨i, moved, claiming, late⟩
      exact timely i moved claiming (same i ▸ late)
    · intro timely i moved claiming late
      exact timely ⟨i, moved, claiming, (same i).symm ▸ late⟩

/-- For any number of calls for one key, without clearings and failures, at every moment of a run:
there is a second build if and only if there was a late claim. -/
theorem one_build_iff_no_late_claim (b : Bundler) (host : Host) (key : Key) (calls : ι → Call)
    (moves : List (Move ι)) (same : ∀ i, (calls i).key = key)
    (unbroken : ∀ move ∈ moves, move.clears = false)
    (unfailed : ∀ ticket e, (run b host calls moves).site.cache.result? ticket ≠ some (.error e)) :
    ((run b host calls moves).site.cache.builds.length ≤ 1 ↔ ¬ LateClaim b host calls moves) ∧
    -- Once all calls are answered, every build has stored its text, and there was one at least.
    (Nonempty ι → (∀ i, ((run b host calls moves).requests i).result?.isSome = true) →
      (run b host calls moves).site.cache.statistics.stores =
          (run b host calls moves).site.cache.builds.length ∧
        ((run b host calls moves).site.cache.builds.length = 1 ↔
          ¬ LateClaim b host calls moves)) := by
  obtain ⟨shared, few⟩ := run_shared same unbroken unfailed
  refine ⟨few, fun ⟨i⟩ answered => ?_⟩
  have idle := shared.inFlight_of_answered answered
  obtain ⟨result, finished⟩ := Option.isSome_iff_exists.mp (answered i)
  obtain ⟨ticket, -, resolved⟩ := ((initial_recorded b host calls).continued moves).answered finished
  have known : 0 < (run b host calls moves).site.cache.builds.length :=
    Nat.zero_lt_of_lt (lt_of_result? resolved)
  refine ⟨(shared.tally.idle idle).symm, ?_⟩
  rw [← few]
  omega

/-- A call that joins in time is served by the one build. -/
theorem one_build_of_joined :
    let b : Bundler := ⟨{ Settings.default with minify := false }⟩
    let host := Host.ofDisk (Disk.empty.put "/p/m.js" (.file "a".toUTF8))
    let calls : Bool → Call := fun _ => ⟨⟨"/p", "m.js"⟩, false, none⟩
    let moves : List (Move Bool) := List.replicate 2 (.advance false) ++
      List.replicate 2 (.advance true) ++ List.replicate 7 (.advance false) ++ [.advance true]
    let reached := run b host calls moves
    (∀ i, (reached.requests i).result?.isSome = true) ∧ reached.site.cache.builds.length = 1 ∧
      reached.site.cache.statistics.stores = 1 ∧ ¬ LateClaim b host calls moves := by
  intro b host calls moves reached
  obtain ⟨answered, single, good⟩ : (∀ i, (reached.requests i).result?.isSome = true) ∧
      reached.site.cache.builds.length = 1 ∧
      (reached.site.cache.builds.all fun build => build.all Except.isOk) = true := by decide +kernel
  have unbroken : ∀ move ∈ moves, move.clears = false := by simp [moves, Move.clears]
  have law := one_build_iff_no_late_claim b host ⟨"/p", "m.js"⟩ calls moves (fun _ => rfl) unbroken
  rw [show run b host calls moves = reached from rfl] at law
  obtain ⟨-, whole⟩ := law (unfailed_of_all good)
  obtain ⟨stores, timely⟩ := whole ⟨false⟩ answered
  exact ⟨answered, single, stores.trans single, timely.mp single⟩

/-- The law that the build of a key runs once for all calls is false: two calls that look in vain
before either claims may build one after the other. -/
theorem second_build_of_late_claim :
    ¬ ∀ (b : Bundler) (host : Host) (key : Key) (calls : Bool → Call) (moves : List (Move Bool)),
      (∀ i, (calls i).key = key) → (∀ i, (calls i).force = false) →
      (∀ move ∈ moves, move.clears = false) →
      (∀ ticket e, (run b host calls moves).site.cache.result? ticket ≠ some (.error e)) →
      (∀ i, ((run b host calls moves).requests i).result?.isSome = true) →
      (run b host calls moves).site.cache.builds.length = 1 ∧
        (run b host calls moves).site.cache.statistics.stores = 1 := by
  intro law
  let b : Bundler := ⟨{ Settings.default with minify := false }⟩
  let host := Host.ofDisk (Disk.empty.put "/p/m.js" (.file "a".toUTF8))
  let calls : Bool → Call := fun _ => ⟨⟨"/p", "m.js"⟩, false, none⟩
  let moves : List (Move Bool) := [.advance false, .advance true] ++
    List.replicate 8 (.advance false) ++ List.replicate 8 (.advance true)
  obtain ⟨answered, twice, good⟩ :
      (∀ i, ((run b host calls moves).requests i).result?.isSome = true) ∧
        (run b host calls moves).site.cache.builds.length = 2 ∧
        ((run b host calls moves).site.cache.builds.all fun build => build.all Except.isOk) =
          true := by decide +kernel
  have unbroken : ∀ move ∈ moves, move.clears = false := by simp [moves, Move.clears]
  have once := (law b host ⟨"/p", "m.js"⟩ calls moves (fun _ => rfl) (fun _ => rfl) unbroken
    (unfailed_of_all good) answered).1
  rw [twice] at once
  cases once

end Bundle.Concurrency
end ModuleBundler
