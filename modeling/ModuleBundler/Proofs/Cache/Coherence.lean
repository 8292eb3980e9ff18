import Mathlib.Logic.Function.Basic
import ModuleBundler.Proofs.Cache.Operations

/-! Coherence of a cache with those who build for it. Who they are is arbitrary:
each holds at most one build, and every operation of the cache keeps the marks in
flight, the generations and the results in step with what is held. Any system
whose members claim builds and end them inherits the invariant. -/
namespace ModuleBundler.Cache

universe u

/-- A build that is owned and not ended, under the generation of its claim. -/
structure Holding where
  ticket : Ticket
  key : Key
  generation : Int

variable {ι : Type u} {ε : Type}

/-- The builds held by members of a system are the ones that a cache waits for. -/
structure Coherent (c : Cache ε) (held : ι → Option Holding) : Prop where
  known : ∀ {i h}, held i = some h → h.ticket.number < c.builds.length
  pending : ∀ {i h}, held i = some h → c.result? h.ticket = none
  begun : ∀ {i h}, held i = some h → h.generation ≤ c.generation
  marked : ∀ {i h}, held i = some h → h.generation = c.generation →
    c.inFlight.get? h.key = some h.ticket
  owned : ∀ {key ticket}, c.inFlight.get? key = some ticket →
    ∃ i, held i = some ⟨ticket, key, c.generation⟩
  sole : ∀ {i j h k}, held i = some h → held j = some k → h.ticket = k.ticket → i = j
  apart : ∀ {i j h k}, held i = some h → held j = some k → h.key = k.key →
    h.generation = k.generation → i = j
  /-- Nobody waits in vain: a build without a result is held. -/
  kept : ∀ {t : Ticket}, t.number < c.builds.length → c.result? t = none →
    ∃ i h, held i = some h ∧ h.ticket = t

namespace Coherent

variable {c d : Cache ε} {held : ι → Option Holding} {key : Key}

theorem empty : Coherent (Cache.empty : Cache ε) fun _ : ι => none where
  known held := by contradiction
  pending held := by contradiction
  begun held := by contradiction
  marked held := by contradiction
  owned flying := by contradiction
  sole held := by contradiction
  apart held := by contradiction
  kept known := by contradiction

/-- Entries and counters play no part. -/
theorem of_same (coherent : Coherent c held) (inFlight : d.inFlight = c.inFlight)
    (generation : d.generation = c.generation) (builds : d.builds = c.builds) :
    Coherent d held := by
  have results : ∀ t, d.result? t = c.result? t := fun t => by rw [result?, builds]; rfl
  constructor
  · intro i h holds
    rw [builds]
    exact coherent.known holds
  · intro i h holds
    rw [results]
    exact coherent.pending holds
  · intro i h holds
    rw [generation]
    exact coherent.begun holds
  · intro i h holds current
    rw [inFlight]
    exact coherent.marked holds (current.trans generation)
  · intro key ticket flying
    rw [inFlight] at flying
    rw [generation]
    exact coherent.owned flying
  · exact coherent.sole
  · exact coherent.apart
  · intro t known pending
    rw [builds] at known
    rw [results] at pending
    exact coherent.kept known pending

theorem lookUp (coherent : Coherent c held) (key : Key) : Coherent (lookUp key c).2 held :=
  coherent.of_same (inFlight_lookUp key c) (generation_lookUp key c) (builds_lookUp key c)

theorem join (coherent : Coherent c held) {ticket : Ticket}
    (flying : c.inFlight.get? key = some ticket) : Coherent (beginBuild key c).2 held := by
  rw [beginBuild_of_some flying]
  exact coherent.of_same rfl rfl rfl

/-- Clearing takes every mark away; what is held belongs to older generations from then on. -/
theorem clear (coherent : Coherent c held) : Coherent (clear c).2 held := by
  have older : ∀ {i h}, held i = some h → h.generation < c.generation + 1 := fun holds =>
    Int.lt_add_one_of_le (coherent.begun holds)
  constructor
  · exact coherent.known
  · exact coherent.pending
  · exact fun holds => Int.le_of_lt (older holds)
  · exact fun holds current => absurd current (Int.ne_of_lt (older holds))
  · intro key ticket flying
    contradiction
  · exact coherent.sole
  · exact coherent.apart
  · exact coherent.kept

variable [DecidableEq ι] {i : ι}

theorem update_eq_some {j : ι} {new : Option Holding} {h : Holding}
    (holds : Function.update held i new j = some h) :
    (j = i ∧ new = some h) ∨ (j ≠ i ∧ held j = some h) := by
  by_cases same : j = i
  · subst same
    exact .inl ⟨rfl, by simpa using holds⟩
  · exact .inr ⟨same, by simpa [same] using holds⟩

theorem update_of_holds {j : ι} {h : Holding} (new : Option Holding) (other : held i ≠ some h)
    (holds : held j = some h) : Function.update held i new j = some h := by
  have different : j ≠ i := by
    rintro rfl
    exact other holds
  rw [Function.update_of_ne different]
  exact holds

/-- Whoever is told apart from all others by what it holds, still is if what is new is unlike all
that is held. -/
theorem unique_update {R : Holding → Holding → Prop} {new h k : Holding} {j l : ι}
    (unique : ∀ {j l h k}, held j = some h → held l = some k → R h k → j = l)
    (fresh : ∀ {j h}, held j = some h → ¬ R h new ∧ ¬ R new h)
    (holdsj : Function.update held i (some new) j = some h)
    (holdsl : Function.update held i (some new) l = some k) (related : R h k) : j = l := by
  rcases update_eq_some holdsj with ⟨rfl, newj⟩ | ⟨-, oldj⟩ <;>
    rcases update_eq_some holdsl with ⟨rfl, newl⟩ | ⟨-, oldl⟩
  · rfl
  · cases newj
    exact absurd related (fresh oldl).2
  · cases newl
    exact absurd related (fresh oldj).1
  · exact unique oldj oldl related

/-- A claim that is granted: the member holds a new build, which is marked. -/
theorem claim (coherent : Coherent c held) (free : held i = none)
    (idle : c.inFlight.get? key = none) : Coherent (beginBuild key c).2
      (Function.update held i (some ⟨⟨c.builds.length⟩, key, c.generation⟩)) := by
  rw [beginBuild_of_none idle]
  have results : ∀ t, Cache.result? { c with
      inFlight := c.inFlight.insert key ⟨c.builds.length⟩, builds := c.builds ++ [none] } t =
        c.result? t := result?_of_builds_append rfl
  have unheard : c.result? ⟨c.builds.length⟩ = none := by simp [result?]
  -- No older build of the current generation has the key: it would have its mark in flight.
  have fresh : ∀ {j h}, held j = some h → h.key = key → h.generation ≠ c.generation := by
    rintro j h holds rfl current
    rw [coherent.marked holds current] at idle
    contradiction
  have unknown : ∀ {j h}, held j = some h → h.ticket ≠ ⟨c.builds.length⟩ := by
    intro j h holds same
    have := coherent.known holds
    rw [same] at this
    exact Nat.lt_irrefl _ this
  constructor
  · intro j h holds
    rw [List.length_append]
    rcases update_eq_some holds with ⟨-, new⟩ | ⟨-, old⟩
    · cases new
      exact Nat.lt_succ_self _
    · exact Nat.lt_succ_of_lt (coherent.known old)
  · intro j h holds
    rw [results]
    rcases update_eq_some holds with ⟨-, new⟩ | ⟨-, old⟩
    · cases new
      exact unheard
    · exact coherent.pending old
  · intro j h holds
    rcases update_eq_some holds with ⟨-, new⟩ | ⟨-, old⟩
    · cases new
      exact Int.le_refl _
    · exact coherent.begun old
  · intro j h holds current
    rcases update_eq_some holds with ⟨-, new⟩ | ⟨-, old⟩
    · cases new
      exact Table.get?_insert_self _ _ _
    · rw [Table.get?_insert_of_ne fun same => fresh old same current]
      exact coherent.marked old current
  · intro other ticket flying
    rw [Table.get?_insert] at flying
    split at flying
    next same =>
      cases flying
      exact ⟨i, by simp [same]⟩
    next ne =>
      obtain ⟨j, holds⟩ := coherent.owned flying
      exact ⟨j, update_of_holds _ (by simp [free]) holds⟩
  · intro j l h k holdsj holdsl same
    refine unique_update (R := fun h k => h.ticket = k.ticket) coherent.sole ?_ holdsj holdsl same
    exact fun old => ⟨unknown old, fun same => unknown old same.symm⟩
  · intro j l h k holdsj holdsl key generation
    refine unique_update (R := fun h k => h.key = k.key ∧ h.generation = k.generation)
      (fun holdsj holdsl same => coherent.apart holdsj holdsl same.1 same.2) ?_ holdsj holdsl
      ⟨key, generation⟩
    exact fun old => ⟨fun same => fresh old same.1 same.2,
      fun same => fresh old same.1.symm same.2.symm⟩
  · intro t known pending
    rw [results] at pending
    rw [List.length_append] at known
    rcases Nat.lt_succ_iff_lt_or_eq.mp known with older | newest
    · obtain ⟨j, h, holds, same⟩ := coherent.kept older pending
      exact ⟨j, h, update_of_holds _ (by simp [free]) holds, same⟩
    · exact ⟨i, _, Function.update_self _ _ _, by cases t; simp_all⟩

/-- Ending a build: its result is given out, and only its own mark goes. -/
theorem finish (coherent : Coherent c held) {h : Holding} (holds : held i = some h)
    (result : Except ε String) : Coherent (finishBuild h.key h.ticket h.generation result c).2
      (Function.update held i none) := by
  have results := result?_finishBuild h.key h.generation result (coherent.pending holds)
    (coherent.known holds)
  have length : (finishBuild h.key h.ticket h.generation result c).2.builds.length =
      c.builds.length := length_builds_finishBuild
  have others : ∀ {j k}, Function.update held i none j = some k →
      j ≠ i ∧ held j = some k := by
    intro j k holdsj
    rcases update_eq_some holdsj with ⟨-, new⟩ | old
    · contradiction
    · exact old
  have distinct : ∀ {j k}, j ≠ i → held j = some k → k.ticket ≠ h.ticket := fun ne holdsj same =>
    ne (coherent.sole holdsj holds same)
  constructor
  · intro j k holdsj
    rw [length]
    exact coherent.known (others holdsj).2
  · intro j k holdsj
    obtain ⟨ne, old⟩ := others holdsj
    rw [results, if_neg (distinct ne old)]
    exact coherent.pending old
  · intro j k holdsj
    rw [generation_finishBuild]
    exact coherent.begun (others holdsj).2
  · intro j k holdsj current
    obtain ⟨ne, old⟩ := others holdsj
    rw [generation_finishBuild] at current
    rw [inFlight_finishBuild, get?_release, if_neg]
    · exact coherent.marked old current
    · rintro ⟨same, marked⟩
      have mine := coherent.marked old current
      rw [same, marked] at mine
      exact distinct ne old (Option.some.inj mine).symm
  · intro key ticket flying
    rw [inFlight_finishBuild, get?_release] at flying
    split at flying
    next => contradiction
    next unmarked =>
      obtain ⟨j, old⟩ := coherent.owned flying
      rw [generation_finishBuild]
      refine ⟨j, update_of_holds none ?_ old⟩
      intro mine
      rw [holds] at mine
      cases mine
      exact unmarked ⟨rfl, flying⟩
  · exact fun holdsj holdsl => coherent.sole (others holdsj).2 (others holdsl).2
  · exact fun holdsj holdsl => coherent.apart (others holdsj).2 (others holdsl).2
  · intro t known pending
    rw [length] at known
    rw [results] at pending
    split at pending
    next => contradiction
    next ne =>
      obtain ⟨j, k, old, same⟩ := coherent.kept known pending
      refine ⟨j, k, update_of_holds none ?_ old, same⟩
      intro mine
      rw [holds] at mine
      cases mine
      exact ne same.symm

end Coherent
end ModuleBundler.Cache
