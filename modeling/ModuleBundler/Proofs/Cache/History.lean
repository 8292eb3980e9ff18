import Mathlib.Data.List.Induction
import Mathlib.Order.Bounds.Basic
import ModuleBundler.Proofs.Cache.Operations

/-! The history of a cache, and what its counters count. Operations may come in any
order and with any arguments; a build may be ended twice, or never begun. Each
counter is the number of events of one kind, except for the two that measure the
entries. -/
namespace ModuleBundler.Cache

/-- An operation that is asked of a cache. -/
inductive Operation (ε : Type) where
  | lookUp (key : Key)
  | put (key : Key) (text : String)
  | contains (key : Key)
  | clear
  | claim (key : Key)
  | complete (key : Key) (ticket : Ticket) (text : String) (generation : Int)
  | fail (key : Key) (ticket : Ticket) (error : ε)

inductive Answer where
  | nothing
  | text (found : Option String)
  | truth (present : Bool)
  | claim (given : Claim)
  /-- Whether a build was ended, or had been before. -/
  | ended (accepted : Except TicketError Unit)

variable {ε : Type}

def Operation.perform : Operation ε → StateM (Cache ε) Answer
  | .lookUp key => do return .text (← Cache.lookUp key)
  | .put key text => do
    Cache.put key text
    return .nothing
  | .contains key => do return .truth ((← get).contains key)
  | .clear => do
    Cache.clear
    return .nothing
  | .claim key => do return .claim (← beginBuild key)
  | .complete key ticket text generation => do
    return .ended (← completeBuild key ticket text generation)
  | .fail key ticket error => do return .ended (← failBuild key ticket error)

/-- The cache after some operations. -/
def after (c : Cache ε) (operations : List (Operation ε)) : Cache ε :=
  operations.foldl (fun c operation => (operation.perform c).2) c

/-- An operation, and the cache that it was performed on. -/
structure Event (ε : Type) where
  before : Cache ε
  operation : Operation ε

/-- The events of some operations one after the other. -/
def history (c : Cache ε) : List (Operation ε) → List (Event ε)
  | [] => []
  | operation :: rest => ⟨c, operation⟩ :: history (operation.perform c).2 rest

namespace Event

variable (e : Event ε)

def answer : Answer := (e.operation.perform e.before).1

def isLookUp : Bool := match e.operation with
  | .lookUp _ => true
  | _ => false

/-- A look-up that finds nothing. -/
def isMiss : Bool := match e.answer with
  | .text none => true
  | _ => false

def isPut : Bool := match e.operation with
  | .put .. => true
  | _ => false

/-- A claim that is granted. -/
def isGrant : Bool := match e.answer with
  | .claim given => given.isOwner
  | _ => false

/-- A claim that joins a build in flight. -/
def isJoin : Bool := match e.answer with
  | .claim given => !given.isOwner
  | _ => false

/-- A text comes while the generation of its build is current. -/
def isTimely : Bool := match e.operation with
  | .complete _ _ _ generation => generation = e.before.generation
  | _ => false

/-- A text comes for a generation that a clearing has ended. -/
def isDiscard : Bool := match e.operation with
  | .complete _ _ _ generation => generation < e.before.generation
  | _ => false

def isFailure : Bool := match e.operation with
  | .fail .. => true
  | _ => false

theorem isMiss_lookUp (c : Cache ε) (key : Key) :
    (⟨c, .lookUp key⟩ : Event ε).isMiss = (c.entries.get? key).isNone := by
  have answer : answer ⟨c, .lookUp key⟩ = .text (c.entries.get? key) :=
    congrArg Answer.text (lookUp_fst key c)
  unfold isMiss
  rw [answer]
  cases c.entries.get? key <;> rfl

theorem isGrant_claim (c : Cache ε) (key : Key) :
    (⟨c, .claim key⟩ : Event ε).isGrant = (c.inFlight.get? key).isNone := by
  change (beginBuild key c).1.isOwner = _
  unfold beginBuild
  cases c.inFlight.get? key <;> rfl

theorem isJoin_claim (c : Cache ε) (key : Key) :
    (⟨c, .claim key⟩ : Event ε).isJoin = (c.inFlight.get? key).isSome := by
  change (!(beginBuild key c).1.isOwner) = _
  unfold beginBuild
  cases c.inFlight.get? key <;> rfl

end Event

section Append

theorem after_append (c : Cache ε) (first second : List (Operation ε)) :
    after c (first ++ second) = after (after c first) second := List.foldl_append

theorem history_append (c : Cache ε) (first second : List (Operation ε)) :
    history c (first ++ second) = history c first ++ history (after c first) second := by
  induction first generalizing c with
  | nil => rfl
  | cons operation rest ih =>
    rw [List.cons_append, history, ih]
    rfl

/-- What every event raises by as much as it counts for, amounts to the count of the history. -/
theorem measure_after (measure : Cache ε → Nat) (count : List (Event ε) → Nat)
    (nothing : count [] = 0) (cons : ∀ e rest, count (e :: rest) = count [e] + count rest)
    (raised : ∀ e : Event ε,
      measure (e.operation.perform e.before).2 = measure e.before + count [e])
    (c : Cache ε) (operations : List (Operation ε)) :
    measure (after c operations) = measure c + count (history c operations) := by
  induction operations generalizing c with
  | nil => rw [history, nothing]; rfl
  | cons operation rest ih =>
    change measure (after (operation.perform c).2 rest) = _
    rw [ih, raised ⟨c, operation⟩, history, cons ⟨c, operation⟩ (history _ rest), Nat.add_assoc]

/-- A measure that goes up by one at the events of one kind, and at no others. -/
theorem measure_after_eq_countP (measure : Cache ε → Nat) (kind : Event ε → Bool)
    (raised : ∀ e : Event ε,
      measure (e.operation.perform e.before).2 = measure e.before + if kind e then 1 else 0)
    (c : Cache ε) (operations : List (Operation ε)) :
    measure (after c operations) = measure c + (history c operations).countP kind := by
  refine measure_after measure (List.countP kind) List.countP_nil (fun e rest => ?_) (fun e => ?_)
    c operations
  · rw [List.countP_cons, List.countP_singleton, Nat.add_comm]
  · rw [raised, List.countP_singleton]

end Append

section Statistics

variable {c : Cache ε} {key : Key} {ticket : Ticket} {generation : Int}

theorem statistics_lookUp (key : Key) (c : Cache ε) : (lookUp key c).2.statistics =
    if (c.entries.get? key).isSome then { c.statistics with hits := c.statistics.hits + 1 }
    else { c.statistics with misses := c.statistics.misses + 1 } := by
  unfold lookUp
  cases c.entries.get? key <;> rfl

theorem statistics_beginBuild (key : Key) (c : Cache ε) : (beginBuild key c).2.statistics =
    if (c.inFlight.get? key).isSome then
      { c.statistics with coalescedWaits := c.statistics.coalescedWaits + 1 }
    else c.statistics := by
  unfold beginBuild
  cases c.inFlight.get? key <;> rfl

theorem statistics_complete (key : Key) (ticket : Ticket) (text : String) (generation : Int)
    (c : Cache ε) : (completeBuild key ticket text generation c).2.statistics =
      if generation = c.generation then (c.store key text).statistics else c.statistics := by
  change (finishBuild key ticket generation (.ok text) c).2.statistics = _
  rw [statistics_finishBuild]
  simp only [settled, eq_comm (a := generation)]
  split <;> rfl

theorem statistics_fail (key : Key) (ticket : Ticket) (error : ε) (c : Cache ε) :
    (failBuild key ticket error c).2.statistics =
      { c.statistics with failures := c.statistics.failures + 1 } := by
  change (finishBuild key ticket 0 (.error error) c).2.statistics = _
  exact statistics_finishBuild

end Statistics

section Counters

/-- What an event adds to the counters, of which these are the values after it. -/
structure Event.Counted (e : Event ε) (s : Statistics Nat) : Prop where
  lookUps : s.hits + s.misses =
    e.before.statistics.hits + e.before.statistics.misses + if e.isLookUp then 1 else 0
  misses : s.misses = e.before.statistics.misses + if e.isMiss then 1 else 0
  stores : s.stores = e.before.statistics.stores +
    ((if e.isPut then 1 else 0) + if e.isTimely then 1 else 0)
  joins : s.coalescedWaits = e.before.statistics.coalescedWaits + if e.isJoin then 1 else 0
  failures : s.failures = e.before.statistics.failures + if e.isFailure then 1 else 0

theorem Event.counted (e : Event ε) : e.Counted (e.operation.perform e.before).2.statistics := by
  obtain ⟨c, operation⟩ := e
  cases operation with
  | lookUp key =>
    have miss := isMiss_lookUp c key
    change Event.Counted _ (lookUp key c).2.statistics
    rw [statistics_lookUp]
    cases found : c.entries.get? key with
    | some text =>
      rw [found] at miss
      constructor
      · exact Nat.add_right_comm ..
      · rw [miss]
        rfl
      all_goals rfl
    | none =>
      rw [found] at miss
      constructor
      · rfl
      · rw [miss]
        rfl
      all_goals rfl
  | put | contains | clear => constructor <;> rfl
  | claim key =>
    have joins := isJoin_claim c key
    change Event.Counted _ (beginBuild key c).2.statistics
    rw [statistics_beginBuild]
    cases flying : c.inFlight.get? key with
    | some | none =>
      rw [flying] at joins
      refine ⟨rfl, rfl, rfl, ?_, rfl⟩
      rw [joins]
      rfl
  | complete key ticket text generation =>
    change Event.Counted _ (completeBuild key ticket text generation c).2.statistics
    rw [statistics_complete]
    by_cases current : generation = c.generation
    · rw [if_pos current]
      refine ⟨rfl, rfl, ?_, rfl, rfl⟩
      simp [isPut, isTimely, current, store]
    · rw [if_neg current]
      refine ⟨rfl, rfl, ?_, rfl, rfl⟩
      simp [isPut, isTimely, current]
  | fail key ticket error =>
    change Event.Counted _ (failBuild key ticket error c).2.statistics
    rw [statistics_fail]
    constructor <;> rfl

variable (operations : List (Operation ε))

theorem lookUps_after : (after .empty operations).statistics.hits +
    (after .empty operations).statistics.misses =
      (history .empty operations).countP Event.isLookUp :=
  (measure_after_eq_countP (fun c => c.statistics.hits + c.statistics.misses) Event.isLookUp
    (fun e => e.counted.lookUps) .empty operations).trans (Nat.zero_add _)

theorem misses_after : (after .empty operations).statistics.misses =
    (history .empty operations).countP Event.isMiss :=
  (measure_after_eq_countP (fun c => c.statistics.misses) Event.isMiss
    (fun e => e.counted.misses) .empty operations).trans (Nat.zero_add _)

theorem stores_after : (after .empty operations).statistics.stores =
    (history .empty operations).countP Event.isPut +
      (history .empty operations).countP Event.isTimely := by
  refine (measure_after (fun c => c.statistics.stores)
    (fun events => events.countP Event.isPut + events.countP Event.isTimely)
    rfl ?_ ?_ .empty operations).trans (Nat.zero_add _)
  · intro e rest
    simp only [List.countP_cons, List.countP_nil]
    omega
  · intro e
    simp only [List.countP_singleton]
    exact e.counted.stores

theorem joins_after : (after .empty operations).statistics.coalescedWaits =
    (history .empty operations).countP Event.isJoin :=
  (measure_after_eq_countP (fun c => c.statistics.coalescedWaits) Event.isJoin
    (fun e => e.counted.joins) .empty operations).trans (Nat.zero_add _)

theorem failures_after : (after .empty operations).statistics.failures =
    (history .empty operations).countP Event.isFailure :=
  (measure_after_eq_countP (fun c => c.statistics.failures) Event.isFailure
    (fun e => e.counted.failures) .empty operations).trans (Nat.zero_add _)

end Counters

section Measures

/-- The counters that measure what a cache is, and not what has happened to it. -/
structure Measured (c : Cache ε) : Prop where
  current : c.statistics.currentEntryCount = c.size
  below : c.size ≤ c.statistics.peakEntryCount
  clears : (c.statistics.clears : Int) = c.generation

variable {c d : Cache ε}

theorem measured_empty : Measured (.empty : Cache ε) := ⟨rfl, Nat.le_refl _, rfl⟩

/-- The measures say the same of both caches. -/
structure Alike (c d : Cache ε) : Prop where
  entries : d.entries = c.entries
  current : d.statistics.currentEntryCount = c.statistics.currentEntryCount
  peak : d.statistics.peakEntryCount = c.statistics.peakEntryCount
  clears : d.statistics.clears = c.statistics.clears
  generation : d.generation = c.generation

theorem Measured.of_alike (measured : Measured c) (alike : Alike c d) : Measured d where
  current := by rw [alike.current, measured.current, size, size, alike.entries]
  below := by
    rw [alike.peak, size, alike.entries]
    exact measured.below
  clears := by rw [alike.clears, alike.generation, measured.clears]

theorem Measured.store (measured : Measured c) (key : Key) (text : String) :
    Measured (c.store key text) := ⟨rfl, Nat.le_max_right _ _, measured.clears⟩

theorem lookUp_alike (key : Key) (c : Cache ε) : Alike c (lookUp key c).2 := by
  constructor
  · exact entries_lookUp key c
  all_goals unfold lookUp; split <;> rfl

theorem beginBuild_alike (key : Key) (c : Cache ε) : Alike c (beginBuild key c).2 := by
  constructor <;> unfold beginBuild <;> split <;> rfl

/-- Ending a build does to the measures what it does to the entries. -/
theorem finishBuild_alike (key : Key) (ticket : Ticket) (generation : Int)
    (result : Except ε String) (c : Cache ε) :
    Alike (c.settled key generation result) (finishBuild key ticket generation result c).2 := by
  constructor
  · exact entries_finishBuild
  · rw [statistics_finishBuild]
  · rw [statistics_finishBuild]
  · rw [statistics_finishBuild]
  · rw [generation_finishBuild, generation_settled]

/-- What an operation does to the measures: nothing, store a text, or clear. -/
theorem perform_measures (operation : Operation ε) (c : Cache ε) :
    Alike c (operation.perform c).2 ∨
      (∃ key text, Alike (c.store key text) (operation.perform c).2) ∨
      (operation.perform c).2 = (Cache.clear c).2 := by
  cases operation with
  | lookUp key => exact .inl (lookUp_alike key c)
  | put key text => exact .inr (.inl ⟨key, text, rfl, rfl, rfl, rfl, rfl⟩)
  | contains => exact .inl ⟨rfl, rfl, rfl, rfl, rfl⟩
  | clear => exact .inr (.inr rfl)
  | claim key => exact .inl (beginBuild_alike key c)
  | complete key ticket text generation =>
    have alike := finishBuild_alike key ticket generation (.ok text) c
    rw [settled] at alike
    split at alike
    · exact .inr (.inl ⟨key, text, alike⟩)
    · exact .inl alike
  | fail key ticket error =>
    have alike := finishBuild_alike key ticket 0 (.error error) c
    exact .inl ⟨alike.entries, alike.current, alike.peak, alike.clears, alike.generation⟩

theorem Measured.perform (measured : Measured c) (operation : Operation ε) :
    Measured (operation.perform c).2 := by
  rcases perform_measures operation c with same | ⟨key, text, stored⟩ | cleared
  · exact measured.of_alike same
  · exact (measured.store key text).of_alike stored
  · rw [cleared]
    refine ⟨rfl, Nat.zero_le _, ?_⟩
    change ((c.statistics.clears + 1 : Nat) : Int) = c.generation + 1
    rw [← measured.clears]
    rfl

/-- The peak rises to the new size, if that is greater. -/
theorem Measured.peak (measured : Measured c) (operation : Operation ε) :
    (operation.perform c).2.statistics.peakEntryCount =
      max c.statistics.peakEntryCount (operation.perform c).2.size := by
  rcases perform_measures operation c with same | ⟨key, text, stored⟩ | cleared
  · rw [same.peak, size, same.entries]
    exact (Nat.max_eq_left measured.below).symm
  · rw [stored.peak, size, stored.entries]
    rfl
  · rw [cleared]
    exact (Nat.max_eq_left (Nat.zero_le _)).symm

theorem measured_after (operations : List (Operation ε)) : Measured (after .empty operations) := by
  induction operations using List.reverseRecOn with
  | nil => exact measured_empty
  | append_singleton operations operation ih =>
    rw [after_append]
    exact ih.perform operation

/-- The peak is the greatest number of entries that the cache ever had. -/
theorem peak_after (operations : List (Operation ε)) :
    IsGreatest {n | ∃ sooner, sooner <+: operations ∧ n = (after .empty sooner).size}
      (after .empty operations).statistics.peakEntryCount := by
  induction operations using List.reverseRecOn with
  | nil =>
    refine ⟨⟨[], List.nil_prefix, rfl⟩, ?_⟩
    rintro n ⟨sooner, within, rfl⟩
    rw [List.prefix_nil.mp within]
    exact Nat.le_refl _
  | append_singleton operations operation ih =>
    have peak := (measured_after operations).peak operation
    have last : after .empty (operations ++ [operation]) =
        (operation.perform (after .empty operations)).2 := after_append _ _ _
    rw [last, peak]
    constructor
    · rcases Nat.le_total (operation.perform (after .empty operations)).2.size
        (after .empty operations).statistics.peakEntryCount with less | more
      · obtain ⟨sooner, within, reached⟩ := ih.1
        exact ⟨sooner, within.trans (List.prefix_append _ _), (Nat.max_eq_left less).trans reached⟩
      · exact ⟨_, List.prefix_rfl, by rw [Nat.max_eq_right more, last]⟩
    · rintro n ⟨sooner, within, rfl⟩
      rcases List.prefix_concat_iff.mp within with rfl | earlier
      · rw [last]
        exact Nat.le_max_right _ _
      · exact (ih.2 ⟨sooner, earlier, rfl⟩).trans (Nat.le_max_left _ _)

end Measures
end ModuleBundler.Cache
