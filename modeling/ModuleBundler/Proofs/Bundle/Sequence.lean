import ModuleBundler.Proofs.Bundle.Steps
import ModuleBundler.Proofs.Bundle.Termination

/-! Requests one after the other. Where nothing is in flight and no fault lies in
wait, a request without token and time limit comes to its end: it finds the text of
its key in the cache, or it builds what the files yield and leaves it there. -/
namespace ModuleBundler

open Source ModuleBundler.Bundle Cancellation

/-- The settings set no limit of time. -/
def Bundler.Untimed (b : Bundler) : Prop :=
  ∃ seconds, b.settings.timeoutSeconds? = some seconds ∧ (seconds == 0.0) = true

namespace Bundle

namespace Request

/-- A request carried out to its end by itself, and the site afterwards. -/
inductive Ends : Request → Site → Except Failure String → Site → Prop where
  | done {r s result} : r.phase = .finished result → Ends r s result s
  | step {r s result after} : (∀ result, r.phase ≠ .finished result) →
      Ends (r.advance s).1 (r.advance s).2 result after → Ends r s result after

variable {r : Request} {s after : Site} {result other : Except Failure String}

theorem Ends.unique (ends : Ends r s result after) {last : Site} (again : Ends r s other last) :
    result = other ∧ after = last := by
  induction ends with
  | done finished =>
    cases again with
    | done finished' =>
      rw [finished] at finished'
      cases finished'
      exact ⟨rfl, rfl⟩
    | step going => exact absurd finished (going _)
  | step going _ ih =>
    cases again with
    | done finished => exact absurd finished (going _)
    | step _ rest => exact ih rest

theorem Ends.follows (ends : Ends r s result after) : s.host.Follows after.host := by
  induction ends with
  | done => exact .refl _
  | step _ _ ih => exact (Request.turn _ _).follows.trans ih

/-- So many steps of a request by itself. -/
def advanceBy : Nat → Request → Site → Request × Site
  | 0, r, s => (r, s)
  | n + 1, r, s => advanceBy n (r.advance s).1 (r.advance s).2

theorem ends_of_advanceBy (n : Nat) (reached : (advanceBy n r s).1.result? = some result) :
    Ends r s result (advanceBy n r s).2 := by
  induction n generalizing r s with
  | zero => exact .done (result?_eq_some.mp reached)
  | succ n ih =>
    have rest := ih reached
    by_cases ready : ∃ own, r.phase = .finished own
    · obtain ⟨own, finished⟩ := ready
      rw [advance_finished finished] at rest
      rw [advanceBy, advance_finished finished]
      exact rest
    · exact .step (fun own finished => ready ⟨own, finished⟩) rest

theorem buildToken_untimed {h : Host} (untold : r.token = none) (untimed : r.bundler.Untimed) :
    r.buildToken h = (.ok none, h) := by
  obtain ⟨seconds, limit, zero⟩ := untimed
  unfold buildToken
  rw [untold]
  dsimp only
  rw [limit]
  dsimp only
  rw [if_pos zero]
  rfl

/-- A request does what its build does, and then ends it. -/
theorem Ends.of_build {plan : Plan} {build : Build} {h k : Host} {own : Except Failure String}
    {ticket : Cache.Ticket} {generation : Int} (built : Build.Ends plan build h own k)
    (phase : r.phase = .building ticket generation plan build) (here : s.host = h)
    (rest : Ends (r.goTo (.ending ticket generation own)) ⟨s.cache, k⟩ result after) :
    Ends r s result after := by
  induction built generalizing r s with
  | built built =>
    subst here
    refine .step (by simp [phase]) ?_
    rw [advance_building phase, built]
    exact rest
  | failed failed =>
    subst here
    refine .step (by simp [phase]) ?_
    rw [advance_building phase, failed]
    exact rest
  | @going build h next own k going _ ih =>
    subst here
    refine .step (by simp [phase]) ?_
    rw [advance_building phase, going]
    exact ih rfl rfl rest

end Request

/-- Nothing is in flight, and no fault lies in wait. -/
structure Idle (s : Site) : Prop where
  flying : ∀ key, s.cache.inFlight.get? key = none
  calm : s.host.faults = []

variable {b : Bundler} {key : Cache.Key} {s : Site} {text : String} {force : Bool}
  {result : Except Failure String}

theorem Idle.lookUp {host : Host} (idle : Idle s) (follows : s.host.Follows host) (key : Cache.Key) :
    Idle ⟨(Cache.lookUp key s.cache).2, host⟩ := by
  constructor
  · intro other
    rw [Cache.inFlight_lookUp]
    exact idle.flying other
  · exact follows.calm idle.calm

/-- A text in the cache is the answer, and stays. -/
theorem ends_of_cached (idle : Idle s) (present : s.cache.entries.get? key = some text) :
    ∃ after, Request.Ends (.start b key false none) s (.ok text) after ∧ Idle after ∧
      after.cache.entries = s.cache.entries := by
  have asking : (Request.start b key false none).phase = .asking := rfl
  have found : s.cache.entries.get? (Request.start b key false none).key = some text := present
  obtain ⟨host, follows, step⟩ := Request.advance_asking (s := s) asking
  rw [found] at step
  refine ⟨⟨(Cache.lookUp key s.cache).2, host⟩, .step (by simp [asking]) ?_,
    idle.lookUp follows key, Cache.entries_lookUp key s.cache⟩
  rw [step]
  exact .done rfl

/-- The entries once a build has ended with a result. -/
def entriesAfter (entries : Table Cache.Key String) (key : Cache.Key) :
    Except Failure String → Table Cache.Key String
  | .ok text => entries.insert key text
  | .error _ => entries

/-- A build that was claimed and is ended leaves nothing in flight, and its text in the entries. -/
theorem finishBuild_beginBuild {c : Cache Failure} (flying : ∀ key, c.inFlight.get? key = none)
    (key : Cache.Key) (result : Except Failure String) :
    let ended := (Cache.finishBuild key ⟨c.builds.length⟩ c.generation result
      (Cache.beginBuild key c).2).2
    (∀ other, ended.inFlight.get? other = none) ∧
      ended.entries = entriesAfter c.entries key result := by
  rw [Cache.beginBuild_of_none (flying key)]
  constructor
  · intro other
    rw [Cache.inFlight_finishBuild, Cache.get?_release]
    by_cases same : other = key
    · simp [same]
    · simp [same, Table.get?_insert_of_ne same, flying]
  · rw [Cache.entries_finishBuild]
    cases result with
    | ok text => simp [Cache.settled, Cache.store, entriesAfter]
    | error e => rfl

/-- A request without token, carried out at an idle site: it makes a build of its own, stores a text,
and begins no attempt to read besides. -/
structure Anew (r : Request) (s : Site) (result : Except Failure String) (after : Site) : Prop where
  ends : Request.Ends r s result after
  idle : Idle after
  entries : after.cache.entries = entriesAfter s.cache.entries r.key result
  build : ∃ host last, s.host.Follows host ∧ host.visits = s.host.visits ∧
    Build.Ends (r.plan none) (.start (r.plan none)) host result last ∧
    after.host.visits = last.visits

/-- From the claim on, a request comes to what the files give. -/
theorem ends_of_claiming {r : Request} (claiming : r.phase = .claiming) (untold : r.token = none)
    (untimed : r.bundler.Untimed) (idle : Idle s)
    (built : r.bundler.Builds r.key s.host.disk result) : ∃ after, Anew r s result after := by
  obtain ⟨host, follows, claimed⟩ := Request.advance_claiming (s := s) claiming
  have asked := Request.quiet_advance (r := r) (by simp [claiming]) s
  rw [claimed] at asked
  rw [idle.flying] at claimed
  have calm := follows.calm idle.calm
  obtain ⟨_, fresh⟩ := built
  obtain ⟨last, ends⟩ := fresh.same (k := host) rfl rfl calm follows.disk.symm
  let ticket : Cache.Ticket := ⟨s.cache.builds.length⟩
  let cache := (Cache.beginBuild r.key s.cache).2
  have ending : (r.goTo (.ending ticket s.cache.generation result)).phase =
    .ending ticket s.cache.generation result := rfl
  obtain ⟨final, follows', ended⟩ := Request.advance_ending (s := ⟨cache, last⟩) ending
  have told := Request.quiet_advance (r := r.goTo (.ending ticket s.cache.generation result))
    (by simp [ending]) ⟨cache, last⟩
  rw [ended] at told
  obtain ⟨flying, entries⟩ := finishBuild_beginBuild idle.flying r.key result
  refine ⟨⟨(Cache.finishBuild r.key ticket s.cache.generation result cache).2, final⟩, ?_,
    ⟨flying, follows'.calm (ends.follows.calm calm)⟩, entries,
    ⟨host, last, follows, asked, ends, told⟩⟩
  refine .step (by simp [claiming]) ?_
  rw [claimed]
  change Request.Ends (r.goTo (.starting ticket s.cache.generation)) ⟨cache, host⟩ _ _
  refine .step (by simp [Request.goTo]) ?_
  rw [Request.advance_starting rfl,
    Request.buildToken_untimed (r := r.goTo (.starting ticket s.cache.generation)) untold untimed]
  refine .of_build ends rfl rfl ?_
  refine .step (by simp [Request.goTo]) ?_
  change Request.Ends (Request.advance (r.goTo (.ending ticket s.cache.generation result))
    ⟨cache, last⟩).1 (Request.advance (r.goTo (.ending ticket s.cache.generation result))
    ⟨cache, last⟩).2 _ _
  rw [ended]
  exact .done rfl

/-- Where the cache has no text, what the files give is built and stored. -/
theorem ends_of_missed (idle : Idle s) (untimed : b.Untimed)
    (absent : s.cache.entries.get? key = none) (built : b.Builds key s.host.disk result) :
    ∃ after, Anew (.start b key false none) s result after := by
  have asking : (Request.start b key false none).phase = .asking := rfl
  have unknown : s.cache.entries.get? (Request.start b key false none).key = none := absent
  obtain ⟨host, follows, missed⟩ := Request.advance_asking (s := s) asking
  have asked := Request.quiet_advance (r := .start b key false none) (by simp [asking]) s
  rw [missed] at asked
  rw [unknown] at missed
  let site : Site := ⟨(Cache.lookUp key s.cache).2, host⟩
  have files : site.host.disk = s.host.disk := follows.disk
  have entries : site.cache.entries = s.cache.entries := Cache.entries_lookUp key s.cache
  obtain ⟨after, anew⟩ := ends_of_claiming
    (r := (Request.start b key false none).goTo .claiming) rfl rfl untimed
    (idle.lookUp follows key) (files.symm ▸ built)
  obtain ⟨start, last, kept, visits, ends, told⟩ := anew.build
  refine ⟨after, .step (by simp [asking]) ?_, anew.idle, entries ▸ anew.entries,
    ⟨start, last, follows.trans kept, visits.trans asked, ends, told⟩⟩
  rw [missed]
  exact anew.ends

/-- Where nothing is in flight, a request for a fresh build makes one, and so does a request for a key
without a text in the cache. -/
theorem Idle.anew (idle : Idle s) (untimed : b.Untimed)
    (fresh : force = true ∨ s.cache.entries.get? key = none)
    (built : b.Builds key s.host.disk result) :
    ∃ after, Anew (.start b key force none) s result after := by
  cases force with
  | true => exact ends_of_claiming (r := .start b key true none) rfl rfl untimed idle built
  | false => exact ends_of_missed idle untimed (fresh.resolve_left Bool.noConfusion) built

/-- Whatever is asked, forced or not, the answer is what the files give, if the cache holds nothing
else for the key; and only that is added to the cache. -/
theorem Idle.ends (idle : Idle s) (untimed : b.Untimed) (key : Cache.Key) (force : Bool)
    (current : ∀ text, s.cache.entries.get? key = some text →
      b.Builds key s.host.disk (.ok text)) :
    ∃ result after, b.Builds key s.host.disk result ∧
      Request.Ends (.start b key force none) s result after ∧ Idle after ∧
      (after.cache.entries = s.cache.entries ∨
        after.cache.entries = entriesAfter s.cache.entries key result) := by
  obtain ⟨result, last, ends⟩ := build_terminates (b.plan key) (Host.ofDisk s.host.disk)
  have built : b.Builds key s.host.disk result := ⟨last, ends⟩
  have anew : force = true ∨ s.cache.entries.get? key = none →
      ∃ result after, b.Builds key s.host.disk result ∧
        Request.Ends (.start b key force none) s result after ∧ Idle after ∧
        (after.cache.entries = s.cache.entries ∨
          after.cache.entries = entriesAfter s.cache.entries key result) := by
    intro fresh
    obtain ⟨after, anew⟩ := idle.anew untimed fresh built
    exact ⟨result, after, built, anew.ends, anew.idle, .inr anew.entries⟩
  cases force with
  | true => exact anew (.inl rfl)
  | false =>
    cases present : s.cache.entries.get? key with
    | some text =>
      obtain ⟨after, ends, still, entries⟩ := ends_of_cached (b := b) idle present
      exact ⟨.ok text, after, current text present, ends, still, .inl entries⟩
    | none => exact anew (.inr present)

end Bundle
end ModuleBundler
