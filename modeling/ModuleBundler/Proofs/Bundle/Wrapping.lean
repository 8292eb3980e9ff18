import Mathlib.Data.List.Induction
import ModuleBundler.Proofs.Bundle.Balance

/-! The errors of calls for bundles. A call that does not give a text gives the error at
which a build of its key stopped, with its own root and entry point: it built by itself,
or waited for another call with this key. The one exception is a time limit that is a
whole number too large for a double, which is met before the build begins. -/
namespace ModuleBundler

open Source ModuleBundler.Bundle Cancellation Cache

/-- The settings limit the time of a build by a whole number too large for a double. -/
def Bundler.LimitTooLarge (b : Bundler) : Prop :=
  ∃ n, b.settings.resolveTimeout = .whole n ∧ Decimal.floatOfInt? n = none

theorem Bundler.limitTooLarge_iff {b : Bundler} :
    b.LimitTooLarge ↔ b.settings.timeoutSeconds? = none := by
  unfold LimitTooLarge Settings.timeoutSeconds? Decimal.Number.toFloat?
  cases b.settings.resolveTimeout with
  | whole n => simp
  | real x => simp

namespace Bundle

/-- The next step of a build meets an error, discovering the files or reading them once more. -/
def Build.Stops (p : Plan) (h : Host) : Build → DiscoveryError → Prop
  | .discovering d, cause => ∃ walk, (d.advance p.resolver p.token h).1 = .failed walk cause
  | .collecting _ _ reading _, cause =>
    ∃ e, (reading.perform p.resolver.reader h).1 = .failed e ∧ cause = .unreadable e

theorem collect_unfailed {p : Plan} {files sections rest : List String} {h : Host} {f : Failure} :
    (Build.collect p files sections rest h).1 ≠ .failed f := by
  intro failed
  cases rest <;> cases failed

/-- A build fails with what it stops at, and with nothing else. -/
theorem Build.stops_of_failed {p : Plan} {h : Host} {build : Build} {f : Failure}
    (failed : (build.advance p h).1 = .failed f) :
    ∃ cause, build.Stops p h cause ∧ f = .build cause p.projectRoot p.entryPoint := by
  cases build with
  | discovering d =>
    rw [Build.advance, bind_apply] at failed
    cases outcome : (d.advance p.resolver p.token h).1 with
    | going next =>
      rw [outcome] at failed
      cases failed
    | failed walk cause =>
      rw [outcome] at failed
      cases failed
      exact ⟨cause, ⟨walk, outcome⟩, rfl⟩
    | done walk =>
      rw [outcome] at failed
      exact absurd failed collect_unfailed
  | collecting files rest reading sections =>
    rw [Build.advance, bind_apply] at failed
    cases outcome : (reading.perform p.resolver.reader h).1 with
    | failed e =>
      rw [outcome] at failed
      cases failed
      exact ⟨.unreadable e, ⟨e, outcome, rfl⟩, rfl⟩
    | again next fewer =>
      rw [outcome] at failed
      cases failed
    | done content =>
      rw [outcome] at failed
      exact absurd failed collect_unfailed

namespace Request

/-- The build of a request stops at an error in its next step. -/
def StopsWith (r : Request) (h : Host) (cause : DiscoveryError) : Prop :=
  ∃ ticket generation plan build, r.phase = .building ticket generation plan build ∧
    build.Stops plan h cause

/-- The next step of a request, by its own doing, comes to an error. -/
def Raises (r : Request) (h : Host) (e : Failure) : Prop :=
  (e = .timeoutTooLarge ∧ r.token = none ∧ r.bundler.LimitTooLarge) ∨
    ∃ cause, e = .build cause r.key.root r.key.entry ∧ r.StopsWith h cause

/-- What is being built is what was asked for. -/
def Planned (r : Request) : Prop :=
  ∀ ticket generation plan build, r.phase = .building ticket generation plan build →
    plan.projectRoot = r.key.root ∧ plan.entryPoint = r.key.entry

variable {r r' : Request} {s s' : Site} {e : Failure} {ticket : Ticket} {generation : Int}

theorem buildToken_of_tooLarge {h : Host} (untold : r.token = none)
    (tooLarge : r.bundler.LimitTooLarge) : r.buildToken h = (.error .timeoutTooLarge, h) := by
  unfold buildToken
  rw [untold]
  dsimp only
  rw [Bundler.limitTooLarge_iff.mp tooLarge]
  rfl

/-- A limit that is a double makes a token. -/
theorem started_of_real (seconds : Float) (h : Host) :
    ∃ token, (Host.withClock (Token.start (some (.real seconds))).run h).1 = some token := by
  cases zero : (Decimal.Number.real seconds).isZero with
  | true =>
    refine ⟨⟨none, false⟩, ?_⟩
    simp only [Token.start, zero, if_true]
    rfl
  | false =>
    refine ⟨⟨some ((Clock.read h.clock).1 + seconds), false⟩, ?_⟩
    simp only [Token.start, zero]
    rfl

theorem tooLarge_of_buildToken {h : Host} (refused : (r.buildToken h).1 = .error e) :
    e = .timeoutTooLarge ∧ r.token = none ∧ r.bundler.LimitTooLarge := by
  unfold buildToken at refused
  cases told : r.token with
  | some token =>
    rw [told] at refused
    cases refused
  | none =>
    rw [told] at refused
    dsimp only at refused
    cases limit : r.bundler.settings.timeoutSeconds? with
    | none =>
      rw [limit] at refused
      cases refused
      exact ⟨rfl, rfl, Bundler.limitTooLarge_iff.mpr limit⟩
    | some seconds =>
      rw [limit] at refused
      dsimp only at refused
      split at refused
      · cases refused
      · obtain ⟨token, started⟩ := started_of_real seconds h
        rw [bind_apply, started] at refused
        cases refused

theorem start_planned (b : Bundler) (key : Key) (force : Bool) (token : Option Token) :
    (start b key force token).Planned := by
  intro ticket generation plan build now
  cases force <;> cases now

theorem Turn.planned (turn : r.Turn s r' s') (planned : r.Planned) : r'.Planned := by
  intro ticket generation plan build now
  rw [turn.key]
  rcases turn.building now with ⟨token, rfl, -⟩ | ⟨before, earlier, -⟩
  · exact ⟨rfl, rfl⟩
  · exact planned _ _ _ _ earlier

/-- A request that is about to end its build with an error has just raised it. -/
theorem Turn.raises (turn : r.Turn s r' s') (planned : r.Planned)
    (now : r'.phase = .ending ticket generation (.error e)) : r.Raises s.host e := by
  cases turn with
  | unstarted _ refused =>
    cases now
    exact .inl (tooLarge_of_buildToken refused)
  | failed building failed =>
    cases now
    obtain ⟨cause, stops, rfl⟩ := Build.stops_of_failed failed
    obtain ⟨root, entry⟩ := planned _ _ _ _ building
    rw [root, entry]
    exact .inr ⟨cause, rfl, _, _, _, _, building, stops⟩
  | waits phase | rests phase =>
    rw [phase] at now
    cases now
  | found | missed | granted | joined | started | went | built | ended | served => cases now

/-- An error is given by a request that ends its build with it, or waits for one that has. -/
theorem Turn.finishes (turn : r.Turn s r' s') (now : r'.phase = .finished (.error e)) :
    (∃ ticket generation, r.phase = .ending ticket generation (.error e)) ∨
    (∃ ticket, r.phase = .waiting ticket ∧ s.cache.result? ticket = some (.error e)) ∨
    r.phase = .finished (.error e) := by
  cases turn with
  | ended ending =>
    cases now
    exact .inl ⟨_, _, ending⟩
  | served waiting resolved =>
    cases now
    exact .inr (.inl ⟨_, waiting, resolved⟩)
  | waits waiting =>
    rw [waiting] at now
    cases now
  | rests => exact .inr (.inr now)
  | found | missed | granted | joined | unstarted | started | went | built | failed => cases now

/-- A request waits for the build of its key that is in flight at its claim. -/
theorem Turn.joins (turn : r.Turn s r' s') (now : r'.phase = .waiting ticket) :
    r.phase = .waiting ticket ∨ s.cache.inFlight.get? r.key = some ticket := by
  cases turn with
  | joined _ flying =>
    cases now
    exact .inr flying
  | waits => exact .inl now
  | rests phase =>
    rw [phase] at now
    cases now
  | found | missed | granted | unstarted | started | went | built | failed | ended | served =>
    cases now

/-- A build that is held is held on, or ended with a result that is then given out. -/
theorem Turn.keeps (turn : r.Turn s r' s') {h : Holding} (holds : r.held? = some h)
    (pending : s.cache.result? h.ticket = none) (known : h.ticket.number < s.cache.builds.length) :
    h.key = r.key ∧ (r'.held? = some h ∨
      ∃ result, r.phase = .ending h.ticket h.generation result ∧
        s'.cache.result? h.ticket = some result) := by
  cases turn with
  | @ended ticket generation result _ phase =>
    simp only [held?, phase, Option.some.injEq] at holds
    subst holds
    refine ⟨rfl, .inr ⟨result, phase, ?_⟩⟩
    change (finishBuild _ _ _ _ _).2.result? _ = _
    rw [result?_finishBuild _ _ _ pending known, if_pos rfl]
  | unstarted phase | started phase | went phase | built phase | failed phase =>
    simp only [held?, phase, Option.some.injEq] at holds
    subst holds
    exact ⟨rfl, .inl rfl⟩
  | found phase | missed phase | granted phase | joined phase | served phase | waits phase
  | rests phase => simp [held?, phase] at holds

/-- Only the phase of a request ever changes. -/
theorem Turn.goTo (turn : r.Turn s r' s') : ∃ phase, r' = r.goTo phase := by
  cases turn with
  | waits | rests => exact ⟨r.phase, rfl⟩
  | found | missed | granted | joined | unstarted | started | went | built | failed | ended
  | served => exact ⟨_, rfl⟩

theorem goTo_advanceBy (n : Nat) (r : Request) (s : Site) :
    ∃ phase, (advanceBy n r s).1 = r.goTo phase := by
  induction n generalizing r s with
  | zero => exact ⟨r.phase, rfl⟩
  | succ n ih =>
    obtain ⟨first, moved⟩ := (turn r s).goTo
    obtain ⟨last, reached⟩ := ih (r.advance s).1 (r.advance s).2
    exact ⟨last, by rw [advanceBy, reached, moved]; rfl⟩

section Alone

variable {result : Except Failure String} {after : Site}

theorem Ends.of_advanceBy (n : Nat)
    (ends : Ends (advanceBy n r s).1 (advanceBy n r s).2 result after) : Ends r s result after := by
  induction n generalizing r s with
  | zero => exact ends
  | succ n ih =>
    have rest := ih ends
    by_cases ready : ∃ own, r.phase = .finished own
    · obtain ⟨own, finished⟩ := ready
      rw [advance_finished finished] at rest
      exact rest
    · exact .step (fun own finished => ready ⟨own, finished⟩) rest

theorem ends_of_ending (ending : r.phase = .ending ticket generation result) :
    ∃ after, Ends r s result after := by
  obtain ⟨host, -, ended⟩ := advance_ending (s := s) ending
  refine ⟨_, ends_of_advanceBy 1 ?_⟩
  change (r.advance s).1.result? = some result
  rw [ended]
  rfl

/-- A build that is about to start comes to an end; a limit that is too large ends it at once. -/
theorem ends_of_starting (starting : r.phase = .starting ticket generation) (s : Site) :
    ∃ result after, Ends r s result after ∧
      (r.token = none → r.bundler.LimitTooLarge → result = .error .timeoutTooLarge) := by
  have step := advance_starting (s := s) starting
  have going : ∀ result, r.phase ≠ .finished result := by simp [starting]
  cases given : (r.buildToken s.host).1 with
  | error e =>
    rw [given] at step
    have ending : (r.advance s).1.phase = .ending ticket generation (.error e) := by
      rw [step]
      rfl
    obtain ⟨after, ends⟩ := ends_of_ending (s := (r.advance s).2) ending
    refine ⟨.error e, after, .step going ends, fun _ _ => ?_⟩
    rw [(tooLarge_of_buildToken given).1]
  | ok token =>
    rw [given] at step
    have building : (r.advance s).1.phase =
        .building ticket generation (r.plan token) (.start (r.plan token)) := by
      rw [step]
      rfl
    obtain ⟨own, last, built⟩ := build_terminates (r.plan token) (r.advance s).2.host
    obtain ⟨after, ends⟩ := ends_of_ending
      (r := (r.advance s).1.goTo (.ending ticket generation own))
      (s := ⟨(r.advance s).2.cache, last⟩) rfl
    refine ⟨own, after, .step going (.of_build built building rfl ends), fun untold tooLarge => ?_⟩
    rw [buildToken_of_tooLarge untold tooLarge] at given
    cases given

/-- With nothing in flight for its key, a call comes to its end. -/
theorem ends_of_idle {key : Key} (idle : s.cache.inFlight.get? key = none) (b : Bundler)
    (force : Bool) (token : Option Token) :
    ∃ result after, Ends (start b key force token) s result after ∧
      (token = none → b.LimitTooLarge → force = true ∨ s.cache.entries.get? key = none →
        result = .error .timeoutTooLarge) ∧
      (force = false → (s.cache.entries.get? key).isSome = true → ∃ text, result = .ok text) := by
  rcases start_of_idle idle b force token with
    ⟨unforced, text, present, found⟩ | ⟨missed, steps, starting⟩
  · refine ⟨.ok text, _, ends_of_advanceBy 1 found, fun _ _ builds => ?_, fun _ _ => ⟨text, rfl⟩⟩
    rcases builds with forced | absent
    · cases unforced.symm.trans forced
    · cases present.symm.trans absent
  · obtain ⟨phase, same⟩ := goTo_advanceBy steps (start b key force token) s
    obtain ⟨result, after, ends, tooLarge⟩ :=
      ends_of_starting starting (advanceBy steps (start b key force token) s).2
    rw [congrArg Request.token same, congrArg Request.bundler same] at tooLarge
    refine ⟨result, after, ends.of_advanceBy steps, fun untold large _ => tooLarge untold large, ?_⟩
    intro unforced present
    rcases missed with forced | absent
    · cases unforced.symm.trans forced
    · rw [absent] at present
      cases present

/-- A request that nobody stands in the way of: it will be granted its claim. -/
structure Alone (r : Request) (s : Site) : Prop where
  planned : r.Planned
  idle : r.phase = .asking ∨ r.phase = .claiming → s.cache.inFlight.get? r.key = none
  unjoined : ∀ ticket, r.phase ≠ .waiting ticket
  pending : ∀ h, r.held? = some h → s.cache.result? h.ticket = none

theorem start_alone {key : Key} (idle : s.cache.inFlight.get? key = none) (b : Bundler)
    (force : Bool) (token : Option Token) : (start b key force token).Alone s where
  planned := start_planned b key force token
  idle _ := idle
  unjoined ticket := by cases force <;> simp [start]
  pending h holds := by cases force <;> cases holds

theorem Turn.alone (turn : r.Turn s r' s') (alone : r.Alone s) : r'.Alone s' := by
  refine ⟨turn.planned alone.planned, ?_, ?_, ?_⟩
  · cases turn with
    | missed asking =>
      intro _
      rw [inFlight_lookUp]
      exact alone.idle (.inl asking)
    | waits | rests => exact alone.idle
    | found | granted | joined | unstarted | started | went | built | failed | ended | served =>
      simp [Request.goTo]
  · cases turn with
    | joined claiming flying =>
      rw [alone.idle (.inr claiming)] at flying
      cases flying
    | waits | rests => exact alone.unjoined
    | found | missed | granted | unstarted | started | went | built | failed | ended | served =>
      simp [Request.goTo]
  · intro h holds
    cases turn with
    | granted _ idle =>
      cases holds
      rw [beginBuild_of_none idle, result?_of_builds_append rfl, Cache.result?,
        List.getElem?_eq_none (Nat.le_refl _)]
      rfl
    | unstarted phase | started phase | went phase | built phase | failed phase =>
      cases holds
      exact alone.pending _ (by simp only [held?, phase]; rfl)
    | waits | rests => exact alone.pending h holds
    | found | missed | joined | ended | served => cases holds

theorem advanceBy_alone (alone : r.Alone s) (n : Nat) :
    (advanceBy n r s).1.Alone (advanceBy n r s).2 := by
  induction n generalizing r s with
  | zero => exact alone
  | succ n ih => exact ih ((turn r s).alone alone)

/-- A request that is alone gives no errors but those that it raises. -/
theorem Ends.raises (ends : Ends r s result after) (alone : r.Alone s)
    (failed : result = .error e) :
    r.phase = .finished (.error e) ∨
      (∃ ticket generation, r.phase = .ending ticket generation (.error e)) ∨
      ∃ n, (advanceBy n r s).1.Raises (advanceBy n r s).2.host e := by
  induction ends with
  | done finished =>
    rw [failed] at finished
    exact .inl finished
  | @step r s result after going _ ih =>
    have turn := r.turn s
    rcases ih (turn.alone alone) failed with finished | ⟨ticket, generation, ending⟩ | ⟨n, raises⟩
    · rcases turn.finishes finished with ending | ⟨ticket, waiting, -⟩ | before
      · exact .inr (.inl ending)
      · exact absurd waiting (alone.unjoined ticket)
      · exact absurd before (going _)
    · exact .inr (.inr ⟨0, turn.raises alone.planned ending⟩)
    · exact .inr (.inr ⟨n + 1, raises⟩)

variable {b : Bundler} {key : Key} {force : Bool} {token : Option Token}

/-- With nothing in flight for its key, a call fails by its own doing. -/
theorem error_of_idle (idle : s.cache.inFlight.get? key = none)
    (ends : Ends (start b key force token) s (.error e) after) :
    (e = .timeoutTooLarge ∧ token = none ∧ b.LimitTooLarge) ∨
      ∃ cause n, e = .build cause key.root key.entry ∧
        ((start b key force token).advanceBy n s).1.StopsWith
          ((start b key force token).advanceBy n s).2.host cause := by
  rcases ends.raises (start_alone idle b force token) rfl with
    finished | ⟨_, _, ending⟩ | ⟨n, raises⟩
  · cases force <;> cases finished
  · cases force <;> cases ending
  · obtain ⟨_, same⟩ := goTo_advanceBy n (start b key force token) s
    have keyed : ((start b key force token).advanceBy n s).1.key = key := congrArg Request.key same
    rcases raises with ⟨rfl, untold, tooLarge⟩ | ⟨cause, rfl, stops⟩
    · rw [same] at untold tooLarge
      exact .inl ⟨rfl, untold, tooLarge⟩
    · rw [keyed]
      exact .inr ⟨cause, n, rfl, stops⟩

/-- A limit that is too large is met by those calls that have to build, and make the token. -/
theorem timeoutTooLarge_iff (idle : s.cache.inFlight.get? key = none)
    (ends : Ends (start b key force token) s result after) :
    result = .error .timeoutTooLarge ↔
      token = none ∧ b.LimitTooLarge ∧ (force = true ∨ s.cache.entries.get? key = none) := by
  obtain ⟨own, last, ends', limited, cached⟩ := ends_of_idle idle b force token
  obtain ⟨rfl, -⟩ := ends.unique ends'
  constructor
  · rintro rfl
    rcases error_of_idle idle ends with ⟨-, untold, tooLarge⟩ | ⟨cause, n, wrapped, -⟩
    · refine ⟨untold, tooLarge, ?_⟩
      by_contra served
      rw [not_or, Bool.not_eq_true, ← ne_eq, Option.ne_none_iff_isSome] at served
      obtain ⟨text, given⟩ := cached served.1 served.2
      cases given
    · cases wrapped
  · rintro ⟨untold, tooLarge, builds⟩
    exact limited untold tooLarge builds

end Alone

end Request
namespace Concurrency

universe u

variable {ι : Type u}

/-- Every error that is about to be given out, or has been, has an origin under its key. Who waits
does so for a build of the same key, or for a result that is there and has an origin as well. -/
structure Traced (origin : Key → Failure → Prop) (s : State ι) : Prop where
  coherent : Coherent s.site.cache s.held
  planned : ∀ i, (s.requests i).Planned
  ending : ∀ {i ticket generation e}, (s.requests i).phase = .ending ticket generation (.error e) →
    origin (s.requests i).key e
  finished : ∀ {i e}, (s.requests i).phase = .finished (.error e) → origin (s.requests i).key e
  waiting : ∀ {i ticket}, (s.requests i).phase = .waiting ticket →
    (∃ j h, s.held j = some h ∧ h.ticket = ticket ∧ h.key = (s.requests i).key) ∨
    ∃ result, s.site.cache.result? ticket = some result ∧
      ∀ e, result = .error e → origin (s.requests i).key e

theorem Traced.mono {origin origin' : Key → Failure → Prop} {s : State ι} (traced : Traced origin s)
    (more : ∀ key e, origin key e → origin' key e) : Traced origin' s where
  coherent := traced.coherent
  planned := traced.planned
  ending now := more _ _ (traced.ending now)
  finished now := more _ _ (traced.finished now)
  waiting now := (traced.waiting now).imp_right fun ⟨result, resolved, known⟩ =>
    ⟨result, resolved, fun e failed => more _ _ (known e failed)⟩

variable {origin : Key → Failure → Prop} {s t : State ι}

theorem together_traced {bundlers : ι → Bundler} {host : Host} {calls : ι → Call} :
    Traced origin (together bundlers host calls) where
  coherent := together_coherent
  planned i := Request.start_planned _ _ _ _
  ending {i ticket generation e} now := by
    simp only [together, Call.request, Request.start] at now
    cases forced : (calls i).force <;> simp [forced] at now
  finished {i e} now := by
    simp only [together, Call.request, Request.start] at now
    cases forced : (calls i).force <;> simp [forced] at now
  waiting {i ticket} now := by
    simp only [together, Call.request, Request.start] at now
    cases forced : (calls i).force <;> simp [forced] at now

variable [DecidableEq ι] {move : Move ι}

/-- A build that is held is still held after a move, or its error has an origin. -/
theorem Traced.kept (traced : Traced origin s) (effect : Effect s move t) {j : ι} {h : Holding}
    (holds : s.held j = some h) :
    (∃ j k, t.held j = some k ∧ k.ticket = h.ticket ∧ k.key = h.key) ∨
      ∃ result, t.site.cache.result? h.ticket = some result ∧
        ∀ e, result = .error e → origin h.key e := by
  by_cases mine : move = .advance j
  · subst mine
    have pending := traced.coherent.pending holds
    have known := traced.coherent.known holds
    obtain ⟨key, still | ⟨result, ending, resolved⟩⟩ := effect.turn.keeps holds pending known
    · exact .inl ⟨j, h, still, rfl, rfl⟩
    · refine .inr ⟨result, resolved, ?_⟩
      rintro e rfl
      rw [key]
      exact traced.ending ending
  · refine .inl ⟨j, h, ?_, rfl, rfl⟩
    rw [State.held, effect.requests_of_ne mine]
    exact holds

theorem Traced.moved (traced : Traced origin s) (effect : Effect s move t)
    (raised : ∀ i e, move = .advance i → (s.requests i).Raises s.site.host e →
      origin (s.requests i).key e) : Traced origin t := by
  have waits : ∀ {key ticket},
      (∃ j h, s.held j = some h ∧ h.ticket = ticket ∧ h.key = key) ∨
        (∃ result, s.site.cache.result? ticket = some result ∧
          ∀ e, result = .error e → origin key e) →
      (∃ j h, t.held j = some h ∧ h.ticket = ticket ∧ h.key = key) ∨
        ∃ result, t.site.cache.result? ticket = some result ∧
          ∀ e, result = .error e → origin key e := by
    rintro key ticket (⟨j, h, holds, rfl, rfl⟩ | ⟨result, resolved, known⟩)
    · exact traced.kept effect holds
    · exact .inr ⟨result, effect.result? resolved, known⟩
  constructor
  · exact effect.coherent traced.coherent
  · intro i
    by_cases mine : move = .advance i
    · subst mine
      exact effect.turn.planned (traced.planned i)
    · rw [effect.requests_of_ne mine]
      exact traced.planned i
  · intro i ticket generation e now
    by_cases mine : move = .advance i
    · rw [effect.key i]
      subst mine
      exact raised i e rfl (effect.turn.raises (traced.planned i) now)
    · rw [effect.requests_of_ne mine] at now ⊢
      exact traced.ending now
  · intro i e now
    by_cases mine : move = .advance i
    · rw [effect.key i]
      subst mine
      rcases effect.turn.finishes now with ⟨_, _, ending⟩ | ⟨ticket, waiting, resolved⟩ | finished
      · exact traced.ending ending
      · rcases traced.waiting waiting with ⟨j, h, holds, rfl, -⟩ | ⟨result, given, known⟩
        · rw [traced.coherent.pending holds] at resolved
          cases resolved
        · exact known e (Option.some.inj (given.symm.trans resolved))
      · exact traced.finished finished
    · rw [effect.requests_of_ne mine] at now ⊢
      exact traced.finished now
  · intro i ticket now
    rw [effect.key i]
    refine waits ?_
    by_cases mine : move = .advance i
    · subst mine
      rcases effect.turn.joins now with waiting | flying
      · exact traced.waiting waiting
      · obtain ⟨j, holds⟩ := traced.coherent.owned flying
        exact .inl ⟨j, _, holds, rfl, rfl⟩
    · rw [effect.requests_of_ne mine] at now
      exact traced.waiting now

/-- A call under a key raises an error in the course of some moves. -/
def Raised (s : State ι) (moves : List (Move ι)) (key : Key) (e : Failure) : Prop :=
  ∃ sooner i later, moves = sooner ++ .advance i :: later ∧
    ((runFrom s sooner).requests i).key = key ∧
    ((runFrom s sooner).requests i).Raises (runFrom s sooner).site.host e

theorem runFrom_traced (traced : ∀ origin, Traced origin s) (moves : List (Move ι)) :
    Traced (Raised s moves) (runFrom s moves) := by
  induction moves using List.reverseRecOn with
  | nil => exact traced _
  | append_singleton moves move ih =>
    have longer : ∀ key e, Raised s moves key e → Raised s (moves ++ [move]) key e := by
      rintro key e ⟨sooner, i, later, rfl, raised⟩
      exact ⟨sooner, i, later ++ [move], by simp, raised⟩
    rw [runFrom_concat]
    refine (ih.mono longer).moved (effect_step _ move) ?_
    rintro i e rfl raises
    exact ⟨moves, i, [], rfl, rfl, raises⟩

theorem goTo_runFrom (s : State ι) (moves : List (Move ι)) (i : ι) :
    ∃ phase, (runFrom s moves).requests i = (s.requests i).goTo phase := by
  induction moves generalizing s with
  | nil => exact ⟨(s.requests i).phase, rfl⟩
  | cons move rest ih =>
    obtain ⟨last, reached⟩ := ih (step s move)
    have effect := effect_step s move
    by_cases mine : move = .advance i
    · subst mine
      obtain ⟨first, moved⟩ := effect.turn.goTo
      exact ⟨last, by rw [runFrom, List.foldl_cons]; exact reached.trans (by rw [moved]; rfl)⟩
    · rw [effect.requests_of_ne mine] at reached
      exact ⟨last, reached⟩

/-- An error of a call is one that some call with its key has raised. -/
theorem error_of_together {bundlers : ι → Bundler} {host : Host} {calls : ι → Call}
    {moves : List (Move ι)} {i : ι} {e : Failure}
    (failed : ((runFrom (together bundlers host calls) moves).requests i).result? =
      some (.error e)) :
    ∃ sooner j later, moves = sooner ++ .advance j :: later ∧ (calls j).key = (calls i).key ∧
      let before := runFrom (together bundlers host calls) sooner
      ((e = .timeoutTooLarge ∧ (calls j).token = none ∧ (bundlers j).LimitTooLarge) ∨
        ∃ cause, e = .build cause (calls i).key.root (calls i).key.entry ∧
          (before.requests j).StopsWith before.site.host cause) := by
  have traced : Traced (Raised (together bundlers host calls) moves)
      (runFrom (together bundlers host calls) moves) :=
    runFrom_traced (fun _ => together_traced) moves
  obtain ⟨sooner, j, later, order, key, raises⟩ :=
    traced.finished (Request.result?_eq_some.mp failed)
  -- Calls keep their keys, bundlers and tokens.
  have same : ∀ moves i, ∃ phase, (runFrom (together bundlers host calls) moves).requests i =
      ((calls i).request (bundlers i)).goTo phase :=
    fun moves i => goTo_runFrom (together bundlers host calls) moves i
  obtain ⟨_, own⟩ := same moves i
  obtain ⟨_, other⟩ := same sooner j
  have keyed : ((runFrom (together bundlers host calls) moves).requests i).key = (calls i).key :=
    congrArg Request.key own
  have keyed' : ((runFrom (together bundlers host calls) sooner).requests j).key =
    (calls j).key := congrArg Request.key other
  have shared : (calls j).key = (calls i).key := keyed'.symm.trans (key.trans keyed)
  refine ⟨sooner, j, later, order, shared, ?_⟩
  rcases raises with ⟨rfl, untold, tooLarge⟩ | ⟨cause, rfl, stops⟩
  · rw [other] at untold tooLarge
    exact .inl ⟨rfl, untold, tooLarge⟩
  · rw [keyed', shared]
    exact .inr ⟨cause, rfl, stops⟩

theorem error_of_kind {answer : Option (Except Failure String)}
    (kind : answer.map (Except.mapError Failure.kind) = some (.error "BundleGenerationError")) :
    ∃ e, answer = some (.error e) ∧ e ≠ .timeoutTooLarge := by
  obtain ⟨result, given, same⟩ := Option.map_eq_some_iff.mp kind
  cases result with
  | ok text => cases same
  | error e =>
    refine ⟨e, given, ?_⟩
    rintro rfl
    exact absurd (Except.error.inj same) (by decide)

/-- A call gives a text, or its error is wrapped with its own root and entry point; only a limit
that is too large for a double is not wrapped. -/
theorem errors_are_wrapped :
    (∀ (b : Bundler) (key : Key) (force : Bool) (token : Option Token) (s : Site),
      s.cache.inFlight.get? key = none →
      let r := Request.start b key force token
      ∃ result after, r.Ends s result after ∧
        (∀ e, result = .error e → e = .timeoutTooLarge ∨
          ∃ cause n, e = .build cause key.root key.entry ∧
            (r.advanceBy n s).1.StopsWith (r.advanceBy n s).2.host cause) ∧
        (result = .error .timeoutTooLarge ↔ token = none ∧ b.LimitTooLarge ∧
          (force = true ∨ s.cache.entries.get? key = none)) ∧
        -- Its build is ended only once, so that the end raises nothing.
        ∀ n ticket generation own, (r.advanceBy n s).1.phase = .ending ticket generation own →
          (finishBuild key ticket generation own (r.advanceBy n s).2.cache).1 = .ok ()) ∧
    -- Beside other calls, to any bundlers, the error may be that of another call with this key.
    ∀ (bundlers : ι → Bundler) (host : Host) (calls : ι → Call) (moves : List (Move ι)),
      let s := runFrom (together bundlers host calls) moves
      (∀ i e, (s.requests i).result? = some (.error e) →
        ∃ sooner j later, moves = sooner ++ .advance j :: later ∧ (calls j).key = (calls i).key ∧
          let before := runFrom (together bundlers host calls) sooner
          ((e = .timeoutTooLarge ∧ (calls j).token = none ∧ (bundlers j).LimitTooLarge) ∨
            ∃ cause, e = .build cause (calls i).key.root (calls i).key.entry ∧
              (before.requests j).StopsWith before.site.host cause)) ∧
      ∀ i ticket generation own, (s.requests i).phase = .ending ticket generation own →
        (finishBuild (calls i).key ticket generation own s.site.cache).1 = .ok () := by
  constructor
  · intro b key force token s idle r
    obtain ⟨result, after, ends, -⟩ := Request.ends_of_idle idle b force token
    refine ⟨result, after, ends, ?_, Request.timeoutTooLarge_iff idle ends, ?_⟩
    · rintro e rfl
      exact (Request.error_of_idle idle ends).imp_left And.left
    · intro n ticket generation own ending
      have holds : (r.advanceBy n s).1.held? =
          some ⟨ticket, (r.advanceBy n s).1.key, generation⟩ := by
        simp only [Request.held?, ending]
      have alone : r.Alone s := Request.start_alone idle b force token
      exact (finishBuild_of_none ((Request.advanceBy_alone alone n).pending _ holds)).1
  · intro bundlers host calls moves s
    refine ⟨fun i e failed => error_of_together failed, fun i ticket generation own ending => ?_⟩
    have traced : Traced (Raised (together bundlers host calls) moves) s :=
      runFrom_traced (fun _ => together_traced) moves
    exact (finishBuild_of_none (traced.coherent.pending (held_of_ending ending))).1

/-- A call by itself and one that joins another, where an imported file is missing. -/
theorem errors_are_wrapped_joined :
    let b : Bundler := ⟨{ Settings.default with minify := false }⟩
    let host := Host.ofDisk (Disk.empty.put "/p/m.js" (.file "require('./gone.js')".toUTF8))
    let key : Key := ⟨"/p", "m.js"⟩
    let calls : Bool → Call := fun _ => ⟨key, true, none⟩
    let moves : List (Move Bool) := [.advance true, .advance false] ++
      List.replicate 6 (.advance true) ++ [.advance false]
    let s := runFrom (together (fun _ => b) host calls) moves
    ∃ cause other after,
      (Request.start b key true none).Ends ⟨Cache.empty, host⟩
        (.error (.build cause "/p" "m.js")) after ∧
      (s.requests false).result? = some (.error (.build other "/p" "m.js")) := by
  intro b host key calls moves
  dsimp only
  obtain ⟨alone, joined⟩ :
      ((Request.start b key true none).advanceBy 8 ⟨Cache.empty, host⟩).1.result?.map
          (Except.mapError Failure.kind) = some (.error "BundleGenerationError") ∧
        ((runFrom (together (fun _ => b) host calls) moves).requests false).result?.map
          (Except.mapError Failure.kind) = some (.error "BundleGenerationError") := by
    decide +kernel
  obtain ⟨e, failed, wrapped⟩ := error_of_kind alone
  obtain ⟨e', failed', wrapped'⟩ := error_of_kind joined
  have own := Request.ends_of_advanceBy 8 failed
  have law := errors_are_wrapped (ι := Bool)
  obtain ⟨result, after, ends, errors, -⟩ := law.1 b key true none ⟨Cache.empty, host⟩ rfl
  obtain ⟨rfl, -⟩ := own.unique ends
  obtain ⟨_, _, _, -, -, origin⟩ := (law.2 (fun _ => b) host calls moves).1 false e' failed'
  rcases errors e rfl with tooLarge | ⟨cause, -, rfl, -⟩
  · exact absurd tooLarge wrapped
  · rcases origin with ⟨tooLarge, -⟩ | ⟨other, rfl, -⟩
    · exact absurd tooLarge wrapped'
    · exact ⟨cause, other, after, ends, failed'⟩

/-- The law that every error is wrapped is false: a limit may be too large for a double. -/
theorem limit_unwrapped :
    ¬ ∀ (entries : List (Settings.Value × Settings.Value)) (settings : Settings) (key : Key)
      (force : Bool) (token : Option Token) (host : Host) (result : Except Failure String)
      (after : Site),
      (Settings.ofValue (.mapping entries)).1 = .ok settings →
      (Request.start ⟨settings⟩ key force token).Ends ⟨Cache.empty, host⟩ result after →
      (∃ text, result = .ok text) ∨ ∃ cause, result = .error (.build cause key.root key.entry) := by
  intro law
  let limit : Int := Int.ofNat (Nat.pow 10 400)
  let settings : Settings := { Settings.default with resolveTimeout := .whole limit }
  let host := Host.ofDisk (Disk.empty.put "/proj/main.js" (.file "a".toUTF8))
  have taken : (Settings.ofValue (.mapping
      [(.text "resolve_timeout_seconds", .whole limit)])).1 = .ok settings := by rfl
  have tooLarge : (⟨settings⟩ : Bundler).LimitTooLarge := ⟨limit, rfl, by decide +kernel⟩
  have idle : (⟨Cache.empty, host⟩ : Site).cache.inFlight.get? ⟨"/proj", "main.js"⟩ = none := rfl
  obtain ⟨result, after, ends, limited, -⟩ := Request.ends_of_idle idle ⟨settings⟩ false none
  rw [limited rfl tooLarge (.inr rfl)] at ends
  rcases law _ settings _ false none host _ after taken ends with ⟨text, given⟩ | ⟨cause, given⟩
  · cases given
  · cases given

end Concurrency

end Bundle
end ModuleBundler
