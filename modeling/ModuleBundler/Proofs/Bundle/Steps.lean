import ModuleBundler.Proofs.Bundle.Yield
import ModuleBundler.Proofs.Cache.Coherence

/-! What one step of a request comes to. Seen from the cache, a step is one of its
operations or nothing; seen from the host, it changes no file and lays no fault.
Everything that is proved about requests, alone or beside each other, starts from
this account. -/
namespace ModuleBundler

open Source ModuleBundler.Bundle Cancellation

namespace Cache.Site

variable {ε : Type} {α : Type}

/-- A step at a site that is an operation of its cache and otherwise only reports. -/
structure Does (step : StateM (Site ε) α) (operation : StateM (Cache ε) α) : Prop where
  answer : ∀ s : Site ε, (step s).1 = (operation s.cache).1
  cache : ∀ s : Site ε, (step s).2.cache = (operation s.cache).2
  host : ∀ s : Site ε, s.host.Follows (step s).2.host

theorem Does.apply {step : StateM (Site ε) α} {operation : StateM (Cache ε) α}
    (does : Does step operation) (s : Site ε) : ∃ host, s.host.Follows host ∧
      step s = ((operation s.cache).1, ⟨(operation s.cache).2, host⟩) := by
  refine ⟨(step s).2.host, does.host s, ?_⟩
  rw [← does.answer, ← does.cache]
  rfl

theorem Does.pure (a : α) : Does (pure a : StateM (Site ε) α) (Pure.pure a) :=
  ⟨fun _ => rfl, fun _ => rfl, fun _ => .refl _⟩

theorem Does.bind {β : Type} {x : StateM (Site ε) α} {f : α → StateM (Site ε) β}
    {operation : StateM (Cache ε) α} {next : α → StateM (Cache ε) β} (first : Does x operation)
    (rest : ∀ a, Does (f a) (next a)) : Does (x >>= f) (operation >>= next) := by
  constructor <;> intro s <;> rw [bind_apply] <;> try rw [bind_apply, ← first.answer, ← first.cache]
  · exact (rest _).answer _
  · exact (rest _).cache _
  · exact (first.host s).trans ((rest _).host _)

theorem onCache_does (operation : StateM (Cache ε) α) : Does (onCache operation) operation :=
  ⟨fun _ => rfl, fun _ => rfl, fun _ => .refl _⟩

theorem onHost_apply (step : StateM Host α) (s : Site ε) :
    onHost step s = ((step s.host).1, ⟨s.cache, (step s.host).2⟩) := rfl

theorem report_does (message : String) :
    Does (report message : StateM (Site ε) Unit) (Pure.pure ()) :=
  ⟨fun _ => rfl, fun _ => rfl, fun _ => ⟨rfl, id⟩⟩

theorem lookUp_does (key : Key) : Does (lookUp key : StateM (Site ε) _) (Cache.lookUp key) :=
  (onCache_does _).bind fun found => (report_does _).bind fun _ => .pure found

theorem beginBuild_does (key : Key) :
    Does (beginBuild key : StateM (Site ε) _) (Cache.beginBuild key) := by
  rw [← bind_pure (Cache.beginBuild (ε := ε) key)]
  refine (onCache_does _).bind fun claim => ?_
  cases claim.isOwner with
  | true => exact .pure claim
  | false => exact (report_does _).bind fun _ => .pure claim

theorem completeBuild_does (key : Key) (ticket : Ticket) (text : String) (generation : Int) :
    Does (completeBuild key ticket text generation : StateM (Site ε) _)
      (finishBuild key ticket generation (.ok text)) := by
  have silent := onCache_does (ε := ε) (Cache.completeBuild key ticket text generation)
  have told := (report_does (ε := ε) s!"Discarding bundle built before cache clear: {key.text}").bind
    fun _ => silent
  -- Whether the discarding is reported depends on the site itself.
  have split : ∀ s : Site ε, completeBuild key ticket text generation s =
      (if s.cache.generation ≠ generation then (do
        report s!"Discarding bundle built before cache clear: {key.text}"
        onCache (Cache.completeBuild key ticket text generation))
      else onCache (Cache.completeBuild key ticket text generation)) s := by
    intro s
    rw [completeBuild, bind_apply]
    change (if s.cache.generation ≠ generation then _ else _ : StateM (Site ε) _) s = _
    split <;> rfl
  constructor <;> intro s <;> rw [split] <;> split
  · exact told.answer s
  · exact silent.answer s
  · exact told.cache s
  · exact silent.cache s
  · exact told.host s
  · exact silent.host s

theorem failBuild_does (key : Key) (ticket : Ticket) (generation : Int) (e : ε) :
    Does (failBuild key ticket e) (finishBuild key ticket generation (.error e)) :=
  ⟨fun _ => rfl, fun _ => rfl, fun _ => .refl _⟩

section Quiet

variable {β : Type}

/-- A step at a site that begins no attempt to read. -/
def Quiet (step : StateM (Site ε) α) : Prop := ∀ s, (step s).2.host.visits = s.host.visits

theorem Quiet.bind {x : StateM (Site ε) α} {f : α → StateM (Site ε) β} (first : Quiet x)
    (rest : ∀ a, Quiet (f a)) : Quiet (x >>= f) := fun s => (rest _ _).trans (first s)

theorem quiet_pure (a : α) : Quiet (pure a : StateM (Site ε) α) := fun _ => rfl

theorem quiet_report (message : String) : Quiet (report message : StateM (Site ε) Unit) :=
  fun _ => rfl

theorem quiet_onCache (operation : StateM (Cache ε) α) : Quiet (onCache operation) := fun _ => rfl

theorem quiet_lookUp (key : Key) : Quiet (lookUp key : StateM (Site ε) _) :=
  (quiet_onCache _).bind fun found => (quiet_report _).bind fun _ => quiet_pure found

theorem quiet_beginBuild (key : Key) : Quiet (beginBuild key : StateM (Site ε) _) := by
  refine (quiet_onCache _).bind fun claim => ?_
  cases claim.isOwner with
  | true => exact quiet_pure claim
  | false => exact (quiet_report _).bind fun _ => quiet_pure claim

theorem quiet_completeBuild (key : Key) (ticket : Ticket) (text : String) (generation : Int) :
    Quiet (completeBuild key ticket text generation : StateM (Site ε) _) := by
  refine Quiet.bind (fun _ => rfl) fun site => ?_
  dsimp only
  split
  · exact (quiet_report _).bind fun _ => quiet_onCache _
  · exact quiet_onCache _

end Quiet

end Cache.Site

namespace Bundle

theorem clearCache_does : Cache.Site.Does clearCache Cache.clear :=
  ⟨fun _ => rfl, fun _ => rfl, fun _ => ⟨rfl, id⟩⟩

theorem onSourceChanged_does (path : String) : Cache.Site.Does (onSourceChanged path) Cache.clear :=
  ⟨fun _ => rfl, fun _ => rfl, fun _ => ⟨rfl, id⟩⟩

namespace Request

/-- The build that a request owns and has not ended. -/
def held? (r : Request) : Option Cache.Holding :=
  match r.phase with
  | .starting ticket generation | .building ticket generation _ _ | .ending ticket generation _ =>
    some ⟨ticket, r.key, generation⟩
  | _ => none

/-- The build that a request is to have its answer from. -/
def ticket? (r : Request) : Option Cache.Ticket :=
  match r.phase with
  | .starting ticket _ | .building ticket .. | .ending ticket .. | .waiting ticket => some ticket
  | _ => none

/-- What a step of a request comes to, phase by phase. -/
inductive Turn (r : Request) (s : Site) : Request → Site → Prop where
  | found {text host} (asking : r.phase = .asking)
      (present : s.cache.entries.get? r.key = some text) (follows : s.host.Follows host) :
      Turn r s (r.goTo (.finished (.ok text))) ⟨(Cache.lookUp r.key s.cache).2, host⟩
  | missed {host} (asking : r.phase = .asking) (absent : s.cache.entries.get? r.key = none)
      (follows : s.host.Follows host) :
      Turn r s (r.goTo .claiming) ⟨(Cache.lookUp r.key s.cache).2, host⟩
  | granted {host} (claiming : r.phase = .claiming) (idle : s.cache.inFlight.get? r.key = none)
      (follows : s.host.Follows host) :
      Turn r s (r.goTo (.starting ⟨s.cache.builds.length⟩ s.cache.generation))
        ⟨(Cache.beginBuild r.key s.cache).2, host⟩
  | joined {ticket host} (claiming : r.phase = .claiming)
      (flying : s.cache.inFlight.get? r.key = some ticket) (follows : s.host.Follows host) :
      Turn r s (r.goTo (.waiting ticket)) ⟨(Cache.beginBuild r.key s.cache).2, host⟩
  | unstarted {ticket generation e host} (starting : r.phase = .starting ticket generation)
      (refused : (r.buildToken s.host).1 = .error e) (follows : s.host.Follows host) :
      Turn r s (r.goTo (.ending ticket generation (.error e))) ⟨s.cache, host⟩
  | started {ticket generation token host} (starting : r.phase = .starting ticket generation)
      (given : (r.buildToken s.host).1 = .ok token) (follows : s.host.Follows host) :
      Turn r s (r.goTo (.building ticket generation (r.plan token) (.start (r.plan token))))
        ⟨s.cache, host⟩
  | went {ticket generation plan build next}
      (building : r.phase = .building ticket generation plan build)
      (going : (build.advance plan s.host).1 = .going next) :
      Turn r s (r.goTo (.building ticket generation plan next))
        ⟨s.cache, (build.advance plan s.host).2⟩
  | built {ticket generation plan build text}
      (building : r.phase = .building ticket generation plan build)
      (built : (build.advance plan s.host).1 = .built text) :
      Turn r s (r.goTo (.ending ticket generation (.ok text)))
        ⟨s.cache, (build.advance plan s.host).2⟩
  | failed {ticket generation plan build e}
      (building : r.phase = .building ticket generation plan build)
      (failed : (build.advance plan s.host).1 = .failed e) :
      Turn r s (r.goTo (.ending ticket generation (.error e)))
        ⟨s.cache, (build.advance plan s.host).2⟩
  | ended {ticket generation result host} (ending : r.phase = .ending ticket generation result)
      (follows : s.host.Follows host) :
      Turn r s (r.goTo (.finished result))
        ⟨(Cache.finishBuild r.key ticket generation result s.cache).2, host⟩
  | served {ticket result} (waiting : r.phase = .waiting ticket)
      (resolved : s.cache.result? ticket = some result) : Turn r s (r.goTo (.finished result)) s
  | waits {ticket} (waiting : r.phase = .waiting ticket)
      (pending : s.cache.result? ticket = none) : Turn r s r s
  | rests {result} (finished : r.phase = .finished result) : Turn r s r s

theorem result?_eq_some {r : Request} {result : Except Failure String} :
    r.result? = some result ↔ r.phase = .finished result := by
  unfold result?
  cases r.phase <;> simp

/-- A text for an answer, in a form that can be decided. -/
theorem result?_of_toOption {r : Request} {text : String}
    (answered : r.result?.bind Except.toOption = some text) : r.result? = some (.ok text) := by
  obtain ⟨result, finished, same⟩ := Option.bind_eq_some_iff.mp answered
  cases result with
  | ok found =>
    rw [finished]
    exact congrArg (some ∘ Except.ok) (Option.some.inj same)
  | error e => cases same

theorem buildToken_keepsFiles (r : Request) : KeepsFiles r.buildToken := by
  unfold buildToken
  cases r.token with
  | some token => exact keepsFiles.pure _
  | none =>
    dsimp only
    cases r.bundler.settings.timeoutSeconds? with
    | none => exact keepsFiles.pure _
    | some seconds =>
      dsimp only
      split
      · exact keepsFiles.pure _
      · refine keepsFiles.bind (fun _ => ⟨rfl, id⟩) fun token => ?_
        cases token <;> exact keepsFiles.pure _

section Phases

variable {r : Request} {s : Site} {ticket : Cache.Ticket} {generation : Int}

theorem advance_asking (asking : r.phase = .asking) : ∃ host, s.host.Follows host ∧
    r.advance s = ((match s.cache.entries.get? r.key with
      | some text => r.goTo (.finished (.ok text))
      | none => r.goTo .claiming), ⟨(Cache.lookUp r.key s.cache).2, host⟩) := by
  obtain ⟨host, follows, looked⟩ := (Cache.Site.lookUp_does r.key).apply s
  refine ⟨host, follows, ?_⟩
  unfold advance
  rw [asking]
  dsimp only
  rw [bind_apply, looked, Cache.lookUp_fst]
  cases s.cache.entries.get? r.key <;> rfl

theorem advance_claiming (claiming : r.phase = .claiming) : ∃ host, s.host.Follows host ∧
    r.advance s = ((match s.cache.inFlight.get? r.key with
      | some ticket => r.goTo (.waiting ticket)
      | none => r.goTo (.starting ⟨s.cache.builds.length⟩ s.cache.generation)),
      ⟨(Cache.beginBuild r.key s.cache).2, host⟩) := by
  obtain ⟨host, follows, claimed⟩ := (Cache.Site.beginBuild_does r.key).apply s
  refine ⟨host, follows, ?_⟩
  unfold advance
  rw [claiming]
  dsimp only
  rw [bind_apply, claimed]
  cases flying : s.cache.inFlight.get? r.key with
  | none =>
    rw [Cache.beginBuild_of_none flying]
    rfl
  | some ticket =>
    rw [Cache.beginBuild_of_some flying]
    rfl

theorem advance_starting (starting : r.phase = .starting ticket generation) :
    r.advance s = ((match (r.buildToken s.host).1 with
      | .error e => r.goTo (.ending ticket generation (.error e))
      | .ok token =>
        r.goTo (.building ticket generation (r.plan token) (.start (r.plan token)))),
      ⟨s.cache, (r.buildToken s.host).2⟩) := by
  unfold advance
  rw [starting]
  dsimp only
  rw [bind_apply, Cache.Site.onHost_apply]
  cases (r.buildToken s.host).1 <;> rfl

theorem advance_building {plan : Plan} {build : Build}
    (building : r.phase = .building ticket generation plan build) :
    r.advance s = ((match (build.advance plan s.host).1 with
      | .going next => r.goTo (.building ticket generation plan next)
      | .built text => r.goTo (.ending ticket generation (.ok text))
      | .failed e => r.goTo (.ending ticket generation (.error e))),
      ⟨s.cache, (build.advance plan s.host).2⟩) := by
  unfold advance
  rw [building]
  dsimp only
  rw [bind_apply, Cache.Site.onHost_apply]
  cases (build.advance plan s.host).1 <;> rfl

theorem advance_ending {result : Except Failure String}
    (ending : r.phase = .ending ticket generation result) : ∃ host, s.host.Follows host ∧
    r.advance s = (r.goTo (.finished result),
      ⟨(Cache.finishBuild r.key ticket generation result s.cache).2, host⟩) := by
  unfold advance
  rw [ending]
  cases result with
  | ok text =>
    obtain ⟨host, follows, ended⟩ :=
      (Cache.Site.completeBuild_does r.key ticket text generation).apply s
    refine ⟨host, follows, ?_⟩
    dsimp only
    rw [bind_apply, ended]
    rfl
  | error e =>
    obtain ⟨host, follows, ended⟩ := (Cache.Site.failBuild_does r.key ticket generation e).apply s
    refine ⟨host, follows, ?_⟩
    dsimp only
    rw [bind_apply, ended]
    rfl

theorem advance_waiting (waiting : r.phase = .waiting ticket) :
    r.advance s = ((match s.cache.result? ticket with
      | some result => r.goTo (.finished result)
      | none => r), s) := by
  have read : (get : StateM Site Site) s = (s, s) := rfl
  unfold advance
  rw [waiting]
  dsimp only
  rw [bind_apply, read]
  dsimp only
  cases s.cache.result? ticket <;> rfl

theorem advance_finished {result : Except Failure String} (finished : r.phase = .finished result) :
    r.advance s = (r, s) := by
  unfold advance
  rw [finished]
  rfl

end Phases

theorem turn (r : Request) (s : Site) : r.Turn s (r.advance s).1 (r.advance s).2 := by
  cases phase : r.phase with
  | asking =>
    obtain ⟨host, follows, step⟩ := advance_asking (s := s) phase
    rw [step]
    cases present : s.cache.entries.get? r.key with
    | some text => exact .found phase present follows
    | none => exact .missed phase present follows
  | claiming =>
    obtain ⟨host, follows, step⟩ := advance_claiming (s := s) phase
    rw [step]
    cases flying : s.cache.inFlight.get? r.key with
    | none => exact .granted phase flying follows
    | some ticket => exact .joined phase flying follows
  | starting ticket generation =>
    rw [advance_starting phase]
    cases given : (r.buildToken s.host).1 with
    | error e => exact .unstarted phase given (buildToken_keepsFiles r s.host)
    | ok token => exact .started phase given (buildToken_keepsFiles r s.host)
  | building ticket generation plan build =>
    rw [advance_building phase]
    cases outcome : (build.advance plan s.host).1 with
    | going next => exact .went phase outcome
    | built text => exact .built phase outcome
    | failed e => exact .failed phase outcome
  | ending ticket generation result =>
    obtain ⟨host, follows, step⟩ := advance_ending (s := s) phase
    rw [step]
    exact .ended phase follows
  | waiting ticket =>
    rw [advance_waiting phase]
    cases resolved : s.cache.result? ticket with
    | some result => exact .served phase resolved
    | none => exact .waits phase resolved
  | finished result =>
    rw [advance_finished phase]
    exact .rests phase

theorem buildToken_visits (r : Request) (h : Host) : (r.buildToken h).2.visits = h.visits := by
  unfold buildToken
  cases r.token with
  | some token => rfl
  | none =>
    dsimp only
    cases r.bundler.settings.timeoutSeconds? with
    | none => rfl
    | some seconds =>
      dsimp only
      split
      · rfl
      · rw [bind_apply]
        cases (Host.withClock (Token.start (some (.real seconds))).run h).1 <;> rfl

/-- No steps of a request begin an attempt to read but those of its build. -/
theorem quiet_advance {r : Request} (phase : ∀ ticket generation plan build,
    r.phase ≠ .building ticket generation plan build) : Cache.Site.Quiet r.advance := by
  unfold advance
  cases current : r.phase with
  | asking =>
    refine (Cache.Site.quiet_lookUp r.key).bind fun found => ?_
    cases found <;> exact Cache.Site.quiet_pure _
  | claiming =>
    refine (Cache.Site.quiet_beginBuild r.key).bind fun claim => ?_
    split <;> exact Cache.Site.quiet_pure _
  | starting ticket generation =>
    refine Cache.Site.Quiet.bind (fun s => buildToken_visits r s.host) fun token => ?_
    cases token <;> exact Cache.Site.quiet_pure _
  | building ticket generation plan build => exact absurd current (phase _ _ _ _)
  | ending ticket generation result =>
    cases result with
    | ok text =>
      exact (Cache.Site.quiet_completeBuild _ _ _ _).bind fun _ => Cache.Site.quiet_pure _
    | error e => exact (Cache.Site.quiet_onCache _).bind fun _ => Cache.Site.quiet_pure _
  | waiting ticket =>
    refine Cache.Site.Quiet.bind (fun _ => rfl) fun site => ?_
    cases site.cache.result? ticket <;> exact Cache.Site.quiet_pure _
  | finished result => exact Cache.Site.quiet_pure _

section Frame

variable {r r' : Request} {s s' : Site}

theorem Turn.follows (turn : r.Turn s r' s') : s.host.Follows s'.host := by
  cases turn with
  | found | missed | granted | joined | unstarted | started | ended => assumption
  | went | built | failed => exact advance_keepsFiles _ _ _
  | served | waits | rests => exact .refl _

theorem Turn.key (turn : r.Turn s r' s') : r'.key = r.key := by
  cases turn <;> rfl

theorem Turn.bundler (turn : r.Turn s r' s') : r'.bundler = r.bundler := by
  cases turn <;> rfl

theorem Turn.plan (turn : r.Turn s r' s') (token : Option Token) : r'.plan token = r.plan token := by
  rw [Request.plan, turn.key, turn.bundler]
  rfl

theorem Turn.generation (turn : r.Turn s r' s') : s'.cache.generation = s.cache.generation := by
  cases turn with
  | found | missed => exact Cache.generation_lookUp _ _
  | granted _ idle => rw [Cache.beginBuild_of_none idle]
  | joined _ flying => rw [Cache.beginBuild_of_some flying]; rfl
  | ended => exact Cache.generation_finishBuild
  | unstarted | started | went | built | failed | served | waits | rests => rfl

/-- A text is stored when a build of the current generation ends with it, and at no other time. -/
theorem Turn.entries (turn : r.Turn s r' s') :
    (∃ ticket text, r.phase = .ending ticket s.cache.generation (.ok text) ∧
      s'.cache = (Cache.finishBuild r.key ticket s.cache.generation (.ok text) s.cache).2 ∧
      s'.cache.entries = s.cache.entries.insert r.key text) ∨
    (∀ ticket text, r.phase ≠ .ending ticket s.cache.generation (.ok text)) ∧
      s'.cache.entries = s.cache.entries := by
  cases turn with
  | found phase | missed phase =>
    exact .inr ⟨by simp [phase], Cache.entries_lookUp _ _⟩
  | granted phase idle =>
    rw [Cache.beginBuild_of_none idle]
    exact .inr ⟨by simp [phase], rfl⟩
  | joined phase flying =>
    rw [Cache.beginBuild_of_some flying]
    exact .inr ⟨by simp [phase], rfl⟩
  | @ended ticket generation result _ phase =>
    simp only [Cache.entries_finishBuild]
    by_cases current : generation = s.cache.generation
    · subst current
      cases result with
      | ok text => exact .inl ⟨ticket, text, phase, rfl, by simp [Cache.settled, Cache.store]⟩
      | error e => exact .inr ⟨by simp [phase], rfl⟩
    · exact .inr ⟨by simp [phase, current], Cache.entries_settled_of_ne current⟩
  | unstarted phase | started phase | went phase | built phase | failed phase | served phase
  | waits phase | rests phase => exact .inr ⟨by simp [phase], rfl⟩

/-- A build goes on from its start, or from where it stood. -/
theorem Turn.building (turn : r.Turn s r' s') {ticket : Cache.Ticket} {generation : Int}
    {plan : Plan} {build : Build} (now : r'.phase = .building ticket generation plan build) :
    (∃ token, plan = r.plan token ∧ build = .start plan) ∨
      ∃ before, r.phase = .building ticket generation plan before ∧
        (before.advance plan s.host).1 = .going build := by
  cases turn with
  | @started _ _ token =>
    cases now
    exact .inl ⟨token, rfl, rfl⟩
  | went phase going =>
    cases now
    exact .inr ⟨_, phase, going⟩
  | waits phase | rests phase =>
    rw [phase] at now
    cases now
  | found | missed | granted | joined | unstarted | built | failed | ended | served => cases now

/-- A build that is to be ended with a text has just been built. -/
theorem Turn.ending (turn : r.Turn s r' s') {ticket : Cache.Ticket} {generation : Int}
    {text : String} (now : r'.phase = .ending ticket generation (.ok text)) :
    ∃ plan build, r.phase = .building ticket generation plan build ∧
      (build.advance plan s.host).1 = .built text := by
  cases turn with
  | built phase built =>
    cases now
    exact ⟨_, _, phase, built⟩
  | waits phase | rests phase =>
    rw [phase] at now
    cases now
  | found | missed | granted | joined | unstarted | started | went | failed | ended | served =>
    cases now

/-- Tokens have no part in what files yield. -/
theorem yields_of_plan {b : Bundler} {token : Option Token} {files : Disk} {text : String}
    (same : r.bundler = b) (yields : (r.plan token).Yields files text) :
    (b.plan r.key).Yields files text := by
  subst same
  exact yields

/-- What a request holds it held before, unless its claim of an idle key has just been granted. -/
theorem Turn.holds (turn : r.Turn s r' s') {h : Cache.Holding} (now : r'.held? = some h) :
    r.held? = some h ∨ s.cache.inFlight.get? r.key = none ∧
      h = ⟨⟨s.cache.builds.length⟩, r.key, s.cache.generation⟩ := by
  cases turn with
  | granted _ idle =>
    cases now
    exact .inr ⟨idle, rfl⟩
  | unstarted phase | started phase | went phase | built phase | failed phase =>
    cases now
    simp [Request.held?, phase, goTo]
  | waits | rests => exact .inl now
  | found | missed | joined | ended | served => cases now

/-- A request takes its ticket from its claim: the one in flight, or the next. -/
theorem Turn.ticket? (turn : r.Turn s r' s') {ticket : Cache.Ticket}
    (now : r'.ticket? = some ticket) :
    r.ticket? = some ticket ∨ s.cache.inFlight.get? r.key = some ticket ∨
      ticket.number = s.cache.builds.length := by
  cases turn with
  | found | missed | ended | served => cases now
  | granted =>
    cases now
    exact .inr (.inr rfl)
  | joined _ flying =>
    cases now
    exact .inr (.inl flying)
  | unstarted phase | started phase | went phase | built phase | failed phase =>
    cases now
    simp [Request.ticket?, phase]
  | waits | rests => exact .inl now

end Frame

end Request
end Bundle
end ModuleBundler
