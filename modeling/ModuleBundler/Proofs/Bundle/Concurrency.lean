import ModuleBundler.Proofs.Bundle.Steps

/-! Calls for bundles beside each other. All calls go to one bundler with a cache of
its own, which is empty at the start. A move is one step of a call, a clearing, or
something that happens to the surroundings: the files change, faults are laid, the
clocks jump. Calls and the rest interleave in any order, and a call that never moves
has not begun. -/
namespace ModuleBundler.Bundle.Concurrency

open Source Cancellation

universe u

structure Call where
  key : Cache.Key
  force : Bool
  token : Option Token

structure State (ι : Type u) where
  site : Site
  requests : ι → Request

inductive Move (ι : Type u) where
  | advance (i : ι)
  | clearCache
  | sourceChanged (path : String)
  | change (files : Disk)
  | disturb (faults : List (Option Fault)) (clock wallClock : Clock)

variable {ι : Type u}

def Move.clears : Move ι → Bool
  | .clearCache | .sourceChanged _ => true
  | _ => false

def Call.request (c : Call) (b : Bundler) : Request := .start b c.key c.force c.token

def initial (b : Bundler) (host : Host) (calls : ι → Call) : State ι :=
  ⟨⟨Cache.empty, host⟩, fun i => (calls i).request b⟩

def State.held (s : State ι) (i : ι) : Option Cache.Holding := (s.requests i).held?

theorem held_of_ending {s : State ι} {i : ι} {ticket : Cache.Ticket} {generation : Int}
    {result : Except Failure String} (ending : (s.requests i).phase = .ending ticket generation result) :
    s.held i = some ⟨ticket, (s.requests i).key, generation⟩ := by
  simp only [State.held, Request.held?, ending]

theorem held_of_building {s : State ι} {i : ι} {ticket : Cache.Ticket} {generation : Int} {plan : Plan}
    {build : Build} (building : (s.requests i).phase = .building ticket generation plan build) :
    s.held i = some ⟨ticket, (s.requests i).key, generation⟩ := by
  simp only [State.held, Request.held?, building]

theorem ticket?_initial (b : Bundler) (host : Host) (calls : ι → Call) (i : ι) :
    ((initial b host calls).requests i).ticket? = none := by
  simp only [initial, Call.request, Request.start, Request.ticket?]
  cases (calls i).force <;> rfl

theorem held_initial (b : Bundler) (host : Host) (calls : ι → Call) (i : ι) :
    (initial b host calls).held i = none := by
  simp only [State.held, initial, Call.request, Request.start, Request.held?]
  cases (calls i).force <;> rfl

theorem initial_coherent (b : Bundler) (host : Host) (calls : ι → Call) :
    Cache.Coherent (initial b host calls).site.cache (initial b host calls).held := by
  rw [funext (held_initial b host calls)]
  exact Cache.Coherent.empty

variable [DecidableEq ι]

def State.put (s : State ι) (i : ι) (r : Request) (site : Site) : State ι :=
  ⟨site, Function.update s.requests i r⟩

def step (s : State ι) : Move ι → State ι
  | .advance i =>
    let (r, site) := (s.requests i).advance s.site
    s.put i r site
  | .clearCache => { s with site := (clearCache s.site).2 }
  | .sourceChanged path => { s with site := (onSourceChanged path s.site).2 }
  | .change files => { s with site := { s.site with host := { s.site.host with disk := files } } }
  | .disturb faults clock wallClock =>
    let host := { s.site.host with faults := faults, clock := clock, wallClock := wallClock }
    { s with site := { s.site with host := host } }

def runFrom (s : State ι) (moves : List (Move ι)) : State ι := moves.foldl step s

def run (b : Bundler) (host : Host) (calls : ι → Call) (moves : List (Move ι)) : State ι :=
  runFrom (initial b host calls) moves

/-- What a move comes to. -/
inductive Effect (s : State ι) : Move ι → State ι → Prop where
  | advanced {i r site} (turn : (s.requests i).Turn s.site r site) :
      Effect s (.advance i) (s.put i r site)
  | cleared {move : Move ι} {host} (clears : move.clears = true)
      (follows : s.site.host.Follows host) :
      Effect s move ⟨⟨(Cache.clear s.site.cache).2, host⟩, s.requests⟩
  | changed {files host} (now : host.disk = files) :
      Effect s (.change files) ⟨⟨s.site.cache, host⟩, s.requests⟩
  | disturbed {faults clock wallClock host} (still : host.disk = s.site.host.disk) :
      Effect s (.disturb faults clock wallClock) ⟨⟨s.site.cache, host⟩, s.requests⟩

theorem effect_step (s : State ι) (move : Move ι) : Effect s move (step s move) := by
  cases move with
  | advance i => exact .advanced ((s.requests i).turn s.site)
  | clearCache =>
    obtain ⟨host, follows, cleared⟩ := clearCache_does.apply s.site
    rw [step, cleared]
    exact .cleared rfl follows
  | sourceChanged path =>
    obtain ⟨host, follows, cleared⟩ := (onSourceChanged_does path).apply s.site
    rw [step, cleared]
    exact .cleared rfl follows
  | change files => exact .changed rfl
  | disturb faults clock wallClock => exact .disturbed rfl

section Invariant

variable {s t : State ι} {move : Move ι}

/-- A call's own move is one step of it. -/
theorem Effect.turn {i : ι} (effect : Effect s (.advance i) t) :
    (s.requests i).Turn s.site (t.requests i) t.site := by
  cases effect with
  | @advanced _ r site turn =>
    have moved : (s.put i r site).requests i = r := Function.update_self _ _ _
    rw [moved]
    exact turn
  | cleared clears => cases clears

theorem held_put (s : State ι) (i : ι) (r : Request) (site : Site) :
    (s.put i r site).held = Function.update s.held i r.held? := by
  funext j
  by_cases same : j = i
  · subst same
    simp [State.held, State.put]
  · simp [State.held, State.put, same]

theorem held_put_of_same {i : ι} {r : Request} {site : Site}
    (same : r.held? = (s.requests i).held?) : (s.put i r site).held = s.held := by
  rw [held_put, same]
  exact Function.update_eq_self i s.held

theorem Effect.coherent (effect : Effect s move t)
    (coherent : Cache.Coherent s.site.cache s.held) : Cache.Coherent t.site.cache t.held := by
  cases effect with
  | @advanced i r site turn =>
    cases turn with
    | found asking | missed asking =>
      rw [held_put_of_same (by simp [Request.held?, asking, Request.goTo])]
      exact coherent.lookUp _
    | granted claiming idle =>
      rw [held_put]
      exact coherent.claim (by simp [State.held, Request.held?, claiming]) idle
    | joined claiming flying =>
      rw [held_put_of_same (by simp [Request.held?, claiming, Request.goTo])]
      exact coherent.join flying
    | unstarted current | started current | went current | built current | failed current =>
      rw [held_put_of_same (by simp [Request.held?, current, Request.goTo])]
      exact coherent
    | ended ending =>
      rw [held_put]
      exact coherent.finish (held_of_ending ending) _
    | served waiting =>
      rw [held_put_of_same (by simp [Request.held?, waiting, Request.goTo])]
      exact coherent
    | waits | rests =>
      rw [held_put_of_same rfl]
      exact coherent
  | cleared => exact coherent.clear
  | changed | disturbed => exact coherent

/-- Results are given out once and for all. -/
theorem Effect.result? (effect : Effect s move t) {ticket : Cache.Ticket}
    {result : Except Failure String}
    (resolved : s.site.cache.result? ticket = some result) :
    t.site.cache.result? ticket = some result := by
  cases effect with
  | @advanced i r site turn =>
    cases turn with
    | found | missed =>
      change (Cache.lookUp _ _).2.result? ticket = _
      rw [Cache.result?, Cache.builds_lookUp]
      exact resolved
    | granted _ idle =>
      change (Cache.beginBuild _ _).2.result? ticket = _
      rw [Cache.beginBuild_of_none idle, Cache.result?_of_builds_append rfl]
      exact resolved
    | joined _ flying =>
      change (Cache.beginBuild _ _).2.result? ticket = _
      rw [Cache.beginBuild_of_some flying]
      exact resolved
    | ended => exact Cache.result?_finishBuild_of_some resolved
    | unstarted | started | went | built | failed | served | waits | rests => exact resolved
  | cleared | changed | disturbed => exact resolved

theorem Effect.builds_le (effect : Effect s move t) :
    s.site.cache.builds.length ≤ t.site.cache.builds.length := by
  cases effect with
  | @advanced i r site turn =>
    cases turn with
    | found | missed => exact Nat.le_of_eq (congrArg List.length (Cache.builds_lookUp _ _).symm)
    | granted _ idle =>
      change _ ≤ (Cache.beginBuild _ _).2.builds.length
      rw [Cache.beginBuild_of_none idle]
      simp
    | joined _ flying =>
      change _ ≤ (Cache.beginBuild _ _).2.builds.length
      rw [Cache.beginBuild_of_some flying]
      exact Nat.le_refl _
    | ended => exact Nat.le_of_eq Cache.length_builds_finishBuild.symm
    | unstarted | started | went | built | failed | served | waits | rests => exact Nat.le_refl _
  | cleared | changed | disturbed => exact Nat.le_refl _

/-- Only a call's own moves change where it stands. -/
theorem Effect.requests_of_ne (effect : Effect s move t) {i : ι} (other : move ≠ .advance i) :
    t.requests i = s.requests i := by
  cases effect with
  | @advanced j r site turn =>
    have ne : i ≠ j := fun same => other (same ▸ rfl)
    exact Function.update_of_ne ne _ _
  | cleared | changed | disturbed => rfl

/-- Marks in flight are old, or those of the build that is claimed now. -/
theorem Effect.flying (effect : Effect s move t) {key : Cache.Key} {ticket : Cache.Ticket}
    (flying : t.site.cache.inFlight.get? key = some ticket) :
    s.site.cache.inFlight.get? key = some ticket ∨
      ticket.number = s.site.cache.builds.length := by
  cases effect with
  | @advanced i r site turn =>
    change site.cache.inFlight.get? key = _ at flying
    cases turn with
    | found | missed =>
      rw [Cache.inFlight_lookUp] at flying
      exact .inl flying
    | granted _ idle =>
      rw [Cache.beginBuild_of_none idle, Table.get?_insert] at flying
      split at flying
      next =>
        cases flying
        exact .inr rfl
      next => exact .inl flying
    | joined _ marked =>
      rw [Cache.beginBuild_of_some marked] at flying
      exact .inl flying
    | ended =>
      rw [Cache.inFlight_finishBuild, Cache.get?_release] at flying
      split at flying
      next => cases flying
      next => exact .inl flying
    | unstarted | started | went | built | failed | served | waits | rests => exact .inl flying
  | cleared => cases flying
  | changed | disturbed => exact .inl flying

/-- A call takes its ticket from its claim: the one in flight, or the next. -/
theorem Effect.ticket? (effect : Effect s move t) {i : ι} {ticket : Cache.Ticket}
    (bears : (t.requests i).ticket? = some ticket) :
    (s.requests i).ticket? = some ticket ∨
      s.site.cache.inFlight.get? (s.requests i).key = some ticket ∨
      ticket.number = s.site.cache.builds.length := by
  by_cases mine : move = .advance i
  · subst mine
    exact effect.turn.ticket? bears
  · rw [effect.requests_of_ne mine] at bears
    exact .inl bears

/-- Files change by nothing but a change of files. -/
theorem Effect.disk_of_ne (effect : Effect s move t) (other : ∀ files, move ≠ .change files) :
    t.site.host.disk = s.site.host.disk := by
  cases effect with
  | advanced turn => exact turn.follows.disk
  | cleared _ follows => exact follows.disk
  | changed => exact absurd rfl (other _)
  | disturbed still => exact still

theorem Effect.key (effect : Effect s move t) (i : ι) :
    (t.requests i).key = (s.requests i).key := by
  by_cases mine : move = .advance i
  · subst mine
    exact effect.turn.key
  · rw [effect.requests_of_ne mine]

theorem Effect.generation (effect : Effect s move t) (unbroken : move.clears = false) :
    t.site.cache.generation = s.site.cache.generation := by
  cases effect with
  | advanced turn => exact turn.generation
  | cleared clears =>
    rw [clears] at unbroken
    cases unbroken
  | changed | disturbed => rfl

/-- A call holds a build from the move before, or has just been granted it. -/
theorem Effect.holds (effect : Effect s move t) {i : ι} {h : Cache.Holding}
    (now : t.held i = some h) :
    s.held i = some h ∨ move = .advance i ∧
      s.site.cache.inFlight.get? (s.requests i).key = none ∧
      h = ⟨⟨s.site.cache.builds.length⟩, (s.requests i).key, s.site.cache.generation⟩ := by
  by_cases mine : move = .advance i
  · subst mine
    exact (effect.turn.holds now).imp_right fun granted => ⟨rfl, granted⟩
  · rw [State.held, effect.requests_of_ne mine] at now
    exact .inl now

end Invariant

section Run

variable {b : Bundler} {host : Host} {calls : ι → Call} {s : State ι}

theorem runFrom_append (s : State ι) (first second : List (Move ι)) :
    runFrom s (first ++ second) = runFrom (runFrom s first) second := List.foldl_append

theorem run_concat (b : Bundler) (host : Host) (calls : ι → Call) (moves : List (Move ι))
    (move : Move ι) : run b host calls (moves ++ [move]) = step (run b host calls moves) move :=
  runFrom_append _ _ _

theorem runFrom_coherent (coherent : Cache.Coherent s.site.cache s.held) (moves : List (Move ι)) :
    Cache.Coherent (runFrom s moves).site.cache (runFrom s moves).held := by
  induction moves generalizing s with
  | nil => exact coherent
  | cons move rest ih => exact ih ((effect_step s move).coherent coherent)

theorem run_coherent (b : Bundler) (host : Host) (calls : ι → Call) (moves : List (Move ι)) :
    Cache.Coherent (run b host calls moves).site.cache (run b host calls moves).held :=
  runFrom_coherent (initial_coherent b host calls) moves

theorem builds_le_runFrom (s : State ι) (moves : List (Move ι)) :
    s.site.cache.builds.length ≤ (runFrom s moves).site.cache.builds.length := by
  induction moves generalizing s with
  | nil => exact Nat.le_refl _
  | cons move rest ih => exact Nat.le_trans (effect_step s move).builds_le (ih _)

end Run
end ModuleBundler.Bundle.Concurrency
