import ModuleBundler.Proofs.Bundle.Sequence
import ModuleBundler.Proofs.Bundle.Concurrency

/-! A build that fails, seen from the cache. From any state on, beside any other
calls, clearings and changes of the files, a call that fails takes back its mark and
hands its error to those who joined it. Nothing else in the cache is its doing. -/
namespace ModuleBundler

namespace Cache

variable {ε : Type} {key : Key} {c d e : Cache ε} {n m : Nat}

/-- Nothing has changed but the mark of one key, the look-ups and joins that were counted, the
builds, and so many failures more. -/
structure Spares (key : Key) (failed : Nat) (c d : Cache ε) : Prop where
  entries : d.entries = c.entries
  generation : d.generation = c.generation
  stores : d.statistics.stores = c.statistics.stores
  failures : d.statistics.failures = c.statistics.failures + failed
  marks : ∀ other, other ≠ key → d.inFlight.get? other = c.inFlight.get? other

namespace Spares

theorem refl (key : Key) (c : Cache ε) : Spares key 0 c c := ⟨rfl, rfl, rfl, rfl, fun _ _ => rfl⟩

theorem trans (first : Spares key n c d) (second : Spares key m d e) : Spares key (n + m) c e where
  entries := second.entries.trans first.entries
  generation := second.generation.trans first.generation
  stores := second.stores.trans first.stores
  failures := by rw [second.failures, first.failures, Nat.add_assoc]
  marks other ne := (second.marks other ne).trans (first.marks other ne)

theorem lookUp (key : Key) (c : Cache ε) : Spares key 0 c (lookUp key c).2 where
  entries := entries_lookUp key c
  generation := generation_lookUp key c
  stores := stores_lookUp key c
  failures := by
    unfold Cache.lookUp
    split <;> rfl
  marks other _ := by rw [inFlight_lookUp]

theorem beginBuild (key : Key) (c : Cache ε) : Spares key 0 c (beginBuild key c).2 := by
  cases flying : c.inFlight.get? key with
  | some ticket =>
    rw [beginBuild_of_some flying]
    exact ⟨rfl, rfl, rfl, rfl, fun _ _ => rfl⟩
  | none =>
    rw [beginBuild_of_none flying]
    exact ⟨rfl, rfl, rfl, rfl, fun other ne => Table.get?_insert_of_ne ne _⟩

theorem fail (key : Key) (ticket : Ticket) (generation : Int) (error : ε) (c : Cache ε) :
    Spares key 1 c (finishBuild key ticket generation (.error error) c).2 where
  entries := by
    rw [entries_finishBuild]
    rfl
  generation := generation_finishBuild
  stores := by
    rw [statistics_finishBuild]
    rfl
  failures := by
    rw [statistics_finishBuild]
    rfl
  marks other ne := by
    rw [inFlight_finishBuild, get?_release, if_neg fun both => ne both.1]

/-- Clearing makes the same of two caches that differ by no more than this. -/
theorem clear (spares : Spares key n c d) : Spares key n (clear c).2 (Cache.clear d).2 where
  entries := rfl
  generation := congrArg (· + 1) spares.generation
  stores := spares.stores
  failures := spares.failures
  marks _ _ := rfl

end Spares

/-- Ending a build takes its own mark away and no other. -/
theorem marked_finishBuild_iff {ticket other : Ticket} {generation : Int}
    {result : Except ε String} :
    (finishBuild key ticket generation result c).2.inFlight.get? key = some other ↔
      c.inFlight.get? key = some other ∧ other ≠ ticket := by
  rw [inFlight_finishBuild, get?_release]
  by_cases marked : c.inFlight.get? key = some ticket
  · rw [if_pos ⟨rfl, marked⟩, marked]
    refine iff_of_false (by simp) ?_
    rintro ⟨same, apart⟩
    exact apart (Option.some.inj same).symm
  · rw [if_neg fun both => marked both.2]
    refine ⟨fun there => ⟨there, ?_⟩, And.left⟩
    rintro rfl
    exact marked there

end Cache

namespace Bundle

open Cache

namespace Request

variable {r r' : Request} {s s' : Site}

theorem Turn.spares (turn : r.Turn s r' s')
    (unended : ∀ ticket generation result, r.phase ≠ .ending ticket generation result) :
    Spares r.key 0 s.cache s'.cache := by
  cases turn with
  | found | missed => exact .lookUp _ _
  | granted | joined => exact .beginBuild _ _
  | ended ending => exact absurd ending (unended _ _ _)
  | unstarted | started | went | built | failed | served | waits | rests => exact .refl _ _

/-- A result is there from the step before, or a build that was held has just been ended with it. -/
theorem Turn.resolves (turn : r.Turn s r' s') {ticket : Ticket} {result : Except Failure String}
    (now : s'.cache.result? ticket = some result) :
    s.cache.result? ticket = some result ∨
      r'.held? = none ∧ ∃ h, r.held? = some h ∧ h.ticket = ticket := by
  cases turn with
  | found | missed =>
    rw [Cache.result?, builds_lookUp] at now
    exact .inl now
  | granted _ idle =>
    rw [beginBuild_of_none idle, result?_of_builds_append rfl] at now
    exact .inl now
  | joined _ flying =>
    rw [beginBuild_of_some flying] at now
    exact .inl now
  | @ended own generation _ _ ending =>
    by_cases same : ticket = own
    · have holds : r.held? = some ⟨own, r.key, generation⟩ := by
        simp only [Request.held?, ending]
      exact .inr ⟨rfl, _, holds, same.symm⟩
    · rw [result?_finishBuild_of_ne same] at now
      exact .inl now
  | unstarted | started | went | built | failed | served | waits | rests => exact .inl now

theorem ticket?_of_held? {h : Holding} (holds : r.held? = some h) : r.ticket? = some h.ticket := by
  cases phase : r.phase with
  | starting | building | ending =>
    simp only [held?, phase, Option.some.injEq] at holds
    simp only [ticket?, phase, ← holds]
  | asking | claiming | waiting | finished => simp [held?, phase] at holds

/-- What is finished stays as it is. -/
theorem Turn.finished (turn : r.Turn s r' s') {result : Except Failure String}
    (finished : r.phase = .finished result) : r'.phase = .finished result := by
  cases turn with
  | rests => exact finished
  | found phase | missed phase | granted phase | joined phase | unstarted phase | started phase
  | went phase | built phase | failed phase | ended phase | served phase | waits phase =>
    cases phase.symm.trans finished

/-- Who waits for a build in flight waits on. -/
theorem Turn.waiting (turn : r.Turn s r' s') {ticket : Ticket}
    (pending : s.cache.result? ticket = none) (waiting : r.phase = .waiting ticket) :
    r'.phase = .waiting ticket := by
  cases turn with
  | waits => exact waiting
  | served phase resolved =>
    cases phase.symm.trans waiting
    cases resolved.symm.trans pending
  | found phase | missed phase | granted phase | joined phase | unstarted phase | started phase
  | went phase | built phase | failed phase | ended phase | rests phase =>
    cases phase.symm.trans waiting

theorem unfinished_of_ticket? {ticket : Ticket} (bears : r.ticket? = some ticket) :
    r.result? = none := by
  cases phase : r.phase with
  | finished => simp [ticket?, phase] at bears
  | asking | claiming | starting | building | ending | waiting => simp [result?, phase]

/-- With nothing in flight for its key, a call is answered from the entries, or owns a new build. -/
theorem start_of_idle {key : Key} (idle : s.cache.inFlight.get? key = none) (b : Bundler)
    (force : Bool) (token : Option Cancellation.Token) :
    (force = false ∧ ∃ text, s.cache.entries.get? key = some text ∧
      ((start b key force token).advance s).1.result? = some (.ok text)) ∨
    ((force = true ∨ s.cache.entries.get? key = none) ∧ ∃ steps,
      ((start b key force token).advanceBy steps s).1.phase =
        .starting ⟨s.cache.builds.length⟩ s.cache.generation) := by
  -- A call that has come to its claim is granted it.
  have granted : ∀ {r : Request} {site : Site}, r.phase = .claiming → r.key = key →
      site.cache.inFlight = s.cache.inFlight → site.cache.builds = s.cache.builds →
      site.cache.generation = s.cache.generation →
      (r.advance site).1.phase = .starting ⟨s.cache.builds.length⟩ s.cache.generation := by
    rintro r site claiming rfl flying builds generation
    obtain ⟨host, -, claimed⟩ := advance_claiming (s := site) claiming
    rw [claimed, flying, idle, builds, generation]
    rfl
  cases force with
  | true => exact .inr ⟨.inl rfl, 1, granted rfl rfl rfl rfl rfl⟩
  | false =>
    obtain ⟨host, -, looked⟩ := advance_asking (r := start b key false token) (s := s) rfl
    cases present : s.cache.entries.get? (start b key false token).key with
    | some text =>
      rw [present] at looked
      exact .inl ⟨rfl, text, present, by rw [looked]; rfl⟩
    | none =>
      rw [present] at looked
      refine .inr ⟨.inr present, 2, ?_⟩
      rw [advanceBy, looked]
      exact granted rfl rfl (inFlight_lookUp _ _) (builds_lookUp _ _) (generation_lookUp _ _)

end Request

namespace Concurrency

universe u

variable {ι : Type u}

/-- The call that a move belongs to; the others belong to the surroundings. -/
def Move.mover? : Move ι → Option ι
  | .advance i => some i
  | _ => none

/-- Every ticket in hand was given out by the cache. -/
structure State.Known (s : State ι) : Prop where
  flying : ∀ {key ticket}, s.site.cache.inFlight.get? key = some ticket →
    ticket.number < s.site.cache.builds.length
  borne : ∀ {i ticket}, (s.requests i).ticket? = some ticket →
    ticket.number < s.site.cache.builds.length

theorem known_initial (b : Bundler) (host : Source.Host) (calls : ι → Call) :
    (initial b host calls).Known where
  flying flying := by cases flying
  borne borne := by
    rw [ticket?_initial] at borne
    cases borne

/-- What a call holds is held by no other, has no result, and no older build has the mark. -/
structure State.Owns (s : State ι) (i : ι) (h : Holding) : Prop where
  holds : s.held i = some h
  sole : ∀ {j k}, s.held j = some k → k.ticket = h.ticket → j = i
  pending : s.site.cache.result? h.ticket = none
  newest : ∀ {ticket}, s.site.cache.inFlight.get? h.key = some ticket →
    h.ticket.number ≤ ticket.number

variable [DecidableEq ι] {s t : State ι} {move : Move ι} {i j : ι} {ticket : Ticket}
  {result : Except Failure String}

section Steps

theorem State.Known.put (known : s.Known) {r : Request} {site : Site}
    (builds : s.site.cache.builds.length ≤ site.cache.builds.length)
    (flying : ∀ {key ticket}, site.cache.inFlight.get? key = some ticket →
      s.site.cache.inFlight.get? key = some ticket ∨ ticket.number < site.cache.builds.length)
    (borne : ∀ {ticket}, r.ticket? = some ticket → (s.requests i).ticket? = some ticket ∨
      ticket.number < site.cache.builds.length) : (s.put i r site).Known where
  flying now := by
    rcases flying now with old | fresh
    · exact Nat.lt_of_lt_of_le (known.flying old) builds
    · exact fresh
  borne {j ticket} now := by
    by_cases same : j = i
    · subst same
      have moved : (s.put j r site).requests j = r := Function.update_self _ _ _
      rw [moved] at now
      rcases borne now with old | fresh
      · exact Nat.lt_of_lt_of_le (known.borne old) builds
      · exact fresh
    · have kept : (s.put i r site).requests j = s.requests j := Function.update_of_ne same _ _
      rw [kept] at now
      exact Nat.lt_of_lt_of_le (known.borne now) builds

theorem Effect.known (effect : Effect s move t) (known : s.Known) : t.Known := by
  have more := effect.builds_le
  cases effect with
  | @advanced i r site turn =>
    cases turn with
    | found | missed =>
      refine known.put more (fun flying => .inl ?_) fun borne => by cases borne
      rwa [inFlight_lookUp] at flying
    | granted _ idle =>
      rw [beginBuild_of_none idle] at more ⊢
      refine known.put more (fun {key ticket} flying => ?_) fun borne => ?_
      · rw [Table.get?_insert] at flying
        split at flying
        · cases flying
          exact .inr (by simp)
        · exact .inl flying
      · cases borne
        exact .inr (by simp)
    | joined _ marked =>
      rw [beginBuild_of_some marked] at more ⊢
      refine known.put more .inl fun borne => .inr ?_
      cases borne
      exact known.flying marked
    | unstarted phase | started phase | went phase | built phase | failed phase =>
      refine known.put more .inl fun borne => .inl ?_
      cases borne
      simp [Request.ticket?, phase]
    | ended =>
      refine known.put more (fun flying => .inl ?_) fun borne => by cases borne
      rw [inFlight_finishBuild, get?_release] at flying
      split at flying
      · cases flying
      · exact flying
    | served => exact known.put more .inl fun borne => by cases borne
    | waits | rests => exact known.put more .inl .inl
  | cleared => exact ⟨fun flying => (by cases flying), known.borne⟩
  | changed | disturbed => exact ⟨known.flying, known.borne⟩

theorem Effect.resolves (effect : Effect s move t)
    (now : t.site.cache.result? ticket = some result) :
    s.site.cache.result? ticket = some result ∨
      ∃ j h, s.held j = some h ∧ h.ticket = ticket ∧ t.held j = none := by
  by_cases own : ∃ j, move = .advance j
  · obtain ⟨j, rfl⟩ := own
    refine (effect.turn.resolves now).imp_right ?_
    rintro ⟨ended, h, holds, same⟩
    exact ⟨j, h, holds, same, ended⟩
  · cases effect with
    | advanced => exact absurd ⟨_, rfl⟩ own
    | cleared | changed | disturbed => exact .inl now

omit [DecidableEq ι] in
theorem State.Known.of_holds (known : s.Known) {h : Holding} (holds : s.held i = some h) :
    h.ticket.number < s.site.cache.builds.length := known.borne (Request.ticket?_of_held? holds)

/-- Other claims take later tickets, and other ends give out other results. -/
theorem State.Owns.moved {h : Holding} (own : s.Owns i h) (known : s.Known)
    (effect : Effect s move t) (now : t.held i = some h) : t.Owns i h := by
  have old := known.of_holds own.holds
  refine ⟨now, fun {j k} holdsj same => ?_, ?_, fun {ticket} flying => ?_⟩
  · rcases effect.holds holdsj with before | ⟨-, -, rfl⟩
    · exact own.sole before same
    · rw [← same] at old
      exact absurd old (Nat.lt_irrefl _)
  · by_contra resolved
    obtain ⟨result, resolved⟩ := Option.ne_none_iff_exists'.mp resolved
    rcases effect.resolves resolved with before | ⟨j, k, holdsj, same, ended⟩
    · rw [own.pending] at before
      cases before
    · rw [own.sole holdsj same, now] at ended
      cases ended
  · rcases effect.flying flying with before | new
    · exact own.newest before
    · omega

/-- A claim that is granted gives out a ticket that nobody has had. -/
theorem Effect.owns_of_granted (effect : Effect s (.advance i) t) (known : s.Known) {h : Holding}
    (now : t.held i = some h) (fresh : h.ticket.number = s.site.cache.builds.length)
    (idle : s.site.cache.inFlight.get? h.key = none) : t.Owns i h := by
  refine ⟨now, fun {j k} holdsj same => ?_, ?_, fun {ticket} flying => ?_⟩
  · rcases effect.holds holdsj with before | ⟨mine, -⟩
    · have old := known.of_holds before
      rw [same] at old
      omega
    · cases mine
      rfl
  · by_contra resolved
    obtain ⟨result, resolved⟩ := Option.ne_none_iff_exists'.mp resolved
    rcases effect.resolves resolved with before | ⟨j, k, holdsj, same, -⟩
    · have old := lt_of_result? before
      omega
    · have old := known.of_holds holdsj
      rw [same] at old
      omega
  · rcases effect.flying flying with before | new
    · rw [idle] at before
      cases before
    · omega

theorem Effect.owns (effect : Effect s move t) (known : s.Known)
    (owned : ∀ h, s.held i = some h → s.Owns i h) {h : Holding} (now : t.held i = some h) :
    t.Owns i h := by
  rcases effect.holds now with holds | ⟨rfl, idle, granted⟩
  · exact (owned h holds).moved known effect now
  · exact effect.owns_of_granted known now (by rw [granted]) (by rw [granted]; exact idle)

end Steps

section Runs

variable {key : Key} {moves sooner later : List (Move ι)} {n : Nat} {w : State ι}

theorem runFrom_concat (s : State ι) (moves : List (Move ι)) (move : Move ι) :
    runFrom s (moves ++ [move]) = step (runFrom s moves) move := runFrom_append _ _ _

theorem runFrom_known (known : s.Known) (moves : List (Move ι)) : (runFrom s moves).Known := by
  induction moves generalizing s with
  | nil => exact known
  | cons move rest ih => exact ih ((effect_step s move).known known)

theorem runFrom_owns (known : s.Known) (owned : ∀ h, s.held i = some h → s.Owns i h)
    (moves : List (Move ι)) {h : Holding} (holds : (runFrom s moves).held i = some h) :
    (runFrom s moves).Owns i h := by
  induction moves generalizing s with
  | nil => exact owned h holds
  | cons move rest ih =>
    have effect := effect_step s move
    exact ih (effect.known known) (fun k now => effect.owns known owned now) holds

/-- In any run of calls a build in hand belongs to one call, and has no result yet. -/
theorem owns_of_run (b : Bundler) (host : Source.Host) (calls : ι → Call) (moves : List (Move ι))
    {h : Holding} (holds : (runFrom (initial b host calls) moves).held i = some h) :
    (runFrom (initial b host calls) moves).Owns i h := by
  refine runFrom_owns (known_initial b host calls) (fun k held => ?_) moves holds
  rw [held_initial] at held
  cases held

theorem runFrom_key (s : State ι) (moves : List (Move ι)) (i : ι) :
    ((runFrom s moves).requests i).key = (s.requests i).key := by
  induction moves generalizing s with
  | nil => rfl
  | cons move rest ih => exact (ih (step s move)).trans ((effect_step s move).key i)

theorem runFrom_result? (resolved : s.site.cache.result? ticket = some result)
    (moves : List (Move ι)) : (runFrom s moves).site.cache.result? ticket = some result := by
  induction moves generalizing s with
  | nil => exact resolved
  | cons move rest ih => exact ih ((effect_step s move).result? resolved)

theorem pending_of_runFrom (moves : List (Move ι))
    (pending : (runFrom s moves).site.cache.result? ticket = none) :
    s.site.cache.result? ticket = none := by
  by_contra resolved
  obtain ⟨result, resolved⟩ := Option.ne_none_iff_exists'.mp resolved
  rw [runFrom_result? resolved] at pending
  cases pending

theorem Effect.finished (effect : Effect s move t)
    (finished : (s.requests j).phase = .finished result) :
    (t.requests j).phase = .finished result := by
  by_cases mine : move = .advance j
  · subst mine
    exact effect.turn.finished finished
  · rw [effect.requests_of_ne mine, finished]

theorem runFrom_finished (finished : (s.requests j).phase = .finished result)
    (moves : List (Move ι)) : ((runFrom s moves).requests j).phase = .finished result := by
  induction moves generalizing s with
  | nil => exact finished
  | cons move rest ih => exact ih ((effect_step s move).finished finished)

theorem step_ending {generation : Int}
    (ending : (s.requests i).phase = .ending ticket generation result) :
    (step s (.advance i)).site.cache =
        (finishBuild (s.requests i).key ticket generation result s.site.cache).2 ∧
      ((step s (.advance i)).requests i).phase = .finished result := by
  obtain ⟨host, -, ended⟩ := Request.advance_ending (s := s.site) ending
  have moved : (step s (.advance i)).requests i = ((s.requests i).advance s.site).1 :=
    Function.update_self _ _ _
  rw [moved, ended]
  refine ⟨?_, rfl⟩
  change ((s.requests i).advance s.site).2.cache = _
  rw [ended]

/-- Every step of a call that is not finished yet. -/
theorem spares_of_unfinished (order : moves = sooner ++ .advance j :: later)
    (unfinished : ((runFrom s moves).requests j).result? = none) :
    Spares (s.requests j).key 0 (runFrom s sooner).site.cache
      (runFrom s (sooner ++ [.advance j])).site.cache := by
  have turn := ((runFrom s sooner).requests j).turn (runFrom s sooner).site
  rw [runFrom_concat, ← runFrom_key s sooner j]
  refine turn.spares fun ticket generation result ending => ?_
  rw [order, runFrom_append] at unfinished
  have finished := runFrom_finished (step_ending ending).2 later
  cases (Request.result?_eq_some.mpr finished).symm.trans unfinished

theorem spares_of_surroundings (spares : Spares key n w.site.cache s.site.cache)
    (beside : move.mover? = none) :
    Spares key n (step w move).site.cache (step s move).site.cache := by
  cases move with
  | advance i => cases beside
  | clearCache =>
    simp only [step, clearCache_does.cache]
    exact spares.clear
  | sourceChanged path =>
    simp only [step, (onSourceChanged_does path).cache]
    exact spares.clear
  | change | disturb => exact spares

/-- If no step of a call changes more, leaving all calls out changes no more either. -/
theorem spares_without (spares : Spares key n w.site.cache s.site.cache)
    (steps : ∀ sooner j later, moves = sooner ++ .advance j :: later →
      Spares key 0 (runFrom s sooner).site.cache (runFrom s (sooner ++ [.advance j])).site.cache) :
    Spares key n (runFrom w (moves.filter (·.mover?.isNone))).site.cache
      (runFrom s moves).site.cache := by
  induction moves generalizing s w with
  | nil => exact spares
  | cons move rest ih =>
    have later : ∀ sooner j later, rest = sooner ++ .advance j :: later →
        Spares key 0 (runFrom (step s move) sooner).site.cache
          (runFrom (step s move) (sooner ++ [.advance j])).site.cache :=
      fun sooner j later order => steps (move :: sooner) j later (by rw [order, List.cons_append])
    cases mover : move.mover? with
    | none =>
      rw [List.filter_cons_of_pos (by simp [mover])]
      exact ih (spares_of_surroundings spares mover) later
    | some j =>
      rw [List.filter_cons_of_neg (by simp [mover])]
      cases move with
      | advance i => exact ih (spares.trans (steps [] i rest rfl)) later
      | clearCache | sourceChanged | change | disturb => cases mover

theorem Effect.waiting (effect : Effect s move t) (pending : s.site.cache.result? ticket = none)
    (waiting : (s.requests j).phase = .waiting ticket) :
    (t.requests j).phase = .waiting ticket := by
  by_cases mine : move = .advance j
  · subst mine
    exact effect.turn.waiting pending waiting
  · rw [effect.requests_of_ne mine, waiting]

theorem runFrom_waiting (waiting : (s.requests j).phase = .waiting ticket)
    (pending : (runFrom s moves).site.cache.result? ticket = none) :
    ((runFrom s moves).requests j).phase = .waiting ticket := by
  induction moves generalizing s with
  | nil => exact waiting
  | cons move rest ih =>
    have now : s.site.cache.result? ticket = none := pending_of_runFrom (move :: rest) pending
    exact ih ((effect_step s move).waiting now waiting) pending

theorem step_waiting (waiting : (s.requests j).phase = .waiting ticket)
    (resolved : s.site.cache.result? ticket = some result) :
    ((step s (.advance j)).requests j).phase = .finished result := by
  have moved : (step s (.advance j)).requests j = ((s.requests j).advance s.site).1 :=
    Function.update_self _ _ _
  rw [moved, Request.advance_waiting waiting, resolved]
  rfl

/-- A call that waits for a result that is there has it once it moves. -/
theorem runFrom_served (waiting : (s.requests j).phase = .waiting ticket)
    (resolved : s.site.cache.result? ticket = some result) (moved : .advance j ∈ moves) :
    ((runFrom s moves).requests j).phase = .finished result := by
  induction moves generalizing s with
  | nil => cases moved
  | cons move rest ih =>
    have effect := effect_step s move
    by_cases mine : move = .advance j
    · subst mine
      exact runFrom_finished (step_waiting waiting resolved) rest
    · have still : ((step s move).requests j).phase = .waiting ticket := by
        rw [effect.requests_of_ne mine, waiting]
      have inRest : .advance j ∈ rest := (List.mem_cons.mp moved).resolve_left (Ne.symm mine)
      exact ih still (effect.result? resolved) inRest

section Raised

variable {b : Bundler} {force : Bool} {token : Option Cancellation.Token} {generation : Int}

/-- A call that is about to end its build owns it, and nobody else. -/
theorem owns_of_ending (known : s.Known) (called : s.requests i = .start b key force token)
    (ending : ((runFrom s moves).requests i).phase = .ending ticket generation result) :
    (runFrom s moves).Owns i ⟨ticket, key, generation⟩ := by
  have unheld : ∀ h, s.held i = some h → s.Owns i h := by
    intro h holds
    rw [State.held, called] at holds
    cases force with
    | true => cases holds
    | false => cases holds
  have keyed : ((runFrom s moves).requests i).key = key := by
    rw [runFrom_key, called]
    rfl
  apply runFrom_owns known unheld
  rw [held_of_ending ending, keyed]

/-- Whoever waits for a build of another call waits through its last step. -/
theorem waiting_of_joined (order : moves = sooner ++ later)
    (waiting : ((runFrom s sooner).requests j).phase = .waiting ticket)
    (pending : (runFrom s moves).site.cache.result? ticket = none)
    (ending : ((runFrom s moves).requests i).phase = .ending ticket generation result) :
    ((step (runFrom s moves) (.advance i)).requests j).phase = .waiting ticket := by
  subst order
  rw [runFrom_append] at pending ending ⊢
  have still := runFrom_waiting waiting pending
  have other : .advance i ≠ (.advance j : Move ι) := by
    intro same
    cases same
    cases still.symm.trans ending
  rw [(effect_step _ _).requests_of_ne other, still]

end Raised

end Runs

/-- A failed build, from any state, beside any other moves. -/
theorem failed_build_spares_cache {s : State ι} (known : s.Known) {i : ι} {b : Bundler} {key : Key}
    {force : Bool} {token : Option Cancellation.Token}
    (called : s.requests i = .start b key force token) {moves : List (Move ι)} {ticket : Ticket}
    {generation : Int} {e : Failure}
    (raised : ((runFrom s moves).requests i).phase = .ending ticket generation (.error e)) :
    let before := runFrom s moves
    let after := step before (.advance i)
    -- No step of the call changes an entry, a store, the generation or the mark of another key.
    (∀ sooner later, moves = sooner ++ .advance i :: later →
      Spares key 0 (runFrom s sooner).site.cache (runFrom s (sooner ++ [.advance i])).site.cache) ∧
    Spares key 1 before.site.cache after.site.cache ∧
    -- So all is as without the call, where nobody else moves but those who wait for its build.
    ((∀ j, .advance j ∈ moves →
        (s.requests j).key = key ∧ ((runFrom s moves).requests j).ticket? = some ticket) →
      Spares key 1 (runFrom s (moves.filter (·.mover?.isNone))).site.cache after.site.cache) ∧
    (after.requests i).result? = some (.error e) ∧
    -- Its mark is gone, and only its own: one that is there then is newer.
    (∀ other, after.site.cache.inFlight.get? key = some other ↔
      before.site.cache.inFlight.get? key = some other ∧ other ≠ ticket) ∧
    (∀ other, after.site.cache.inFlight.get? key = some other → ticket.number < other.number) ∧
    -- Whoever has joined gets the same error.
    (∀ sooner rest j, moves = sooner ++ rest →
      ((runFrom s sooner).requests j).phase = .waiting ticket → ∀ later, .advance j ∈ later →
      ((runFrom after later).requests j).result? = some (.error e)) ∧
    -- With no mark there, the next call finds an entry that is still there or owns a new build.
    (∀ later b' force' token', let site := (runFrom after later).site
      site.cache.inFlight.get? key = none →
      (force' = false ∧ ∃ text, site.cache.entries.get? key = some text ∧
        ((Request.start b' key force' token').advance site).1.result? = some (.ok text)) ∨
      ((force' = true ∨ site.cache.entries.get? key = none) ∧ ∃ steps,
        ((Request.start b' key force' token').advanceBy steps site).1.phase =
          .starting ⟨site.cache.builds.length⟩ site.cache.generation)) := by
  intro before after
  have own : before.Owns i ⟨ticket, key, generation⟩ := owns_of_ending known called raised
  have bears : (before.requests i).ticket? = some ticket := Request.ticket?_of_held? own.holds
  have keyed : (s.requests i).key = key := by
    rw [called]
    rfl
  obtain ⟨cache, finished⟩ := step_ending raised
  rw [runFrom_key s moves i, keyed] at cache
  have failed : Spares key 1 before.site.cache after.site.cache := by
    rw [cache]
    exact .fail key ticket generation e before.site.cache
  have resolved : after.site.cache.result? ticket = some (.error e) := by
    have given : ticket.number < before.site.cache.builds.length :=
      (runFrom_known known moves).of_holds own.holds
    rw [cache, result?_finishBuild key generation _ own.pending given, if_pos rfl]
  have mark : ∀ other, after.site.cache.inFlight.get? key = some other ↔
      before.site.cache.inFlight.get? key = some other ∧ other ≠ ticket := by
    intro other
    rw [cache]
    exact marked_finishBuild_iff
  refine ⟨?_, failed, ?_, Request.result?_eq_some.mpr finished, mark, ?_, ?_, ?_⟩
  · intro sooner later order
    rw [← keyed]
    exact spares_of_unfinished order (Request.unfinished_of_ticket? bears)
  · intro party
    refine (spares_without (.refl key s.site.cache) ?_).trans failed
    intro sooner j later order
    obtain ⟨rfl, waits⟩ := party j (by simp [order])
    exact spares_of_unfinished order (Request.unfinished_of_ticket? waits)
  · intro other flying
    obtain ⟨there, apart⟩ := (mark other).mp flying
    have newest : ticket.number ≤ other.number := own.newest there
    refine Nat.lt_of_le_of_ne newest fun same => apart ?_
    cases other
    cases ticket
    exact congrArg Ticket.mk same.symm
  · intro sooner rest j order waiting later moved
    have waits := waiting_of_joined order waiting own.pending raised
    exact Request.result?_eq_some.mpr (runFrom_served waits resolved moved)
  · intro later b' force' token' site idle
    exact Request.start_of_idle idle b' force' token'

/-- The error that a call is about to end its build with. -/
def raising? (r : Request) : Option (Ticket × Int × Failure) :=
  match r.phase with
  | .ending ticket generation (.error e) => some (ticket, generation, e)
  | _ => none

theorem raising?_eq_some {r : Request} {ticket : Ticket} {generation : Int} {e : Failure} :
    raising? r = some (ticket, generation, e) ↔ r.phase = .ending ticket generation (.error e) := by
  unfold raising?
  split
  · next phase => simp [phase]
  · next other =>
    refine iff_of_false (by simp) fun phase => ?_
    exact other _ _ _ phase

theorem failed_build_spares_cache_rebuilt :
    let b : Bundler := ⟨{ Settings.default with minify := false }⟩
    let host := Source.Host.ofDisk
      (Source.Disk.empty.put "/p/m.js" (.file "require('./gone.js')".toUTF8))
    let key : Key := ⟨"/p", "m.js"⟩
    let cache : Cache Failure :=
      { entries := (∅ : Table Key String).insert key "old"
        inFlight := (∅ : Table Key Ticket).insert ⟨"/p", "n.js"⟩ ⟨0⟩
        generation := 3
        statistics := .zero
        builds := [none] }
    let s : State Bool := ⟨⟨cache, host⟩, fun _ => .start b key true none⟩
    let moves := [.advance true, .advance false] ++ List.replicate 5 (.advance true)
    let after := step (runFrom s moves) (.advance true)
    after.site.cache.entries = cache.entries ∧ after.site.cache.generation = 3 ∧
      after.site.cache.statistics.failures = 1 ∧
      after.site.cache.inFlight.get? ⟨"/p", "n.js"⟩ = some ⟨0⟩ ∧
      after.site.cache.inFlight.get? key = none ∧
      ∃ e : Failure, e.message =
          "Bundle generation failed: [Errno 2] No such file or directory: '/p/gone.js'" ∧
        (after.requests true).result? = some (.error e) ∧
        ((runFrom after [.advance false]).requests false).result? = some (.error e) := by
  intro b host key cache s moves
  dsimp only
  have known : s.Known := by
    constructor
    · intro key ticket flying
      change (Table.insert _ _ _).get? key = some ticket at flying
      rw [Table.get?_insert] at flying
      split at flying
      · cases flying
        decide
      · cases flying
    · intro i ticket borne
      cases borne
  obtain ⟨reached, party, unmarked⟩ :
      (raising? ((runFrom s moves).requests true)).map
          (fun raised => (raised.1, raised.2.1, raised.2.2.message)) =
        some (⟨1⟩, 3,
          "Bundle generation failed: [Errno 2] No such file or directory: '/p/gone.js'") ∧
      (∀ j, ((runFrom s moves).requests j).ticket? = some ⟨1⟩) ∧
      (step (runFrom s moves) (.advance true)).site.cache.inFlight.get? key = none := by
    decide +kernel
  obtain ⟨⟨ticket, generation, e⟩, found, same⟩ := Option.map_eq_some_iff.mp reached
  simp only [Prod.mk.injEq] at same
  obtain ⟨rfl, rfl, message⟩ := same
  have law := failed_build_spares_cache known rfl (raising?_eq_some.mp found)
  obtain ⟨-, -, alone, answered, -, -, joined, -⟩ := law
  have spares := alone fun j _ => ⟨rfl, party j⟩
  have calls : moves.filter (·.mover?.isNone) = [] := rfl
  rw [calls] at spares
  have waiting : ((runFrom s [.advance true, .advance false]).requests false).phase =
      .waiting ⟨1⟩ := rfl
  have order : moves = [.advance true, .advance false] ++ List.replicate 5 (.advance true) := rfl
  have served := joined _ _ false order waiting [.advance false] List.mem_cons_self
  refine ⟨?_, ?_, ?_, ?_, unmarked, e, message, answered, served⟩
  · exact spares.entries
  · exact spares.generation
  · exact spares.failures
  · exact spares.marks _ (by decide)

end Concurrency
end Bundle
end ModuleBundler
