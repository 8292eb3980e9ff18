import ModuleBundler.Proofs.Cache.Coherence

/-! The protocol between a cache and its clients. Each client claims the build of
its key once. If it owns the build, it ends it with some text or error of its
choice; if it has joined one, it waits for the result. Clients and clearings
interleave in any order; a move that is not open to a client changes nothing. -/
namespace ModuleBundler.Cache.Protocol

universe u

/-- Where a client stands. -/
inductive Client (ε : Type) where
  | ready
  /-- The client owns a build that it has not ended. -/
  | building (ticket : Ticket) (generation : Int)
  | built (ticket : Ticket) (result : Except ε String)
  /-- The client has joined a build. -/
  | waiting (ticket : Ticket)
  | served (ticket : Ticket) (result : Except ε String)
  /-- The client was to end a build that had ended before. -/
  | refused (ticket : Ticket)

structure State (ι : Type u) (ε : Type) where
  cache : Cache ε
  clients : ι → Client ε

inductive Move (ι : Type u) (ε : Type) where
  | claim (i : ι)
  | finish (i : ι) (result : Except ε String)
  | listen (i : ι)
  | clear

variable {ι : Type u} {ε : Type}

def Move.isClear : Move ι ε → Bool
  | .clear => true
  | _ => false

def initial : State ι ε := ⟨Cache.empty, fun _ => .ready⟩

/-- What a client holds under its key. -/
def Client.held? (key : Key) : Client ε → Option Holding
  | .building ticket generation => some ⟨ticket, key, generation⟩
  | _ => none

def State.held (s : State ι ε) (keys : ι → Key) (i : ι) : Option Holding :=
  (s.clients i).held? (keys i)

/-- A client owns a build from its claim on, also after the end of the build. -/
def State.Owns (s : State ι ε) (i : ι) (ticket : Ticket) : Prop :=
  (∃ generation, s.clients i = .building ticket generation) ∨
    ∃ result, s.clients i = .built ticket result

/-- The invariant of the protocol. -/
structure Sound (keys : ι → Key) (s : State ι ε) : Prop where
  coherent : Coherent s.cache (s.held keys)
  unrefused : ∀ i ticket, s.clients i ≠ .refused ticket
  built : ∀ {i ticket result}, s.clients i = .built ticket result →
    s.cache.result? ticket = some result
  served : ∀ {i ticket result}, s.clients i = .served ticket result →
    s.cache.result? ticket = some result
  resolved : ∀ {ticket result}, s.cache.result? ticket = some result →
    ∃ i, s.clients i = .built ticket result
  sole : ∀ {i j ticket result other}, s.clients i = .built ticket result →
    s.clients j = .built ticket other → i = j
  joined : ∀ {i ticket}, (s.clients i = .waiting ticket ∨
    ∃ result, s.clients i = .served ticket result) → ∃ j, keys j = keys i ∧ s.Owns j ticket

section Held

variable {keys : ι → Key} {s : State ι ε}

theorem held_of_building {i : ι} {ticket : Ticket} {generation : Int}
    (building : s.clients i = .building ticket generation) :
    s.held keys i = some ⟨ticket, keys i, generation⟩ := by
  simp [State.held, building, Client.held?]

theorem building_of_held {i : ι} {h : Holding} (holds : s.held keys i = some h) :
    s.clients i = .building h.ticket h.generation ∧ keys i = h.key := by
  unfold State.held Client.held? at holds
  split at holds
  next building =>
    cases holds
    exact ⟨building, rfl⟩
  next => contradiction

theorem initial_sound (keys : ι → Key) : Sound keys (initial : State ι ε) where
  coherent := Coherent.empty
  unrefused _ _ refused := by cases refused
  built stands := by cases stands
  served stands := by cases stands
  resolved resolved := by cases resolved
  sole stands := by cases stands
  joined stands := by
    obtain stands | ⟨_, stands⟩ := stands <;> cases stands

/-- Before and after its end, a build has one owner. -/
theorem Sound.owner (sound : Sound keys s) {i j : ι} {ticket : Ticket}
    (first : s.Owns i ticket) (second : s.Owns j ticket) : i = j := by
  have unended : ∀ {i generation result}, s.clients i = .building ticket generation →
      s.cache.result? ticket ≠ some result := by
    intro i generation result building resolved
    rw [sound.coherent.pending (held_of_building building)] at resolved
    contradiction
  obtain ⟨g, hi⟩ | ⟨r, hi⟩ := first <;> obtain ⟨g', hj⟩ | ⟨r', hj⟩ := second
  · exact sound.coherent.sole (held_of_building hi) (held_of_building hj) rfl
  · exact absurd (sound.built hj) (unended hi)
  · exact absurd (sound.built hi) (unended hj)
  · exact sound.sole hi hj

end Held

variable [DecidableEq ι]

def State.put (s : State ι ε) (cache : Cache ε) (i : ι) (client : Client ε) : State ι ε :=
  ⟨cache, Function.update s.clients i client⟩

def step (keys : ι → Key) (s : State ι ε) : Move ι ε → State ι ε
  | .claim i =>
    match s.clients i with
    | .ready =>
      let (claim, cache) := beginBuild (keys i) s.cache
      s.put cache i (if claim.isOwner then .building claim.ticket claim.generation
        else .waiting claim.ticket)
    | _ => s
  | .finish i result =>
    match s.clients i with
    | .building ticket generation =>
      let (answer, cache) := finishBuild (keys i) ticket generation result s.cache
      match answer with
      | .ok () => s.put cache i (.built ticket result)
      | .error .alreadyFinished => s.put cache i (.refused ticket)
    | _ => s
  | .listen i =>
    match s.clients i with
    | .waiting ticket =>
      match s.cache.result? ticket with
      | some result => s.put s.cache i (.served ticket result)
      | none => s
    | _ => s
  | .clear => { s with cache := (Cache.clear s.cache).2 }

def runFrom (keys : ι → Key) (s : State ι ε) (moves : List (Move ι ε)) : State ι ε :=
  moves.foldl (step keys) s

def run (keys : ι → Key) (moves : List (Move ι ε)) : State ι ε := runFrom keys initial moves

/-- What a move comes to while cache and clients are coherent: no build is refused its end. -/
inductive Effect (keys : ι → Key) (s : State ι ε) : Move ι ε → State ι ε → Prop where
  | nothing {move} (kept : move.isClear = false) : Effect keys s move s
  | granted {i} (ready : s.clients i = .ready) (idle : s.cache.inFlight.get? (keys i) = none) :
      Effect keys s (.claim i) (s.put (beginBuild (keys i) s.cache).2 i
        (.building ⟨s.cache.builds.length⟩ s.cache.generation))
  | joined {i ticket} (ready : s.clients i = .ready)
      (flying : s.cache.inFlight.get? (keys i) = some ticket) :
      Effect keys s (.claim i) (s.put (beginBuild (keys i) s.cache).2 i (.waiting ticket))
  | ended {i ticket generation} (result) (building : s.clients i = .building ticket generation) :
      Effect keys s (.finish i result)
        (s.put (finishBuild (keys i) ticket generation result s.cache).2 i (.built ticket result))
  | heard {i ticket result} (waiting : s.clients i = .waiting ticket)
      (resolved : s.cache.result? ticket = some result) :
      Effect keys s (.listen i) (s.put s.cache i (.served ticket result))
  | cleared : Effect keys s .clear { s with cache := (Cache.clear s.cache).2 }

section Step

variable {keys : ι → Key} {s : State ι ε}

theorem effect_step (coherent : Coherent s.cache (s.held keys)) (move : Move ι ε) :
    Effect keys s move (step keys s move) := by
  cases move with
  | claim i =>
    simp only [step]
    split
    next ready =>
      cases marked : s.cache.inFlight.get? (keys i) with
      | none => simpa [beginBuild_of_none marked] using Effect.granted ready marked
      | some ticket => simpa [beginBuild_of_some marked] using Effect.joined ready marked
    next => exact .nothing rfl
  | finish i result =>
    simp only [step]
    split
    next ticket generation building =>
      have holds : s.held keys i = some ⟨ticket, keys i, generation⟩ := by
        simp [State.held, building, Client.held?]
      have accepted : finishBuild (keys i) ticket generation result s.cache =
          (.ok (), (finishBuild (keys i) ticket generation result s.cache).2) :=
        Prod.ext (finishBuild_of_none (coherent.pending holds)).1 rfl
      rw [accepted]
      exact .ended result building
    next => exact .nothing rfl
  | listen i =>
    simp only [step]
    split
    next ticket waiting =>
      split
      next result resolved => exact .heard waiting resolved
      next => exact .nothing rfl
    next => exact .nothing rfl
  | clear => exact .cleared

theorem held_put (cache : Cache ε) (i : ι) (client : Client ε) :
    (s.put cache i client).held keys = Function.update (s.held keys) i (client.held? (keys i)) := by
  funext j
  by_cases same : j = i
  · subst same
    simp [State.held, State.put]
  · simp [State.held, State.put, same]

theorem held_put_of_free {cache : Cache ε} {i : ι} {client : Client ε}
    (free : s.held keys i = none) (still : client.held? (keys i) = none) :
    (s.put cache i client).held keys = s.held keys := by
  rw [held_put, still, ← free, Function.update_eq_self]

end Step

section Invariant

variable {keys : ι → Key} {s t : State ι ε} {move : Move ι ε}

theorem Effect.coherent (effect : Effect keys s move t) (coherent : Coherent s.cache (s.held keys)) :
    Coherent t.cache (t.held keys) := by
  cases effect with
  | nothing => exact coherent
  | granted ready idle =>
    rw [held_put]
    exact coherent.claim (by simp [State.held, ready, Client.held?]) idle
  | joined ready flying =>
    rw [held_put_of_free (by simp [State.held, ready, Client.held?]) rfl]
    exact coherent.join flying
  | ended result building =>
    rw [held_put]
    exact coherent.finish (held_of_building building) result
  | heard waiting resolved =>
    rw [held_put_of_free (by simp [State.held, waiting, Client.held?]) rfl]
    exact coherent
  | cleared => exact coherent.clear

/-- Results are given out once and for all. -/
theorem Effect.result? (effect : Effect keys s move t)
    (coherent : Coherent s.cache (s.held keys)) {ticket : Ticket} {result : Except ε String}
    (resolved : s.cache.result? ticket = some result) : t.cache.result? ticket = some result := by
  cases effect with
  | nothing => exact resolved
  | granted ready idle =>
    rw [State.put, beginBuild_of_none idle, result?_of_builds_append rfl]
    exact resolved
  | joined ready flying =>
    rw [State.put, beginBuild_of_some flying]
    exact resolved
  | ended own building =>
    have holds : s.held keys _ = some _ := held_of_building building
    rw [State.put, result?_finishBuild _ _ _ (coherent.pending holds) (coherent.known holds)]
    split
    next same =>
      rw [same, coherent.pending holds] at resolved
      contradiction
    next => exact resolved
  | heard => exact resolved
  | cleared => exact resolved

theorem Effect.generation (effect : Effect keys s move t) :
    t.cache.generation = s.cache.generation + if move.isClear then 1 else 0 := by
  cases effect with
  | nothing kept => simp [kept]
  | granted ready idle => simp [State.put, beginBuild_of_none idle, Move.isClear]
  | joined ready flying => simp [State.put, beginBuild_of_some flying, Move.isClear, count]
  | ended => simp [State.put, Move.isClear]
  | heard => simp [State.put, Move.isClear]
  | cleared => rfl

/-- How a single client gets on from one state to the next. -/
inductive Turn (keys : ι → Key) (s t : State ι ε) (i : ι) : Client ε → Client ε → Prop where
  | stay (client) : Turn keys s t i client client
  | own (ticket) : Turn keys s t i .ready (.building ticket s.cache.generation)
  | join {ticket} (flying : s.cache.inFlight.get? (keys i) = some ticket) :
      Turn keys s t i .ready (.waiting ticket)
  | finish {ticket result} (generation) (resolved : t.cache.result? ticket = some result) :
      Turn keys s t i (.building ticket generation) (.built ticket result)
  | hear {ticket result} (resolved : t.cache.result? ticket = some result) :
      Turn keys s t i (.waiting ticket) (.served ticket result)

theorem Effect.turn (effect : Effect keys s move t) (coherent : Coherent s.cache (s.held keys))
    (i : ι) : Turn keys s t i (s.clients i) (t.clients i) := by
  have moved : ∀ {cache : Cache ε} {j : ι} {client : Client ε},
      (i = j → Turn keys s (s.put cache j client) i (s.clients j) client) →
      Turn keys s (s.put cache j client) i (s.clients i) ((s.put cache j client).clients i) := by
    intro cache j client turn
    by_cases same : i = j
    · subst same
      simpa [State.put] using turn rfl
    · simpa [State.put, same] using Turn.stay (s.clients i)
  cases effect with
  | nothing => exact .stay _
  | granted ready idle => exact moved fun _ => ready ▸ .own _
  | joined ready flying =>
    exact moved fun same => by
      subst same
      exact ready ▸ .join flying
  | @ended j ticket generation result building =>
    have holds : s.held keys _ = some _ := held_of_building building
    have resolved := result?_finishBuild (keys j) generation result (coherent.pending holds)
      (coherent.known holds)
    exact moved fun _ => building ▸ .finish _ ((resolved _).trans (if_pos rfl))
  | heard waiting resolved => exact moved fun _ => waiting ▸ .hear resolved
  | cleared => exact .stay _

/-- Nobody ever gives a build away. -/
theorem Effect.owns (effect : Effect keys s move t) (coherent : Coherent s.cache (s.held keys))
    {i : ι} {ticket : Ticket} (owns : s.Owns i ticket) : t.Owns i ticket := by
  have turn := effect.turn coherent i
  obtain ⟨generation, building⟩ | ⟨result, built⟩ := owns
  · rw [building] at turn
    generalize after : t.clients i = client at turn
    cases turn with
    | stay => exact .inl ⟨generation, after⟩
    | finish => exact .inr ⟨_, after⟩
  · rw [built] at turn
    generalize after : t.clients i = client at turn
    cases turn with
    | stay => exact .inr ⟨result, after⟩

/-- A new result is the work of a client that has just ended its build. -/
theorem Effect.resolved (effect : Effect keys s move t)
    (coherent : Coherent s.cache (s.held keys)) {ticket : Ticket} {result : Except ε String}
    (resolved : t.cache.result? ticket = some result) :
    s.cache.result? ticket = some result ∨ ∃ i, t.clients i = .built ticket result := by
  cases effect with
  | nothing => exact .inl resolved
  | granted ready idle =>
    rw [State.put, beginBuild_of_none idle, result?_of_builds_append rfl] at resolved
    exact .inl resolved
  | joined ready flying =>
    rw [State.put, beginBuild_of_some flying] at resolved
    exact .inl resolved
  | @ended i other generation own building =>
    have holds : s.held keys _ = some _ := held_of_building building
    rw [State.put, result?_finishBuild _ _ _ (coherent.pending holds) (coherent.known holds)]
      at resolved
    split at resolved
    next same =>
      cases resolved
      exact .inr ⟨i, by simp [State.put, same]⟩
    next => exact .inl resolved
  | heard => exact .inl resolved
  | cleared => exact .inl resolved

section Turns

omit [DecidableEq ι]

variable {i : ι} {client : Client ε} {ticket : Ticket} {result : Except ε String}

theorem Turn.of_built (turn : Turn keys s t i client (.built ticket result)) :
    client = .built ticket result ∨
      (∃ generation, client = .building ticket generation) ∧
        t.cache.result? ticket = some result := by
  cases turn with
  | stay => exact .inl rfl
  | finish generation resolved => exact .inr ⟨⟨generation, rfl⟩, resolved⟩

theorem Turn.of_served (turn : Turn keys s t i client (.served ticket result)) :
    client = .served ticket result ∨
      client = .waiting ticket ∧ t.cache.result? ticket = some result := by
  cases turn with
  | stay => exact .inl rfl
  | hear resolved => exact .inr ⟨rfl, resolved⟩

theorem Turn.of_waiting (turn : Turn keys s t i client (.waiting ticket)) :
    client = .waiting ticket ∨ s.cache.inFlight.get? (keys i) = some ticket := by
  cases turn with
  | stay => exact .inl rfl
  | join flying => exact .inr flying

theorem Turn.of_refused (turn : Turn keys s t i client (.refused ticket)) :
    client = .refused ticket := by
  cases turn with
  | stay => rfl

end Turns

/-- A build that a client joins has an owner. -/
theorem Effect.owner_of_joined (effect : Effect keys s move t) (sound : Sound keys s) {i : ι}
    {ticket : Ticket}
    (stands : t.clients i = .waiting ticket ∨ ∃ result, t.clients i = .served ticket result) :
    ∃ j, keys j = keys i ∧ s.Owns j ticket := by
  have turn := effect.turn sound.coherent i
  have before : (s.clients i = .waiting ticket ∨ ∃ result, s.clients i = .served ticket result) ∨
      s.cache.inFlight.get? (keys i) = some ticket := by
    rcases stands with stands | ⟨result, stands⟩
    · rw [stands] at turn
      exact turn.of_waiting.imp .inl id
    · rw [stands] at turn
      rcases turn.of_served with served | ⟨waiting, -⟩
      · exact .inl (.inr ⟨result, served⟩)
      · exact .inl (.inl waiting)
  rcases before with joined | flying
  · exact sound.joined joined
  · obtain ⟨j, holds⟩ := sound.coherent.owned flying
    obtain ⟨building, same⟩ := building_of_held holds
    exact ⟨j, same, .inl ⟨_, building⟩⟩

theorem Effect.sound (effect : Effect keys s move t) (sound : Sound keys s) : Sound keys t := by
  have coherent := sound.coherent
  have turns : ∀ {i client}, t.clients i = client → Turn keys s t i (s.clients i) client :=
    fun stands => stands ▸ effect.turn coherent _
  -- A client that has ended its build owned it before the move.
  have owned : ∀ {i ticket result}, t.clients i = .built ticket result → s.Owns i ticket := by
    intro i ticket result stands
    rcases (turns stands).of_built with before | ⟨⟨generation, before⟩, -⟩
    · exact .inr ⟨result, before⟩
    · exact .inl ⟨generation, before⟩
  constructor
  · exact effect.coherent coherent
  · intro i ticket stands
    exact sound.unrefused i ticket (turns stands).of_refused
  · intro i ticket result stands
    rcases (turns stands).of_built with before | ⟨-, resolved⟩
    · exact effect.result? coherent (sound.built before)
    · exact resolved
  · intro i ticket result stands
    rcases (turns stands).of_served with before | ⟨-, resolved⟩
    · exact effect.result? coherent (sound.served before)
    · exact resolved
  · intro ticket result resolved
    rcases effect.resolved coherent resolved with old | new
    · obtain ⟨i, built⟩ := sound.resolved old
      have turn := effect.turn coherent i
      rw [built] at turn
      generalize after : t.clients i = client at turn
      cases turn with
      | stay => exact ⟨i, after⟩
    · exact new
  · intro i j ticket result other first second
    exact sound.owner (owned first) (owned second)
  · intro i ticket stands
    obtain ⟨j, same, owns⟩ := effect.owner_of_joined sound stands
    exact ⟨j, same, effect.owns coherent owns⟩

end Invariant

section Run

variable {keys : ι → Key} {s : State ι ε} {moves : List (Move ι ε)}

theorem runFrom_append (keys : ι → Key) (s : State ι ε) (first second : List (Move ι ε)) :
    runFrom keys s (first ++ second) = runFrom keys (runFrom keys s first) second :=
  List.foldl_append

theorem runFrom_sound (sound : Sound keys s) (moves : List (Move ι ε)) :
    Sound keys (runFrom keys s moves) := by
  induction moves generalizing s with
  | nil => exact sound
  | cons move rest ih => exact ih ((effect_step sound.coherent move).sound sound)

theorem run_sound (keys : ι → Key) (moves : List (Move ι ε)) : Sound keys (run keys moves) :=
  runFrom_sound (initial_sound keys) moves

theorem runFrom_result? (sound : Sound keys s) {ticket : Ticket} {result : Except ε String}
    (resolved : s.cache.result? ticket = some result) (moves : List (Move ι ε)) :
    (runFrom keys s moves).cache.result? ticket = some result := by
  induction moves generalizing s with
  | nil => exact resolved
  | cons move rest ih =>
    have effect := effect_step sound.coherent move
    exact ih (effect.sound sound) (effect.result? sound.coherent resolved)

/-- Nobody goes back to before the claim. -/
theorem ready_of_runFrom (moves : List (Move ι ε)) (sound : Sound keys s) {i : ι}
    (ready : (runFrom keys s moves).clients i = .ready) : s.clients i = .ready := by
  induction moves generalizing s with
  | nil => exact ready
  | cons move rest ih =>
    have effect := effect_step sound.coherent move
    have turn := effect.turn sound.coherent i
    rw [ih (effect.sound sound) ready] at turn
    generalize before : s.clients i = client at turn ⊢
    cases turn with
    | stay => rfl

/-- A build that is held was held before, or its claim was still to come. -/
theorem building_of_runFrom (sound : Sound keys s) {i : ι} {ticket : Ticket} {generation : Int}
    (building : (runFrom keys s moves).clients i = .building ticket generation) :
    s.clients i = .ready ∨ s.clients i = .building ticket generation := by
  induction moves generalizing s with
  | nil => exact .inr building
  | cons move rest ih =>
    have effect := effect_step sound.coherent move
    have turn := effect.turn sound.coherent i
    obtain ready | same := ih (effect.sound sound) building
    · rw [ready] at turn
      generalize before : s.clients i = client at turn ⊢
      cases turn with
      | stay => exact .inl rfl
    · rw [same] at turn
      generalize before : s.clients i = client at turn ⊢
      cases turn with
      | stay => exact .inr rfl
      | own => exact .inl rfl

/-- Generations begin with clearings and with nothing else. -/
theorem generation_runFrom (sound : Sound keys s) (moves : List (Move ι ε)) :
    (runFrom keys s moves).cache.generation = s.cache.generation + moves.countP Move.isClear := by
  induction moves generalizing s with
  | nil => simp [runFrom]
  | cons move rest ih =>
    have effect := effect_step sound.coherent move
    have start : runFrom keys s (move :: rest) = runFrom keys (step keys s move) rest := rfl
    rw [start, ih (effect.sound sound), List.countP_cons, effect.generation]
    push_cast
    split <;> omega

end Run
end ModuleBundler.Cache.Protocol
