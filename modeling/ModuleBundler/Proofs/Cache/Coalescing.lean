import ModuleBundler.Proofs.Cache.Protocol

/-! What the protocol promises over every run: builds of one key overlap only
across a clearing, whoever joins a build joins a current one and is served with
its result, each build ends once, and one that a clearing has detached leaves no
trace in the entries or in flight. -/
namespace ModuleBundler.Cache.Protocol

universe u

variable {ι : Type u} {ε : Type}

def State.Unfinished (s : State ι ε) (i : ι) : Prop :=
  ∃ ticket generation, s.clients i = .building ticket generation

variable {keys : ι → Key} {s : State ι ε} {i j : ι}

/-- Every build that was ever handed out has one owner, and its result is what the owner ended it
with. -/
theorem owner_of_ticket (sound : Sound keys s) {ticket : Ticket}
    (known : ticket.number < s.cache.builds.length) :
    ∃ i, s.Owns i ticket ∧ (∀ j, s.Owns j ticket → j = i) ∧
      ∀ result, s.cache.result? ticket = some result ↔ s.clients i = .built ticket result := by
  cases outcome : s.cache.result? ticket with
  | none =>
    obtain ⟨i, h, holds, rfl⟩ := sound.coherent.kept known outcome
    have building := (building_of_held holds).1
    have owns : s.Owns i h.ticket := .inl ⟨_, building⟩
    refine ⟨i, owns, fun j other => sound.owner other owns, fun result => ?_⟩
    simp [building]
  | some found =>
    obtain ⟨i, built⟩ := sound.resolved outcome
    have owns : s.Owns i ticket := .inr ⟨_, built⟩
    refine ⟨i, owns, fun j other => sound.owner other owns, fun result => ?_⟩
    simp [built]

theorem served_by_owner (sound : Sound keys s) {ticket : Ticket} {result : Except ε String}
    (served : s.clients i = .served ticket result) :
    ∃ j, keys j = keys i ∧ s.clients j = .built ticket result := by
  obtain ⟨j, same, owns⟩ := sound.joined (.inr ⟨result, served⟩)
  obtain ⟨k, built⟩ := sound.resolved (sound.served served)
  have equal := sound.owner owns (.inr ⟨result, built⟩)
  exact ⟨j, same, equal ▸ built⟩

theorem inFlight_empty (sound : Sound keys s) (finished : ∀ i, ¬ s.Unfinished i) :
    s.cache.inFlight = ∅ := by
  apply Table.eq_empty_of_get?
  intro key
  cases flying : s.cache.inFlight.get? key with
  | none => rfl
  | some ticket =>
    obtain ⟨i, holds⟩ := sound.coherent.owned flying
    exact absurd ⟨_, _, (building_of_held holds).1⟩ (finished i)

variable [DecidableEq ι]

/-- A claim that has led to a build still held was made in the generation of that build. -/
theorem generation_of_unfinished (sound : Sound keys s) (ready : s.clients i = .ready)
    {after : List (Move ι ε)} {ticket : Ticket} {generation : Int}
    (building : (runFrom keys s (.claim i :: after)).clients i = .building ticket generation) :
    generation = s.cache.generation ∧
      (step keys s (.claim i)).clients i = .building ticket generation := by
  have effect := effect_step sound.coherent (.claim i)
  have turn := effect.turn sound.coherent i
  have later := building_of_runFrom (effect.sound sound) building
  rw [ready] at turn
  have gone : (step keys s (.claim i)).clients i ≠ .ready := by
    simp only [step, ready, State.put]
    split
    simp only [Function.update_self]
    split <;> simp
  rcases later with still | held
  · exact absurd still gone
  · rw [held] at turn
    cases turn with
    | own => exact ⟨rfl, held⟩

theorem runFrom_claim (keys : ι → Key) (before after : List (Move ι ε)) (i : ι) :
    run keys (before ++ .claim i :: after) = runFrom keys (run keys before) (.claim i :: after) :=
  runFrom_append _ _ _ _

theorem clear_of_overlap {before between after : List (Move ι ε)} (same : keys i = keys j)
    (first : (run keys before).clients i = .ready)
    (second : (run keys (before ++ .claim i :: between)).clients j = .ready)
    (ownsFirst : (run keys (before ++ .claim i :: (between ++ .claim j :: after))).Unfinished i)
    (ownsSecond : (run keys (before ++ .claim i :: (between ++ .claim j :: after))).Unfinished j) :
    .clear ∈ between := by
  by_contra calm
  obtain ⟨ticket, generation, building⟩ := ownsFirst
  obtain ⟨ticket', generation', building'⟩ := ownsSecond
  have final := run_sound keys (before ++ .claim i :: (between ++ .claim j :: after))
  have held := final.coherent.apart (held_of_building building) (held_of_building building') same
  rw [runFrom_claim] at building second
  have start := run_sound keys before
  obtain ⟨begun, claimed⟩ := generation_of_unfinished start first building
  have middle := runFrom_sound start (.claim i :: between)
  have split : before ++ .claim i :: (between ++ .claim j :: after) =
      (before ++ .claim i :: between) ++ .claim j :: after := by simp
  rw [split, runFrom_claim, runFrom_claim] at building'
  obtain ⟨begun', -⟩ := generation_of_unfinished middle second building'
  have unchanged := generation_runFrom start (.claim i :: between)
  have none : (Move.claim i :: between).countP Move.isClear = 0 := by
    rw [List.countP_eq_zero]
    intro move member
    cases move with
    | clear =>
      rcases List.mem_cons.mp member with claim | inside
      · cases claim
      · exact absurd inside calm
    | claim | finish | listen => simp [Move.isClear]
  rw [none] at unchanged
  have equal : i = j := held (by simp only; omega)
  subst equal
  -- The second claim would have found the client past its first one.
  have sooner := ready_of_runFrom between
    ((effect_step start.coherent (.claim i)).sound start) second
  rw [claimed] at sooner
  contradiction

theorem inFlight_current (keys : ι → Key) (moves : List (Move ι ε)) {key : Key} {ticket : Ticket}
    (flying : (run keys moves).cache.inFlight.get? key = some ticket) :
    (run keys moves).cache.result? ticket = none ∧ ∃ i, keys i = key ∧
      (run keys moves).clients i = .building ticket (run keys moves).cache.generation := by
  have coherent := (run_sound keys moves).coherent
  obtain ⟨i, holds⟩ := coherent.owned flying
  obtain ⟨building, same⟩ := building_of_held holds
  exact ⟨coherent.pending holds, i, same, building⟩

theorem listen_served (sound : Sound keys s) {ticket : Ticket} {result : Except ε String}
    (waiting : s.clients i = .waiting ticket) (built : s.clients j = .built ticket result) :
    (step keys s (.listen i)).clients i = .served ticket result := by
  simp only [step, waiting, sound.built built, State.put, Function.update_self]

/-- A build that is older than the generation has lost its mark. -/
theorem finish_detached (sound : Sound keys s) {ticket : Ticket} {generation : Int}
    (building : s.clients i = .building ticket generation)
    (stale : generation ≠ s.cache.generation) (result : Except ε String) :
    (step keys s (.finish i result)).cache.entries = s.cache.entries ∧
      (step keys s (.finish i result)).cache.inFlight = s.cache.inFlight := by
  have holds : s.held keys i = some _ := held_of_building building
  have lost : s.cache.inFlight.get? (keys i) ≠ some ticket := by
    intro flying
    obtain ⟨j, other⟩ := sound.coherent.owned flying
    have same := sound.coherent.sole holds other rfl
    subst same
    rw [holds] at other
    cases other
    exact stale rfl
  have accepted : finishBuild (keys i) ticket generation result s.cache =
      (.ok (), (finishBuild (keys i) ticket generation result s.cache).2) :=
    Prod.ext (finishBuild_of_none (sound.coherent.pending holds)).1 rfl
  have next : (step keys s (.finish i result)).cache =
      (finishBuild (keys i) ticket generation result s.cache).2 := by
    simp only [step, building]
    rw [accepted]
    rfl
  rw [next, entries_finishBuild, inFlight_finishBuild, release_of_ne lost]
  exact ⟨entries_settled_of_ne stale, rfl⟩

theorem stale_of_clear {before between : List (Move ι ε)}
    (ready : (run keys before).clients i = .ready) (clear : .clear ∈ between) {ticket : Ticket}
    {generation : Int}
    (building : (run keys (before ++ .claim i :: between)).clients i = .building ticket generation) :
    generation ≠ (run keys (before ++ .claim i :: between)).cache.generation := by
  have start := run_sound keys before
  rw [runFrom_claim] at building ⊢
  obtain ⟨begun, -⟩ := generation_of_unfinished start ready building
  have risen := generation_runFrom start (.claim i :: between)
  have some_ : 0 < (Move.claim i :: between).countP Move.isClear :=
    List.countP_pos_iff.mpr ⟨.clear, by simp [clear], rfl⟩
  omega

/-- Over every run of any number of clients. -/
theorem coalesces (keys : ι → Key) :
    -- Two builds of one key are unfinished together only across a clearing between their claims.
    (∀ (before between after : List (Move ι ε)) (i j : ι), keys i = keys j →
      (run keys before).clients i = .ready →
      (run keys (before ++ .claim i :: between)).clients j = .ready →
      (run keys (before ++ .claim i :: (between ++ .claim j :: after))).Unfinished i →
      (run keys (before ++ .claim i :: (between ++ .claim j :: after))).Unfinished j →
      .clear ∈ between) ∧
    -- A build in flight has no result and an owner of the current generation.
    (∀ (moves : List (Move ι ε)) (key : Key) (ticket : Ticket),
      (run keys moves).cache.inFlight.get? key = some ticket →
      (run keys moves).cache.result? ticket = none ∧ ∃ i, keys i = key ∧
        (run keys moves).clients i = .building ticket (run keys moves).cache.generation) ∧
    -- Nobody is refused the end of a build. Each build has one owner, who alone gives it a result;
    -- the result stays, and all who have joined are served with it.
    (∀ (moves : List (Move ι ε)) (i : ι) (ticket : Ticket),
      (run keys moves).clients i ≠ .refused ticket) ∧
    (∀ (moves : List (Move ι ε)) (ticket : Ticket),
      ticket.number < (run keys moves).cache.builds.length →
      ∃ i, (run keys moves).Owns i ticket ∧ (∀ j, (run keys moves).Owns j ticket → j = i) ∧
        ∀ result, (run keys moves).cache.result? ticket = some result ↔
          (run keys moves).clients i = .built ticket result) ∧
    (∀ (moves more : List (Move ι ε)) (ticket : Ticket) (result : Except ε String),
      (run keys moves).cache.result? ticket = some result →
      (run keys (moves ++ more)).cache.result? ticket = some result) ∧
    (∀ (moves : List (Move ι ε)) (i : ι) (ticket : Ticket) (result : Except ε String),
      (run keys moves).clients i = .served ticket result →
      ∃ j, keys j = keys i ∧ (run keys moves).clients j = .built ticket result) ∧
    (∀ (moves : List (Move ι ε)) (i : ι) (ticket : Ticket),
      (run keys moves).clients i = .waiting ticket →
      ∃ j, keys j = keys i ∧ (run keys moves).Owns j ticket ∧
        ∀ result, (run keys moves).clients j = .built ticket result →
          (run keys (moves ++ [.listen i])).clients i = .served ticket result) ∧
    -- The end of a build that was detached changes no entry and no mark.
    (∀ (before between : List (Move ι ε)) (i : ι) (result : Except ε String),
      (run keys before).clients i = .ready → .clear ∈ between →
      (run keys (before ++ .claim i :: between)).Unfinished i →
      (run keys (before ++ .claim i :: between ++ [.finish i result])).cache.entries =
          (run keys (before ++ .claim i :: between)).cache.entries ∧
        (run keys (before ++ .claim i :: between ++ [.finish i result])).cache.inFlight =
          (run keys (before ++ .claim i :: between)).cache.inFlight) ∧
    -- Once every owner is done, nothing is in flight.
    (∀ moves : List (Move ι ε), (∀ i, ¬ (run keys moves).Unfinished i) →
      (run keys moves).cache.inFlight = ∅) := by
  have snoc : ∀ (moves : List (Move ι ε)) (move : Move ι ε),
      run keys (moves ++ [move]) = step keys (run keys moves) move := fun moves move =>
    runFrom_append keys initial moves [move]
  refine ⟨?_, ?_, ?_, ?_, ?_, ?_, ?_, ?_, ?_⟩
  · intro before between after i j same first second ownsFirst ownsSecond
    exact clear_of_overlap same first second ownsFirst ownsSecond
  · intro moves key ticket flying
    exact inFlight_current keys moves flying
  · intro moves
    exact (run_sound keys moves).unrefused
  · intro moves ticket known
    exact owner_of_ticket (run_sound keys moves) known
  · intro moves more ticket result resolved
    rw [run, runFrom_append]
    exact runFrom_result? (run_sound keys moves) resolved more
  · intro moves i ticket result served
    exact served_by_owner (run_sound keys moves) served
  · intro moves i ticket waiting
    have sound := run_sound keys moves
    obtain ⟨j, same, owns⟩ := sound.joined (.inl waiting)
    refine ⟨j, same, owns, fun result built => ?_⟩
    rw [snoc]
    exact listen_served sound waiting built
  · intro before between i result ready clear unfinished
    obtain ⟨ticket, generation, building⟩ := unfinished
    have stale := stale_of_clear ready clear building
    rw [snoc]
    exact finish_detached (run_sound keys _) building stale result
  · intro moves finished
    exact inFlight_empty (run_sound keys moves) finished

/-- Two clients of one key, apart across a clearing and together without one. -/
theorem coalesces_two_clients :
    let keys : Bool → Key := fun _ => ⟨"/proj", "main.js"⟩
    let apart : State Bool String := run keys [.claim false, .clear, .claim true]
    let joined : State Bool String := run keys [.claim false, .claim true]
    let whole : List (Move Bool String) :=
      [.claim false, .claim true, .finish false (.ok "text"), .listen true]
    let reached := run keys whole
    (apart.Unfinished false ∧ apart.Unfinished true ∧
      .clear ∈ ([.clear] : List (Move Bool String))) ∧
    (joined.cache.inFlight.get? ⟨"/proj", "main.js"⟩ = some ⟨0⟩ ∧
      joined.cache.result? ⟨0⟩ = none) ∧
    (reached.cache.builds.length = 1 ∧ ∃ i, reached.Owns i ⟨0⟩ ∧ ∀ j, reached.Owns j ⟨0⟩ → j = i) ∧
    (reached.cache.result? ⟨0⟩ = some (.ok "text") ∧
      (run keys (whole ++ [.clear])).cache.result? ⟨0⟩ = some (.ok "text")) ∧
    (reached.clients true = .served ⟨0⟩ (.ok "text") ∧
      ∃ j, reached.clients j = .built ⟨0⟩ (.ok "text")) ∧
    (joined.clients true = .waiting ⟨0⟩ ∧ ∃ j, joined.Owns j ⟨0⟩) ∧
    ((run keys ([.claim false, .clear] ++ [.finish false (.ok "late")] :
      List (Move Bool String))).cache.entries = ∅) ∧
    ((∀ i, ¬ reached.Unfinished i) ∧ reached.cache.inFlight = ∅) := by
  intro keys apart joined whole reached
  obtain ⟨overlap, current, -, owner, stays, served, waits, detached, empty⟩ :=
    coalesces (ε := String) keys
  have first : apart.Unfinished false := ⟨⟨0⟩, 0, rfl⟩
  have second : apart.Unfinished true := ⟨⟨1⟩, 1, rfl⟩
  have finished : ∀ i, ¬ reached.Unfinished i := by
    rintro (_ | _) ⟨ticket, generation, building⟩ <;> cases building
  refine ⟨⟨first, second, overlap [] [.clear] [] false true rfl rfl rfl first second⟩, ?_, ?_, ?_, ?_,
    ?_, ?_, finished, empty _ finished⟩
  · exact ⟨rfl, (current [.claim false, .claim true] ⟨"/proj", "main.js"⟩ ⟨0⟩ rfl).1⟩
  · obtain ⟨i, owns, sole, -⟩ := owner whole ⟨0⟩ (by decide)
    exact ⟨rfl, i, owns, sole⟩
  · exact ⟨rfl, stays _ [.clear] _ _ rfl⟩
  · obtain ⟨j, -, built⟩ := served whole true ⟨0⟩ (.ok "text") rfl
    exact ⟨rfl, j, built⟩
  · obtain ⟨j, -, owns, -⟩ := waits [.claim false, .claim true] true ⟨0⟩ rfl
    exact ⟨rfl, j, owns⟩
  · exact (detached [] [.clear] false (.ok "late") rfl (List.mem_singleton.mpr rfl)
      ⟨⟨0⟩, 0, rfl⟩).1

end ModuleBundler.Cache.Protocol
