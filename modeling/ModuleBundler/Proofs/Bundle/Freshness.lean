import ModuleBundler.Proofs.Bundle.Ledger

/-! No stale bundle survives a clearing. A call that begins after a clearing has its
answer from a build whose every attempt to read came after that clearing too,
whether the answer comes from the cache, from a build of its own or from one that
it joined. And if every change of files is followed at once by a clearing, the
cache holds what fresh builds would come to, at all times. -/
namespace ModuleBundler.Bundle.Concurrency

open Source Cache

universe u

variable {ι : Type u}

section Since

/-- How things stand since a clearing: `first` was the next build, and the calls in `late` had not
begun. -/
structure Since (first : Nat) (late : ι → Prop) (s : State ι) (l : Ledger ι) : Prop where
  builds : first ≤ s.site.cache.builds.length
  flying : ∀ {key ticket}, s.site.cache.inFlight.get? key = some ticket → first ≤ ticket.number
  stored : ∀ {key ticket}, l.stored key = some ticket → first ≤ ticket.number
  claimed : ∀ {i ticket}, late i → (s.requests i).ticket? = some ticket → first ≤ ticket.number
  source : ∀ {i ticket}, late i → l.source i = some ticket → first ≤ ticket.number

variable [DecidableEq ι] {first : Nat} {late : ι → Prop} {l : Ledger ι} {s t : State ι}
  {move : Move ι}

theorem Since.note (since : Since first late s l) (recorded : Recorded s l)
    (effect : Effect s move t) : Since first late t (l.note s move) := by
  constructor
  · exact Nat.le_trans since.builds effect.builds_le
  · intro key ticket flying
    rcases effect.flying flying with old | new
    · exact since.flying old
    · rw [new]
      exact since.builds
  · intro key ticket noted
    obtain ⟨-, old | ⟨i, text, -, ending⟩⟩ := stored_note noted
    · exact since.stored old
    · -- A build of the current generation has its mark in flight until its end.
      exact since.flying (recorded.coherent.marked (held_of_ending ending) rfl)
  · intro i ticket recent bears
    rcases effect.ticket? bears with old | flying | new
    · exact since.claimed recent old
    · exact since.flying flying
    · rw [new]
      exact since.builds
  · intro i ticket recent noted
    rcases source_note noted with old | ⟨-, ⟨-, found⟩ | ⟨generation, result, ending⟩ | waiting⟩
    · exact since.source recent old
    · exact since.stored found
    · exact since.claimed recent (by simp only [Request.ticket?, ending])
    · exact since.claimed recent (by simp only [Request.ticket?, waiting])

theorem Since.continued (since : Since first late s l) (recorded : Recorded s l)
    (moves : List (Move ι)) : Since first late (runFrom s moves) (l.continued s moves) := by
  induction moves generalizing s l with
  | nil => exact since
  | cons move rest ih =>
    have effect := effect_step s move
    exact ih (since.note recorded effect) (recorded.note effect)

/-- From a clearing on, with calls that have not begun. -/
theorem Since.start (effect : Effect s move t)
    (clears : move.clears = true) (idle : ∀ i, late i → (s.requests i).ticket? = none)
    (unanswered : ∀ i, late i → l.source i = none) :
    Since s.site.cache.builds.length late t (l.note s move) := by
  have passive : ∀ i, move ≠ .advance i := by
    rintro i rfl
    cases clears
  constructor
  · exact effect.builds_le
  · intro key ticket flying
    cases effect with
    | advanced => cases clears
    | cleared => cases flying
    | changed | disturbed => cases clears
  · intro key ticket noted
    rw [(stored_note noted).1] at clears
    cases clears
  · intro i ticket recent bears
    rw [effect.requests_of_ne (passive i), idle i recent] at bears
    cases bears
  · intro i ticket recent noted
    rw [source_note_of_ne (passive i), unanswered i recent] at noted
    cases noted

end Since

section Current

/-- Calls are calls to one bundler, and each build follows the plan of its call. -/
structure Regular (b : Bundler) (s : State ι) : Prop where
  coherent : Coherent s.site.cache s.held
  bundler : ∀ i, (s.requests i).bundler = b
  planned : ∀ {i ticket generation plan build},
    (s.requests i).phase = .building ticket generation plan build →
    ∃ token, plan = (s.requests i).plan token

/-- Texts in the cache are what the files yield, and so will be those that are on their way there. -/
structure Current (b : Bundler) (s : State ι) : Prop where
  entries : ∀ {key text}, s.site.cache.entries.get? key = some text →
    (b.plan key).Yields s.site.host.disk text
  building : ∀ {i ticket plan build},
    (s.requests i).phase = .building ticket s.site.cache.generation plan build →
    build.OnCourse plan s.site.host.disk
  ending : ∀ {i ticket text},
    (s.requests i).phase = .ending ticket s.site.cache.generation (.ok text) →
    (b.plan (s.requests i).key).Yields s.site.host.disk text

theorem initial_regular (b : Bundler) (host : Host) (calls : ι → Call) :
    Regular b (initial b host calls) where
  coherent := initial_coherent b host calls
  bundler _ := rfl
  planned {i _ _ _ _} now := by
    simp only [initial, Call.request, Request.start] at now
    cases forced : (calls i).force <;> simp [forced] at now

theorem initial_current (b : Bundler) (host : Host) (calls : ι → Call) :
    Current b (initial b host calls) where
  entries present := by cases present
  building {i _ _ _} now := by
    simp only [initial, Call.request, Request.start] at now
    cases forced : (calls i).force <;> simp [forced] at now
  ending {i _ _} now := by
    simp only [initial, Call.request, Request.start] at now
    cases forced : (calls i).force <;> simp [forced] at now

/-- Every change of files is followed at once by a clearing. -/
inductive Guarded : List (Move ι) → Prop where
  | nil : Guarded []
  | other {move rest} : (∀ files, move ≠ .change files) → Guarded rest → Guarded (move :: rest)
  | change {files clearing rest} : clearing.clears = true → Guarded rest →
      Guarded (.change files :: clearing :: rest)

theorem Guarded.steps {rest : List (Move ι)} (i : ι) (n : Nat) (guarded : Guarded rest) :
    Guarded (List.replicate n (.advance i) ++ rest) := by
  induction n with
  | zero => exact guarded
  | succ n ih => exact .other (by simp) ih

variable [DecidableEq ι] {b : Bundler} {s t : State ι} {move : Move ι}

theorem Regular.moved (regular : Regular b s) (effect : Effect s move t) : Regular b t := by
  refine ⟨effect.coherent regular.coherent, fun i => ?_, fun {i _ _ _ _} now => ?_⟩ <;>
    by_cases mine : move = .advance i
  · subst mine
    rw [effect.turn.bundler]
    exact regular.bundler i
  · rw [effect.requests_of_ne mine]
    exact regular.bundler i
  · subst mine
    have turn := effect.turn
    rcases turn.building now with ⟨token, rfl, -⟩ | ⟨before, phase, -⟩
    · exact ⟨token, (turn.plan token).symm⟩
    · obtain ⟨token, rfl⟩ := regular.planned phase
      exact ⟨token, (turn.plan token).symm⟩
  · rw [effect.requests_of_ne mine] at now ⊢
    exact regular.planned now

theorem Regular.current_of_cleared (regular : Regular b s) (effect : Effect s move t)
    (clears : move.clears = true) : Current b t := by
  cases effect with
  | advanced | changed | disturbed => cases clears
  | cleared =>
    have older : ∀ {i h}, s.held i = some h → h.generation ≠ s.site.cache.generation + 1 :=
      fun holds => Int.ne_of_lt (Int.lt_add_one_of_le (regular.coherent.begun holds))
    constructor
    · intro key text present
      cases present
    · intro i ticket plan build building
      exact absurd rfl (older (held_of_building building))
    · intro i ticket text ending
      exact absurd rfl (older (held_of_ending ending))

section Turns

omit [DecidableEq ι]

variable {i : ι} {r : Request} {site : Site} {ticket : Ticket} {text : String}

theorem Current.entries_of_turn (current : Current b s) (turn : (s.requests i).Turn s.site r site)
    {key : Key} (present : site.cache.entries.get? key = some text) :
    (b.plan key).Yields s.site.host.disk text := by
  rcases turn.entries with ⟨ticket, new, ending, -, entries⟩ | ⟨-, entries⟩
  · rw [entries, Table.get?_insert] at present
    split at present
    next same =>
      cases present
      exact same ▸ current.ending ending
    next => exact current.entries present
  · rw [entries] at present
    exact current.entries present

theorem Current.building_of_turn (current : Current b s) (turn : (s.requests i).Turn s.site r site)
    {plan : Plan} {build : Build}
    (now : r.phase = .building ticket s.site.cache.generation plan build) :
    build.OnCourse plan s.site.host.disk := by
  rcases turn.building now with ⟨token, rfl, rfl⟩ | ⟨before, phase, going⟩
  · exact start_onCourse _ _
  · have reached := advance_onCourse s.site.host (current.building phase)
    rw [going] at reached
    exact reached

theorem Current.ending_of_turn (current : Current b s) (regular : Regular b s)
    (turn : (s.requests i).Turn s.site r site)
    (now : r.phase = .ending ticket s.site.cache.generation (.ok text)) :
    (b.plan r.key).Yields s.site.host.disk text := by
  obtain ⟨plan, build, phase, built⟩ := turn.ending now
  have reached := advance_onCourse s.site.host (current.building phase)
  rw [built] at reached
  obtain ⟨token, rfl⟩ := regular.planned phase
  rw [turn.key]
  exact Request.yields_of_plan (regular.bundler i) reached

end Turns

theorem Current.moved (current : Current b s) (regular : Regular b s) (effect : Effect s move t)
    (still : t.site.host.disk = s.site.host.disk) : Current b t := by
  cases effect with
  | @advanced i r site turn =>
    have moved : (s.put i r site).requests i = r := Function.update_self _ _ _
    have others : ∀ {j}, j ≠ i → (s.put i r site).requests j = s.requests j := fun ne =>
      Function.update_of_ne ne _ _
    have generation : (s.put i r site).site.cache.generation = s.site.cache.generation :=
      turn.generation
    constructor
    · intro key text present
      rw [still]
      exact current.entries_of_turn turn present
    · intro j ticket plan build now
      rw [still]
      rw [generation] at now
      by_cases mine : j = i
      · subst mine
        rw [moved] at now
        exact current.building_of_turn turn now
      · rw [others mine] at now
        exact current.building now
    · intro j ticket text now
      rw [still]
      rw [generation] at now
      by_cases mine : j = i
      · subst mine
        rw [moved] at now ⊢
        exact current.ending_of_turn regular turn now
      · rw [others mine] at now ⊢
        exact current.ending now
  | cleared clears follows => exact regular.current_of_cleared (.cleared clears follows) clears
  | changed | disturbed =>
    exact ⟨fun present => still ▸ current.entries present,
      fun now => still ▸ current.building now, fun now => still ▸ current.ending now⟩

theorem Current.guarded {moves : List (Move ι)} (current : Current b s) (regular : Regular b s)
    (guarded : Guarded moves) : Current b (runFrom s moves) := by
  induction guarded generalizing s with
  | nil => exact current
  | @other move rest other _ ih =>
    have effect := effect_step s move
    exact ih (current.moved regular effect (effect.disk_of_ne other)) (regular.moved effect)
  | @change files clearing rest clears _ ih =>
    have changed := regular.moved (effect_step s (.change files))
    have effect := effect_step (step s (.change files)) clearing
    exact ih (changed.current_of_cleared effect clears) (changed.moved effect)

end Current

variable [DecidableEq ι]

/-- The next step of a call is an attempt to read for a build. -/
def State.Reads (s : State ι) (i : ι) (ticket : Ticket) (path : String) : Prop :=
  ∃ generation plan build, (s.requests i).phase = .building ticket generation plan build ∧
    build.pending? = some path

/-- A build that is claimed after a clearing reads after it. -/
theorem length_lt_of_reads {b : Bundler} {host : Host} {calls : ι → Call}
    {before after sooner later : List (Move ι)} {clearing : Move ι} {j : ι} {ticket : Ticket}
    {path : String} (clears : clearing.clears = true)
    (order : before ++ clearing :: after = sooner ++ .advance j :: later)
    (reads : (run b host calls sooner).Reads j ticket path)
    (recent : (run b host calls before).site.cache.builds.length ≤ ticket.number) :
    before.length < sooner.length := by
  obtain ⟨generation, plan, build, building, -⟩ := reads
  have known := (run_coherent b host calls sooner).known (held_of_building building)
  rcases List.append_eq_append_iff.mp order with ⟨between, rfl, rest⟩ | ⟨between, rfl, -⟩
  · cases between with
    | nil =>
      cases rest
      cases clears
    | cons move between => simp
  · have grown := builds_le_runFrom (run b host calls sooner) between
    rw [run, runFrom_append] at recent
    exact absurd (Nat.lt_of_lt_of_le known (Nat.le_trans grown recent)) (Nat.lt_irrefl _)

/-- Over every run of calls to one bundler, whatever happens to its surroundings. -/
theorem no_stale_bundle (b : Bundler) (host : Host) (calls : ι → Call) :
    -- The answer of a call that begins after a clearing comes from a build all of whose attempts to
    -- read are made after it.
    (∀ (before after : List (Move ι)) (clearing : Move ι) (i : ι) (text : String),
      clearing.clears = true → .advance i ∉ before →
      ((run b host calls (before ++ clearing :: after)).requests i).result? = some (.ok text) →
      ∃ ticket,
        (Ledger.ofRun b host calls (before ++ clearing :: after)).source i = some ticket ∧
        (run b host calls (before ++ clearing :: after)).site.cache.result? ticket =
          some (.ok text) ∧
        ∀ (sooner later : List (Move ι)) (j : ι) (path : String),
          before ++ clearing :: after = sooner ++ .advance j :: later →
          (run b host calls sooner).Reads j ticket path → before.length < sooner.length) ∧
    -- With a clearing after every change, a text in the cache is the one of a fresh build.
    (∀ (moves : List (Move ι)) (key : Key) (text : String), Guarded moves →
      (run b host calls moves).site.cache.entries.get? key = some text →
      b.Builds key (run b host calls moves).site.host.disk (.ok text)) := by
  constructor
  · intro before after clearing i text clears idle answered
    have recorded := (initial_recorded b host calls).continued before
    have effect := effect_step (run b host calls before) clearing
    have still : ∀ j, .advance j ∉ before →
        ((run b host calls before).requests j).ticket? = none ∧
          (Ledger.ofRun b host calls before).source j = none := by
      intro j idle
      have same := untouched (s := initial b host calls) (l := .empty) idle
      refine ⟨?_, same.2⟩
      rw [run, same.1]
      exact ticket?_initial b host calls j
    have cut := Since.start effect clears (fun j idle => (still j idle).1)
      fun j idle => (still j idle).2
    have since := cut.continued (recorded.note effect) after
    have final := (recorded.note effect).continued after
    have state : run b host calls (before ++ clearing :: after) =
        runFrom (step (run b host calls before) clearing) after := runFrom_append _ _ _
    have ledger : Ledger.ofRun b host calls (before ++ clearing :: after) =
        ((Ledger.ofRun b host calls before).note (run b host calls before) clearing).continued
          (step (run b host calls before) clearing) after := continued_append _ _ _ _
    rw [state] at answered
    rw [state, ledger]
    obtain ⟨ticket, source, resolved⟩ := final.answered answered
    refine ⟨ticket, source, resolved, fun sooner later j path order reads => ?_⟩
    have recent := since.source idle source
    exact length_lt_of_reads clears order reads recent
  · intro moves key text guarded present
    have regular := initial_regular b host calls
    have current := (initial_current b host calls).guarded regular guarded
    exact Bundler.builds_iff_yields.mpr (current.entries present)

/-- A file is bundled, changes, and is bundled anew. -/
theorem no_stale_bundle_rewritten :
    let b : Bundler := ⟨{ Settings.default with minify := false }⟩
    let file (content : String) : Disk := Disk.empty.put "/p/m.js" (.file content.toUTF8)
    let text := "\n// File: m.js\nnew\n"
    let host := Host.ofDisk (file "old")
    let calls : Bool → Call := fun _ => ⟨⟨"/p", "m.js"⟩, false, none⟩
    let before : List (Move Bool) := List.replicate 9 (.advance false) ++ [.change (file "new")]
    let after : List (Move Bool) := List.replicate 9 (.advance true)
    let moves := before ++ .sourceChanged "/p/m.js" :: after
    let reached := run b host calls moves
    (reached.requests true).result? = some (.ok text) ∧
    (∃ ticket, reached.site.cache.result? ticket = some (.ok text) ∧
      ∀ sooner later j path, moves = sooner ++ .advance j :: later →
        (run b host calls sooner).Reads j ticket path → before.length < sooner.length) ∧
    Guarded moves ∧
    reached.site.cache.entries.get? ⟨"/p", "m.js"⟩ = some text ∧
    b.Builds ⟨"/p", "m.js"⟩ reached.site.host.disk (.ok text) := by
  intro b file text host calls before after moves reached
  obtain ⟨sources, fresh⟩ := no_stale_bundle b host calls
  have answered : (reached.requests true).result?.bind Except.toOption = some text := by decide +kernel
  have good := Request.result?_of_toOption answered
  have present : reached.site.cache.entries.get? ⟨"/p", "m.js"⟩ = some text := by decide +kernel
  have guarded : Guarded moves := by
    have last : Guarded after := by
      have steps := Guarded.steps true 9 .nil
      rwa [List.append_nil] at steps
    have middle : Guarded (.change (file "new") :: .sourceChanged "/p/m.js" :: after) :=
      .change rfl last
    have whole := middle.steps false 9
    rwa [List.append_cons] at whole
  have idle : .advance true ∉ before := by simp [before]
  have run_eq : run b host calls moves = reached := rfl
  have source := sources before after (.sourceChanged "/p/m.js") true text rfl idle
  rw [show before ++ .sourceChanged "/p/m.js" :: after = moves from rfl, run_eq] at source
  have built := fresh moves ⟨"/p", "m.js"⟩ text guarded
  rw [run_eq] at built
  obtain ⟨ticket, -, resolved, reads⟩ := source good
  exact ⟨good, ⟨ticket, resolved, reads⟩, guarded, present, built present⟩

end ModuleBundler.Bundle.Concurrency
