import Mathlib.Data.List.Induction
import ModuleBundler.Proofs.Source.Attempt
import ModuleBundler.Proofs.Watch.Dispatch

/-! Whole runs of a watcher. Listeners come and go, changes are reported one by one or
by events, and time passes. What is registered, who hears of what, and the time that is
known of a path are told from the inputs of the run alone. Listeners may do as they
please, and fail as often as they like. -/
namespace ModuleBundler.Watch

open Source

/-- A change that is reported, and whether listeners are to hear of it. -/
structure Report where
  path : String
  invalidates : Bool

def Event.reports (e : Event) : List Report :=
  if e.isFolder then []
  else
    match e.kind with
    | .created => [⟨e.path, false⟩]
    | .modified | .deleted => [⟨e.path, true⟩]
    | .moved => ⟨e.path, true⟩ :: (e.destination.toList.filter (· ≠ "")).map (⟨·, true⟩)

/-- What comes to a watcher. -/
inductive Input (κ : Type) where
  | register (listener : κ)
  | unregister (listener : κ)
  | change (path : String) (invalidates : Bool)
  | event (e : Event)
  /-- Time passes, or the clock is set. -/
  | setClock (clock : Clock)

variable {κ σ : Type}

namespace Input

def reports? : Input κ → Option (List Report)
  | .change path invalidates => some [⟨path, invalidates⟩]
  | .event e => some e.reports
  | .register _ | .unregister _ | .setClock _ => none

/-- The reports of an input that concern accepted paths. -/
def taken (accepts : String → Bool) (input : Input κ) : List Report :=
  (input.reports?.getD []).filter fun report => accepts report.path

def perform [DecidableEq κ] (hear : Hearing κ σ) (s : Site κ σ) : Input κ → Site κ σ
  | .register listener => { s with watcher := s.watcher.register listener }
  | .unregister listener => { s with watcher := s.watcher.unregister listener }
  | .change path invalidates => (s.change hear path invalidates).2
  | .event e => s.handle hear e
  | .setClock clock => { s with clock := clock }

end Input

def runFrom [DecidableEq κ] (hear : Hearing κ σ) (s : Site κ σ) (inputs : List (Input κ)) :
    Site κ σ := inputs.foldl (Input.perform hear) s

/-- Listeners that do as before while their calls are noted. -/
def noting (hear : Hearing κ σ) : Hearing κ (σ × List (κ × String)) := fun listener path audience =>
  let (answer, next) := hear listener path audience.1
  (answer, next, audience.2 ++ [(listener, path)])

section Calls

variable {hear : Hearing κ σ} {path : String}

theorem tell_noting (listeners : List κ) (audience : σ) (calls : List (κ × String)) :
    tell (noting hear) path listeners (audience, calls) =
      (tell hear path listeners audience, calls ++ listeners.map fun k => (k, path)) := by
  induction listeners generalizing audience calls with
  | nil => simp [tell]
  | cons first rest ih =>
    change tell (noting hear) path rest ((hear first path audience).2, calls ++ [(first, path)]) = _
    rw [ih, List.append_assoc]
    rfl

end Calls

section Reports

variable {s t u : Site κ (σ × List (κ × String))} {report : Report}
  {reports first second : List Report}

/-- The times of some changes that follow each other. -/
def dates : Clock → List Report → List (String × Float)
  | _, [] => []
  | clock, report :: rest => (report.path, (Clock.read clock).1) :: dates (Clock.read clock).2 rest

/-- The clock after it has been read for each of some changes. -/
def readFor (clock : Clock) (reports : List Report) : Clock :=
  reports.foldl (fun clock _ => (Clock.read clock).2) clock

theorem dates_append (clock : Clock) (first second : List Report) :
    dates clock (first ++ second) = dates clock first ++ dates (readFor clock first) second := by
  induction first generalizing clock with
  | nil => rfl
  | cons report rest ih =>
    rw [List.cons_append, dates, ih]
    rfl

/-- Who is called for some reports, in the order of the calls. -/
def callsFor (listeners : List κ) (reports : List Report) : List (κ × String) :=
  (reports.filter (·.invalidates)).flatMap fun report => listeners.map fun k => (k, report.path)

/-- What the accepted ones among some reports do to a watcher, and that nothing else is done. -/
structure Takes (s : Site κ (σ × List (κ × String))) (taken : List Report)
    (t : Site κ (σ × List (κ × String))) : Prop where
  accepts : t.watcher.isAccepted = s.watcher.isAccepted
  listeners : t.watcher.listeners = s.watcher.listeners
  clock : t.clock = readFor s.clock taken
  timestamps : ∀ path, t.watcher.timestamp? path =
    ((dates s.clock taken).reverse.lookup path).or (s.watcher.timestamp? path)
  calls : t.audience.2 = s.audience.2 ++ callsFor s.watcher.listeners.toList taken
  idle : taken = [] → t = s

theorem Takes.nothing (s : Site κ (σ × List (κ × String))) : Takes s [] s where
  accepts := rfl
  listeners := rfl
  clock := rfl
  timestamps _ := rfl
  calls := (List.append_nil _).symm
  idle _ := rfl

theorem Takes.append (one : Takes s first t) (other : Takes t second u) :
    Takes s (first ++ second) u where
  accepts := other.accepts.trans one.accepts
  listeners := other.listeners.trans one.listeners
  clock := by
    rw [other.clock, one.clock, readFor, readFor, readFor, List.foldl_append]
  timestamps path := by
    rw [other.timestamps, one.timestamps, one.clock, dates_append, List.reverse_append,
      List.lookup_append, Option.or_assoc]
  calls := by
    rw [other.calls, one.calls, one.listeners, List.append_assoc]
    simp only [callsFor, List.filter_append, List.flatMap_append]
  idle nothing := by
    obtain ⟨rfl, rfl⟩ := List.append_eq_nil_iff.mp nothing
    rw [other.idle rfl, one.idle rfl]

variable {hear : Hearing κ σ}

def Site.take (hear : Hearing κ σ) (s : Site κ σ) (report : Report) : Site κ σ :=
  (s.change hear report.path report.invalidates).2

/-- Events do no more than their reports, one after the other. -/
theorem handle_eq_take (hear : Hearing κ σ) (e : Event) (s : Site κ σ) :
    s.handle hear e = e.reports.foldl (Site.take hear) s := by
  obtain ⟨kind, path, destination, isFolder⟩ := e
  cases isFolder with
  | true => rfl
  | false =>
    cases kind with
    | created | modified | deleted => rfl
    | moved =>
      cases destination with
      | none => rfl
      | some destination =>
        rw [Site.handle_moved]
        by_cases nowhere : destination = ""
        · subst nowhere
          rfl
        · rw [if_neg nowhere]
          simp only [Event.reports, Option.toList_some]
          rw [List.filter_cons_of_pos (by simpa using nowhere)]
          rfl

theorem take_takes (s : Site κ (σ × List (κ × String))) (report : Report) :
    Takes s ([report].filter fun report => s.watcher.isAccepted report.path)
      (s.take (noting hear) report) := by
  cases accepted : s.watcher.isAccepted report.path with
  | false =>
    have still : s.take (noting hear) report = s := by
      rw [Site.take, Site.change, accepted]
      rfl
    rw [List.filter_cons_of_neg (by simp [accepted]), still]
    exact .nothing s
  | true =>
    rw [List.filter_cons_of_pos (by simp [accepted]), List.filter_nil, Site.take,
      Site.change_of_accepted accepted]
    constructor
    · rfl
    · rfl
    · rfl
    · intro path
      change (s.watcher.timestamps.insert report.path _).get? path = _
      rw [Table.get?_insert, dates, dates, List.reverse_singleton, List.lookup_cons]
      by_cases same : path = report.path
      · rw [if_pos same, beq_iff_eq.mpr same]
        rfl
      · rw [if_neg same, beq_eq_false_iff_ne.mpr same]
        rfl
    · rw [callsFor]
      cases invalidates : report.invalidates with
      | false =>
        rw [List.filter_cons_of_neg (by simp [invalidates])]
        exact (List.append_nil _).symm
      | true =>
        rw [List.filter_cons_of_pos invalidates, if_pos rfl]
        change (tell (noting hear) report.path _ (s.audience.1, s.audience.2)).2 = _
        rw [tell_noting]
        simp
    · intro nothing
      cases nothing

/-- One after the other, reports do what the accepted ones among them do. -/
theorem takeAll_takes (s : Site κ (σ × List (κ × String))) (reports : List Report) :
    Takes s (reports.filter fun report => s.watcher.isAccepted report.path)
      (reports.foldl (Site.take (noting hear)) s) := by
  induction reports generalizing s with
  | nil => exact .nothing s
  | cons report rest ih =>
    have first : Takes s _ (s.take (noting hear) report) := take_takes s report
    have later := ih (s.take (noting hear) report)
    rw [first.accepts] at later
    rw [← List.singleton_append, List.filter_append]
    exact first.append later

variable [DecidableEq κ]

theorem perform_eq_take {input : Input κ} (reported : input.reports? = some reports)
    (hear : Hearing κ σ) (s : Site κ σ) :
    input.perform hear s = reports.foldl (Site.take hear) s := by
  cases input with
  | change path invalidates =>
    cases reported
    rfl
  | event e =>
    cases reported
    exact handle_eq_take hear e s
  | register | unregister | setClock => cases reported

/-- What an input does if it is no more than its reports. -/
theorem perform_takes (input : Input κ) (reported : input.reports?.isSome = true)
    (s : Site κ (σ × List (κ × String))) :
    Takes s (input.taken s.watcher.isAccepted) (input.perform (noting hear) s) := by
  obtain ⟨reports, reported⟩ := Option.isSome_iff_exists.mp reported
  rw [perform_eq_take reported, Input.taken, reported]
  exact takeAll_takes s reports

end Reports
section Registration

variable {k l : κ} {inputs : List (Input κ)} {input : Input κ} {n : Nat}

/-- A listener has been registered, and not been unregistered since. -/
def Registered (k : κ) (inputs : List (Input κ)) : Prop :=
  ∃ before after, inputs = before ++ .register k :: after ∧ .unregister k ∉ after

/-- A listener has been registered since the input of this number, and was not just before. -/
def RegisteredAt (k : κ) (inputs : List (Input κ)) (n : Nat) : Prop :=
  ∃ before after, inputs = before ++ .register k :: after ∧ before.length = n ∧
    ¬ Registered k before ∧ .unregister k ∉ after

theorem not_registered_nil (k : κ) : ¬ Registered k [] := by
  rintro ⟨before, after, order, -⟩
  cases before <;> cases order

theorem registered_concat : Registered k (inputs ++ [input]) ↔
    input = .register k ∨ Registered k inputs ∧ input ≠ .unregister k := by
  constructor
  · rintro ⟨before, after, order, still⟩
    rcases List.eq_nil_or_concat after with rfl | ⟨after, last, rfl⟩
    · obtain ⟨-, same⟩ := List.append_inj' order rfl
      cases same
      exact .inl rfl
    · rw [List.concat_eq_append] at order still
      rw [← List.cons_append, ← List.append_assoc] at order
      obtain ⟨rfl, same⟩ := List.append_inj' order rfl
      cases same
      rw [List.mem_append, not_or, List.mem_singleton] at still
      exact .inr ⟨⟨before, after, rfl, still.1⟩, Ne.symm still.2⟩
  · rintro (rfl | ⟨⟨before, after, rfl, still⟩, other⟩)
    · exact ⟨inputs, [], rfl, List.not_mem_nil⟩
    · refine ⟨before, after ++ [input], by simp, ?_⟩
      rw [List.mem_append, not_or, List.mem_singleton]
      exact ⟨still, Ne.symm other⟩

theorem registeredAt_of_fresh (fresh : ¬ Registered k inputs) :
    RegisteredAt k (inputs ++ [.register k]) inputs.length :=
  ⟨inputs, [], rfl, rfl, fresh, List.not_mem_nil⟩

theorem RegisteredAt.concat (since : RegisteredAt k inputs n) (other : input ≠ .unregister k) :
    RegisteredAt k (inputs ++ [input]) n := by
  obtain ⟨before, after, rfl, place, fresh, still⟩ := since
  refine ⟨before, after ++ [input], by simp, place, fresh, ?_⟩
  rw [List.mem_append, not_or, List.mem_singleton]
  exact ⟨still, Ne.symm other⟩

theorem RegisteredAt.lt (since : RegisteredAt k inputs n) : n < inputs.length := by
  obtain ⟨before, after, rfl, rfl, -⟩ := since
  simp

/-- Some registration has taken effect of whoever is registered. -/
theorem Registered.since (registered : Registered k inputs) : ∃ n, RegisteredAt k inputs n := by
  induction inputs using List.reverseRecOn with
  | nil => exact absurd registered (not_registered_nil k)
  | append_singleton inputs input ih =>
    by_cases before : Registered k inputs
    · obtain ⟨n, since⟩ := ih before
      refine ⟨n, since.concat ?_⟩
      rintro rfl
      rcases registered_concat.mp registered with same | ⟨-, other⟩
      · cases same
      · exact other rfl
    · rcases registered_concat.mp registered with rfl | ⟨registered, -⟩
      · exact ⟨inputs.length, registeredAt_of_fresh before⟩
      · exact absurd registered before

/-- The listeners are those that are registered, in the order in which this took effect. -/
structure Enrolled (listeners : OrderedSet κ) (inputs : List (Input κ)) : Prop where
  registered : ∀ k, k ∈ listeners ↔ Registered k inputs
  ordered : listeners.toList.Pairwise fun k l =>
    ∃ m n, RegisteredAt k inputs m ∧ RegisteredAt l inputs n ∧ m < n

theorem enrolled_nil : Enrolled (∅ : OrderedSet κ) [] where
  registered k := iff_of_false (OrderedSet.not_mem_empty k) (not_registered_nil k)
  ordered := .nil

/-- Inputs that are no registrations leave the order as it is. -/
theorem Enrolled.other {listeners : OrderedSet κ} (enrolled : Enrolled listeners inputs)
    (unregistered : ∀ k, input ≠ .register k) (kept : ∀ k, input ≠ .unregister k) :
    Enrolled listeners (inputs ++ [input]) where
  registered k := by
    rw [enrolled.registered, registered_concat]
    exact ⟨fun registered => .inr ⟨registered, kept k⟩,
      fun either => (either.resolve_left (unregistered k)).1⟩
  ordered := enrolled.ordered.imp fun ⟨m, n, first, second, less⟩ =>
    ⟨m, n, first.concat (kept _), second.concat (kept _), less⟩

variable [DecidableEq κ]

theorem Enrolled.register {listeners : OrderedSet κ} (enrolled : Enrolled listeners inputs)
    (k : κ) : Enrolled (listeners.insert k) (inputs ++ [.register k]) where
  registered l := by
    rw [OrderedSet.mem_insert, enrolled.registered, registered_concat, Input.register.injEq,
      or_comm, eq_comm]
    simp
  ordered := by
    have still : listeners.toList.Pairwise fun k' l => ∃ m n,
        RegisteredAt k' (inputs ++ [.register k]) m ∧ RegisteredAt l (inputs ++ [.register k]) n ∧
          m < n :=
      enrolled.ordered.imp fun ⟨m, n, first, second, less⟩ =>
        ⟨m, n, first.concat nofun, second.concat nofun, less⟩
    by_cases present : k ∈ listeners
    · rw [OrderedSet.toList_insert_of_mem present]
      exact still
    · rw [OrderedSet.toList_insert_of_not_mem present, List.pairwise_append]
      refine ⟨still, List.pairwise_singleton _ _, fun l member m last => ?_⟩
      obtain rfl := List.mem_singleton.mp last
      obtain ⟨n, since⟩ := ((enrolled.registered l).mp member).since
      have fresh : ¬ Registered m inputs := fun registered =>
        present ((enrolled.registered m).mpr registered)
      exact ⟨n, inputs.length, since.concat nofun, registeredAt_of_fresh fresh, since.lt⟩

theorem Enrolled.unregister {listeners : OrderedSet κ} (enrolled : Enrolled listeners inputs)
    (k : κ) : Enrolled (listeners.erase k) (inputs ++ [.unregister k]) where
  registered l := by
    rw [OrderedSet.mem_erase, enrolled.registered, registered_concat]
    constructor
    · rintro ⟨registered, other⟩
      refine .inr ⟨registered, ?_⟩
      rintro ⟨⟩
      exact other rfl
    · rintro (same | ⟨registered, other⟩)
      · cases same
      · refine ⟨registered, ?_⟩
        rintro rfl
        exact other rfl
  ordered := by
    rw [OrderedSet.erase, List.pairwise_filter]
    refine enrolled.ordered.imp fun since one other => ?_
    obtain ⟨m, n, first, second, less⟩ := since
    refine ⟨m, n, first.concat ?_, second.concat ?_, less⟩
    · rintro ⟨⟩
      simp at one
    · rintro ⟨⟩
      simp at other

theorem Enrolled.perform {hear : Hearing κ σ} {s : Site κ (σ × List (κ × String))}
    (enrolled : Enrolled s.watcher.listeners inputs) (input : Input κ) :
    Enrolled (input.perform (noting hear) s).watcher.listeners (inputs ++ [input]) := by
  cases input with
  | register k => exact enrolled.register k
  | unregister k => exact enrolled.unregister k
  | change path invalidates =>
    rw [(perform_takes (.change path invalidates) rfl s).listeners]
    exact enrolled.other nofun nofun
  | event e =>
    rw [(perform_takes (.event e) rfl s).listeners]
    exact enrolled.other nofun nofun
  | setClock => exact enrolled.other nofun nofun

end Registration

section Runs

variable [DecidableEq κ] {hear : Hearing κ σ} {s : Site κ (σ × List (κ × String))}

/-- The clock after an input. -/
def Input.clockAfter (accepts : String → Bool) (clock : Clock) : Input κ → Clock
  | .setClock clock => clock
  | input => readFor clock (input.taken accepts)

/-- The accepted changes of a run, each with what the clock said at it. -/
def dated (accepts : String → Bool) : Clock → List (Input κ) → List (String × Float)
  | _, [] => []
  | clock, input :: rest =>
    dates clock (input.taken accepts) ++ dated accepts (input.clockAfter accepts clock) rest

theorem runFrom_append (hear : Hearing κ σ) (s : Site κ σ) (first second : List (Input κ)) :
    runFrom hear s (first ++ second) = runFrom hear (runFrom hear s first) second :=
  List.foldl_append

theorem perform_accepts (s : Site κ (σ × List (κ × String))) (input : Input κ) :
    (input.perform (noting hear) s).watcher.isAccepted = s.watcher.isAccepted := by
  cases input with
  | register | unregister | setClock => rfl
  | change | event => exact (perform_takes _ rfl s).accepts

theorem perform_clock (s : Site κ (σ × List (κ × String))) (input : Input κ) :
    (input.perform (noting hear) s).clock = input.clockAfter s.watcher.isAccepted s.clock := by
  cases input with
  | register | unregister | setClock => rfl
  | change | event => exact (perform_takes _ rfl s).clock

theorem perform_timestamps (s : Site κ (σ × List (κ × String))) (input : Input κ) (path : String) :
    (input.perform (noting hear) s).watcher.timestamp? path =
      ((dates s.clock (input.taken s.watcher.isAccepted)).reverse.lookup path).or
        (s.watcher.timestamp? path) := by
  cases input with
  | register | unregister | setClock => rfl
  | change | event => exact (perform_takes _ rfl s).timestamps path

theorem perform_calls (s : Site κ (σ × List (κ × String))) (input : Input κ) :
    (input.perform (noting hear) s).audience.2 = s.audience.2 ++
      callsFor s.watcher.listeners.toList (input.taken s.watcher.isAccepted) := by
  cases input with
  | register | unregister | setClock => exact (List.append_nil _).symm
  | change | event => exact (perform_takes _ rfl s).calls

theorem runFrom_accepts (s : Site κ (σ × List (κ × String))) (inputs : List (Input κ)) :
    (runFrom (noting hear) s inputs).watcher.isAccepted = s.watcher.isAccepted := by
  induction inputs generalizing s with
  | nil => rfl
  | cons input rest ih => exact (ih _).trans (perform_accepts s input)

theorem runFrom_timestamps (s : Site κ (σ × List (κ × String))) (inputs : List (Input κ))
    (path : String) : (runFrom (noting hear) s inputs).watcher.timestamp? path =
      ((dated s.watcher.isAccepted s.clock inputs).reverse.lookup path).or
        (s.watcher.timestamp? path) := by
  induction inputs generalizing s with
  | nil => rfl
  | cons input rest ih =>
    change (runFrom (noting hear) (input.perform (noting hear) s) rest).watcher.timestamp? path = _
    rw [ih, perform_accepts, perform_clock, perform_timestamps, dated, List.reverse_append,
      List.lookup_append, Option.or_assoc]

theorem runFrom_enrolled (empty : s.watcher.listeners = ∅) (inputs : List (Input κ)) :
    Enrolled (runFrom (noting hear) s inputs).watcher.listeners inputs := by
  induction inputs using List.reverseRecOn with
  | nil =>
    rw [runFrom, List.foldl_nil, empty]
    exact enrolled_nil
  | append_singleton inputs input ih =>
    rw [runFrom_append]
    exact ih.perform input

omit [DecidableEq κ] in
/-- A watcher that has just been made is without listeners and times. -/
theorem start_fresh {locate : Watcher.Locate} {root : String} {extensions : List String}
    {patternPath : Option String} {userPatterns : List String} {host : Host} {w : Watcher κ}
    (started : (Watcher.start locate root extensions patternPath userPatterns host).1 = .ok w) :
    w.listeners = ∅ ∧ w.timestamps = ∅ := by
  unfold Watcher.start at started
  rw [bind_apply] at started
  cases read : (readPatterns (Watcher.patternPlace (locate root) patternPath).toString host).1 with
  | error e =>
    rw [read] at started
    change Except.error e = Except.ok w at started
    cases started
  | ok filePatterns =>
    rw [read] at started
    change Except.ok _ = Except.ok w at started
    obtain rfl := Except.ok.inj started
    exact ⟨rfl, rfl⟩

/-- What a watcher does in any run: who listens, in which order, when a path was last changed, and
who hears of what comes next. -/
theorem watcher_dispatches {locate : Watcher.Locate} {root : String} {extensions : List String}
    {patternPath : Option String} {userPatterns : List String} {host : Host} {w : Watcher κ}
    (started : (Watcher.start locate root extensions patternPath userPatterns host).1 = .ok w)
    (hear : Hearing κ σ) (clock : Clock) (audience : σ) (inputs : List (Input κ)) :
    let s := runFrom (noting hear) ⟨w, clock, audience, []⟩ inputs
    let listeners := s.watcher.listeners.toList
    listeners.Nodup ∧ (∀ k, k ∈ listeners ↔ Registered k inputs) ∧
    (listeners.Pairwise fun k l =>
      ∃ m n, RegisteredAt k inputs m ∧ RegisteredAt l inputs n ∧ m < n) ∧
    (∀ path, s.watcher.timestamp? path =
      (dated w.isAccepted clock inputs).reverse.lookup path) ∧
    ∀ input : Input κ,
      let taken := input.taken w.isAccepted
      let next := input.perform (noting hear) s
      next.audience.2 = s.audience.2 ++ callsFor listeners taken ∧
      -- Changes of paths that are not accepted, and events of folders, leave no trace.
      (input.reports?.isSome = true → taken = [] → next = s) := by
  obtain ⟨unheard, undated⟩ := start_fresh started
  intro s listeners
  have enrolled : Enrolled s.watcher.listeners inputs := runFrom_enrolled unheard inputs
  have accepts : s.watcher.isAccepted = w.isAccepted := runFrom_accepts _ inputs
  refine ⟨s.watcher.listeners.nodup, enrolled.registered, enrolled.ordered, fun path => ?_,
    fun input => ⟨?_, fun reported nothing => ?_⟩⟩
  · have none : w.timestamp? path = none := by
      rw [Watcher.timestamp?, undated]
      rfl
    have times : s.watcher.timestamp? path =
        ((dated w.isAccepted clock inputs).reverse.lookup path).or (w.timestamp? path) :=
      runFrom_timestamps ⟨w, clock, audience, []⟩ inputs path
    rw [times, none, Option.or_none]
  · rw [← accepts]
    exact perform_calls s input
  · rw [← accepts] at nothing
    exact (perform_takes input reported s).idle nothing

/-- A listener that always fails goes before one that does not; a file is moved to a place that is
ignored, and one comes back from there. -/
theorem watcher_dispatches_moved :
    let hear : Hearing Bool Unit := fun listener _ _ =>
      (if listener then .ok () else .error "deaf", ())
    let inputs : List (Input Bool) := [.register false, .register true, .register false,
      .event ⟨.created, "/p/a.js", none, false⟩, .setClock ⟨5.0, 1.0⟩,
      .event ⟨.moved, "/p/node_modules/a.js", some "/p/b.js", false⟩]
    let last : Input Bool := .event ⟨.moved, "/p/a.js", some "/p/node_modules/a.js", false⟩
    ∃ w : Watcher Bool,
      (Watcher.start Watcher.rootOf "/p" [] none [] (Host.ofDisk Disk.empty)).1 = .ok w ∧
      let s := runFrom (noting hear) ⟨w, ⟨0.0, 1.0⟩, (), []⟩ inputs
      s.watcher.timestamp? "/p/b.js" = some 5.0 ∧
      s.watcher.timestamp? "/p/node_modules/a.js" = none ∧
      (last.perform (noting hear) s).audience.2 =
        [(false, "/p/b.js"), (true, "/p/b.js"), (false, "/p/a.js"), (true, "/p/a.js")] := by
  intro hear inputs last
  let w : Watcher Bool := ⟨Watcher.rootOf "/p", .ofList [".js"], ∅, ∅, ∅, ∅⟩
  have started : (Watcher.start Watcher.rootOf "/p" [] none [] (Host.ofDisk Disk.empty)).1 = .ok w :=
    rfl
  obtain ⟨-, -, -, times, next⟩ := watcher_dispatches started hear ⟨0.0, 1.0⟩ () inputs
  refine ⟨w, started, (times "/p/b.js").trans ?_, (times "/p/node_modules/a.js").trans ?_,
    (next last).1.trans ?_⟩
  · rfl
  · rfl
  · decide +kernel

end Runs
end ModuleBundler.Watch
