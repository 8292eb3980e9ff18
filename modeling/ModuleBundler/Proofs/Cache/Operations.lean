import ModuleBundler.Cache.Basic

/-! What each operation of the cache does to its entries, to the builds in flight
and to their results. Ending a build with a text and ending it with an error are
one operation here, which settles the entries and the counters, takes the build
out of flight and gives out the result. -/
namespace ModuleBundler.Cache

variable {ε : Type} {c : Cache ε} {key other : Key} {ticket : Ticket}

section Results

theorem lt_of_result? {result : Except ε String} (resolved : c.result? ticket = some result) :
    ticket.number < c.builds.length := by
  rcases Nat.lt_or_ge ticket.number c.builds.length with inside | outside
  · exact inside
  · rw [result?, List.getElem?_eq_none outside] at resolved
    contradiction

theorem mem_builds_of_result? {result : Except ε String}
    (resolved : c.result? ticket = some result) : some result ∈ c.builds := by
  rw [result?, Option.join_eq_some_iff] at resolved
  exact List.mem_of_getElem? resolved

theorem unfailed_of_all (good : (c.builds.all fun build => build.all Except.isOk) = true)
    (ticket : Ticket) (e : ε) : c.result? ticket ≠ some (.error e) := by
  intro failed
  have ended := List.all_eq_true.mp good _ (mem_builds_of_result? failed)
  cases ended

theorem result?_of_builds_append {before after : Cache ε}
    (appended : after.builds = before.builds ++ [none]) (t : Ticket) :
    after.result? t = before.result? t := by
  simp only [result?, appended, List.getElem?_append]
  split
  next => rfl
  next outside =>
    rw [List.getElem?_eq_none (Nat.le_of_not_lt outside)]
    cases t.number - before.builds.length <;> rfl

theorem result?_of_builds_set {before after : Cache ε} {result : Except ε String}
    (given : after.builds = before.builds.set ticket.number (some result))
    (known : ticket.number < before.builds.length) (t : Ticket) :
    after.result? t = if t = ticket then some result else before.result? t := by
  rw [result?, given, List.getElem?_set]
  by_cases same : t = ticket
  · subst same
    simp [known]
  · have apart : ticket.number ≠ t.number := fun h => same (by cases t; cases ticket; simp_all)
    simp [same, apart, result?]

end Results

section LookUp

@[simp] theorem lookUp_fst (key : Key) (c : Cache ε) : (lookUp key c).1 = c.entries.get? key := by
  unfold lookUp
  split <;> simp_all

@[simp] theorem entries_lookUp (key : Key) (c : Cache ε) : (lookUp key c).2.entries = c.entries := by
  unfold lookUp
  split <;> rfl

@[simp] theorem inFlight_lookUp (key : Key) (c : Cache ε) :
    (lookUp key c).2.inFlight = c.inFlight := by
  unfold lookUp
  split <;> rfl

@[simp] theorem generation_lookUp (key : Key) (c : Cache ε) :
    (lookUp key c).2.generation = c.generation := by
  unfold lookUp
  split <;> rfl

@[simp] theorem builds_lookUp (key : Key) (c : Cache ε) : (lookUp key c).2.builds = c.builds := by
  unfold lookUp
  split <;> rfl

@[simp] theorem stores_lookUp (key : Key) (c : Cache ε) :
    (lookUp key c).2.statistics.stores = c.statistics.stores := by
  unfold lookUp
  split <;> rfl

end LookUp

section Claim

theorem beginBuild_of_some (flying : c.inFlight.get? key = some ticket) :
    beginBuild key c = (⟨ticket, false, c.generation⟩,
      c.count fun s => { s with coalescedWaits := s.coalescedWaits + 1 }) := by
  simp only [beginBuild, flying]

theorem beginBuild_of_none (idle : c.inFlight.get? key = none) :
    beginBuild key c = (⟨⟨c.builds.length⟩, true, c.generation⟩,
      { c with
        inFlight := c.inFlight.insert key ⟨c.builds.length⟩, builds := c.builds ++ [none] }) := by
  simp only [beginBuild, idle]

end Claim

section Release

@[simp] theorem entries_release (c : Cache ε) (key : Key) (ticket : Ticket) :
    (c.release key ticket).entries = c.entries := by
  unfold release
  split <;> rfl

@[simp] theorem generation_release (c : Cache ε) (key : Key) (ticket : Ticket) :
    (c.release key ticket).generation = c.generation := by
  unfold release
  split <;> rfl

@[simp] theorem builds_release (c : Cache ε) (key : Key) (ticket : Ticket) :
    (c.release key ticket).builds = c.builds := by
  unfold release
  split <;> rfl

@[simp] theorem statistics_release (c : Cache ε) (key : Key) (ticket : Ticket) :
    (c.release key ticket).statistics = c.statistics := by
  unfold release
  split <;> rfl

theorem inFlight_release_congr {before after : Cache ε} (same : after.inFlight = before.inFlight)
    (key : Key) (ticket : Ticket) :
    (after.release key ticket).inFlight = (before.release key ticket).inFlight := by
  unfold release
  rw [same]
  split
  next => rfl
  next => exact same

theorem get?_release (c : Cache ε) (key other : Key) (ticket : Ticket) :
    (c.release key ticket).inFlight.get? other =
      if other = key ∧ c.inFlight.get? key = some ticket then none else c.inFlight.get? other := by
  unfold release
  by_cases marked : c.inFlight.get? key = some ticket
  · by_cases same : other = key
    · simp [marked, same]
    · simp [marked, same, Table.get?_erase_of_ne same]
  · simp [marked]

/-- A build that has lost its mark takes nobody else's away. -/
theorem release_of_ne (lost : c.inFlight.get? key ≠ some ticket) : c.release key ticket = c := by
  rw [release, if_neg lost]

end Release

section Resolve

variable {result : Except ε String}

@[simp] theorem entries_resolve : (resolve ticket result c).2.entries = c.entries := by
  unfold resolve
  split <;> rfl

@[simp] theorem inFlight_resolve : (resolve ticket result c).2.inFlight = c.inFlight := by
  unfold resolve
  split <;> rfl

@[simp] theorem generation_resolve : (resolve ticket result c).2.generation = c.generation := by
  unfold resolve
  split <;> rfl

@[simp] theorem statistics_resolve : (resolve ticket result c).2.statistics = c.statistics := by
  unfold resolve
  split <;> rfl

theorem resolve_of_none (pending : c.result? ticket = none) :
    resolve ticket result c =
      (.ok (), { c with builds := c.builds.set ticket.number (some result) }) := by
  simp only [resolve, pending]

end Resolve

section Finish

variable {generation : Int} {result : Except ε String}

/-- Ends a build with a text or with an error. -/
def finishBuild (key : Key) (ticket : Ticket) (generation : Int) :
    Except ε String → StateM (Cache ε) (Except TicketError Unit)
  | .ok text => completeBuild key ticket text generation
  | .error e => failBuild key ticket e

/-- The cache with a text stored, if it is still current, or with a failure counted. -/
def settled (c : Cache ε) (key : Key) (generation : Int) : Except ε String → Cache ε
  | .ok text => if c.generation = generation then c.store key text else c
  | .error _ => c.count fun s => { s with failures := s.failures + 1 }

theorem finishBuild_eq (key : Key) (ticket : Ticket) (generation : Int) (result : Except ε String)
    (c : Cache ε) : finishBuild key ticket generation result c =
      resolve ticket result ((c.settled key generation result).release key ticket) := by
  cases result <;> rfl

@[simp] theorem inFlight_settled :
    (c.settled key generation result).inFlight = c.inFlight := by
  cases result with
  | ok text => simp only [settled]; split <;> rfl
  | error e => rfl

@[simp] theorem generation_settled :
    (c.settled key generation result).generation = c.generation := by
  cases result with
  | ok text => simp only [settled]; split <;> rfl
  | error e => rfl

@[simp] theorem builds_settled : (c.settled key generation result).builds = c.builds := by
  cases result with
  | ok text => simp only [settled]; split <;> rfl
  | error e => rfl

@[simp] theorem entries_finishBuild : (finishBuild key ticket generation result c).2.entries =
    (c.settled key generation result).entries := by
  simp only [finishBuild_eq, entries_resolve, entries_release]

@[simp] theorem generation_finishBuild :
    (finishBuild key ticket generation result c).2.generation = c.generation := by
  simp only [finishBuild_eq, generation_resolve, generation_release, generation_settled]

@[simp] theorem statistics_finishBuild : (finishBuild key ticket generation result c).2.statistics =
    (c.settled key generation result).statistics := by
  simp only [finishBuild_eq, statistics_resolve, statistics_release]

@[simp] theorem inFlight_finishBuild :
    (finishBuild key ticket generation result c).2.inFlight = (c.release key ticket).inFlight := by
  rw [finishBuild_eq, inFlight_resolve]
  exact inFlight_release_congr inFlight_settled key ticket

@[simp] theorem length_builds_finishBuild :
    (finishBuild key ticket generation result c).2.builds.length = c.builds.length := by
  rw [finishBuild_eq, resolve]
  split <;> simp

/-- A build without a result is ended, and the result it is given is its own. -/
theorem finishBuild_of_none (pending : c.result? ticket = none) :
    (finishBuild key ticket generation result c).1 = .ok () ∧
      (finishBuild key ticket generation result c).2.builds =
        c.builds.set ticket.number (some result) := by
  have still : ((c.settled key generation result).release key ticket).result? ticket = none := by
    rw [result?, builds_release, builds_settled]
    exact pending
  rw [finishBuild_eq, resolve_of_none still]
  simp

theorem result?_finishBuild (key : Key) (generation : Int) (result : Except ε String)
    (pending : c.result? ticket = none) (known : ticket.number < c.builds.length) (t : Ticket) :
    (finishBuild key ticket generation result c).2.result? t =
      if t = ticket then some result else c.result? t :=
  result?_of_builds_set (finishBuild_of_none pending).2 known t

theorem result?_finishBuild_of_ne {t : Ticket} (other : t ≠ ticket) :
    (finishBuild key ticket generation result c).2.result? t = c.result? t := by
  have apart : ticket.number ≠ t.number := fun same => other (by cases t; cases ticket; simp_all)
  rw [finishBuild_eq, resolve]
  split
  · simp only [result?, builds_release, builds_settled]
  · simp only [result?, builds_release, builds_settled, List.getElem?_set_ne apart]

/-- A build that has a result keeps it, whatever is ended. -/
theorem result?_finishBuild_of_some {t : Ticket} {earlier : Except ε String}
    (resolved : c.result? t = some earlier) :
    (finishBuild key ticket generation result c).2.result? t = some earlier := by
  by_cases same : t = ticket
  · subst same
    have still : ((c.settled key generation result).release key t).result? t = some earlier := by
      simpa only [result?, builds_release, builds_settled] using resolved
    simp only [finishBuild_eq, resolve, still]
  · rw [result?_finishBuild_of_ne same, resolved]

/-- A text from before the last clearing is not stored, nor is an error. -/
theorem entries_settled_of_ne (stale : generation ≠ c.generation) :
    (c.settled key generation result).entries = c.entries := by
  cases result with
  | ok text => rw [settled, if_neg stale.symm]
  | error e => rfl

end Finish

end ModuleBundler.Cache
