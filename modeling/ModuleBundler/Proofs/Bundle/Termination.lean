import ModuleBundler.Proofs.Bundle.Yield

/-! Every build comes to an end, whatever the host and the token, if only the files
stay. Attempts to read one path grow fewer, and every path that is read leads to a
file and has not been seen before, so that the paths of the disk run out. -/
namespace ModuleBundler

open Source ModuleBundler.Bundle Cancellation ModuleBundler.Path

namespace Source

/-- What the next path of a walk is, and what is left. -/
theorem next?_eq_some {w next : Walk} {path : String} (upcoming : w.next? = some (path, next)) :
    path ∈ w.stack ∧ path ∉ w.seen ∧ next.seen = w.seen ∧ ∀ q ∈ next.stack, q ∈ w.stack := by
  unfold Walk.next? at upcoming
  cases left : w.stack.dropWhile (· ∈ w.seen) with
  | nil =>
    rw [left] at upcoming
    cases upcoming
  | cons first rest =>
    rw [left] at upcoming
    cases upcoming
    have within : ∀ q ∈ path :: rest, q ∈ w.stack := fun q member =>
      (List.dropWhile_suffix _).subset (left ▸ member)
    have fresh := List.head?_dropWhile_not (fun q => decide (q ∈ w.seen)) w.stack
    rw [left] at fresh
    refine ⟨within path List.mem_cons_self, by simpa using fresh, rfl, ?_⟩
    exact fun q member => within q (List.mem_cons_of_mem _ member)

/-- After a visit one path less of the disk is left to see, and all that is pending is normal. -/
theorem visit_progress {r : Resolver} {d : Disk} {w next : Walk} {path content : String}
    (upcoming : w.next? = some (path, next)) (normal : ∀ q ∈ w.stack, IsNormal q)
    (found : r.reader.textOn? d path = some content) :
    let visited := (next.enter path).supply path (localImports r.extensions path content)
    visited.seen.missing d.paths < w.seen.missing d.paths ∧ ∀ q ∈ visited.stack, IsNormal q := by
  obtain ⟨pending, fresh, seen, within⟩ := next?_eq_some upcoming
  have named := normal path pending
  constructor
  · change (next.seen.insert path).missing _ < _
    rw [seen]
    exact OrderedSet.missing_insert_lt fresh (mem_paths_of_textOn? named found)
  · intro q member
    rcases List.mem_append.mp member with imported | old
    · exact isNormal_of_mem_localImports named imported
    · exact normal q (within q old)

end Source

namespace Bundle

variable {p : Plan} {h : Host}

theorem advance_of_going {d next : Discovery}
    (going : (d.advance p.resolver p.token h).1 = .going next) :
    (Build.advance p (.discovering d) h).1 = .going (.discovering next) := by
  rw [Build.advance, bind_apply, going]
  rfl

theorem advance_of_failed {d : Discovery} {walk : Walk} {e : DiscoveryError}
    (failed : (d.advance p.resolver p.token h).1 = .failed walk e) :
    (Build.advance p (.discovering d) h).1 = .failed (.build e p.projectRoot p.entryPoint) := by
  rw [Build.advance, bind_apply, failed]
  rfl

/-- A build that reads one path comes to an end if it does so as soon as an attempt decides. -/
theorem ends_of_reading (build : Reading → Build) {path : String} {files : Disk}
    (step : ∀ (reading : Reading) (h : Host), reading.path = path → h.disk = files →
      (∃ next : Reading, next.path = path ∧ next.left < reading.left ∧
        ((build reading).advance p h).1 = .going (build next)) ∨
      ∃ result after, Build.Ends p (build reading) h result after)
    (reading : Reading) (h : Host) (same : reading.path = path) (still : h.disk = files) :
    ∃ result after, Build.Ends p (build reading) h result after := by
  induction left : reading.left using Nat.strongRecOn generalizing reading h with
  | ind n ih =>
    rcases step reading h same still with ⟨next, samePath, fewer, going⟩ | ends
    · have follows := advance_keepsFiles p (build reading) h
      obtain ⟨result, after, ends⟩ :=
        ih next.left (left ▸ fewer) next _ samePath (follows.disk.trans still) rfl
      exact ⟨result, after, .going going ends⟩
    · exact ends

/-- An attempt to read while collecting fails, is made again, or hands over its text. -/
theorem advance_collecting (p : Plan) (files rest : List String) (reading : Reading)
    (sections : List String) (h : Host) :
    (∃ next : Reading, next.path = reading.path ∧ next.left < reading.left ∧
      (Build.advance p (.collecting files rest reading sections) h).1 =
        .going (.collecting files rest next sections)) ∨
    (∃ e, (Build.advance p (.collecting files rest reading sections) h).1 = .failed e) ∨
    ∃ more k, Build.advance p (.collecting files rest reading sections) h =
      Build.collect p files more rest k := by
  rw [Build.advance, bind_apply]
  cases outcome : (reading.perform p.resolver.reader h).1 with
  | again next fewer => exact .inl ⟨next, path_of_perform outcome, fewer, rfl⟩
  | failed e => exact .inr (.inl ⟨_, rfl⟩)
  | done content => exact .inr (.inr ⟨_, _, rfl⟩)

theorem collecting_terminates (p : Plan) (files rest : List String) (reading : Reading)
    (sections : List String) (h : Host) :
    ∃ result after, Build.Ends p (.collecting files rest reading sections) h result after := by
  induction rest generalizing reading sections h with
  | nil =>
    refine ends_of_reading (.collecting files [] · sections) ?_ reading h rfl rfl
    intro reading h same still
    rcases advance_collecting p files [] reading sections h with
      ⟨next, path, fewer, going⟩ | ⟨e, failed⟩ | ⟨more, k, step⟩
    · exact .inl ⟨next, path.trans same, fewer, going⟩
    · exact .inr ⟨_, _, .failed failed⟩
    · exact .inr ⟨_, _, .built (by rw [step]; rfl)⟩
  | cons path rest ih =>
    refine ends_of_reading (.collecting files (path :: rest) · sections) ?_ reading h rfl rfl
    intro reading h same still
    rcases advance_collecting p files (path :: rest) reading sections h with
      ⟨next, path, fewer, going⟩ | ⟨e, failed⟩ | ⟨more, k, step⟩
    · exact .inl ⟨next, path.trans same, fewer, going⟩
    · exact .inr ⟨_, _, .failed failed⟩
    · obtain ⟨result, after, ends⟩ := ih ⟨path, 0, p.resolver.reader.attempts - 1⟩ more
        (Build.advance p (.collecting files (path :: rest) reading sections) h).2
      exact .inr ⟨result, after, .going (by rw [step]; rfl) ends⟩

/-- An attempt to read for the walk fails, is made again, or brings a path of the disk that had not
been seen. -/
theorem advance_reading {walk : Walk} (p : Plan) {path : String} {reading : Reading} {h : Host}
    (same : reading.path = path) :
    (∃ later : Reading, later.path = path ∧ later.left < reading.left ∧
      (Build.advance p (.discovering ⟨walk, some reading⟩) h).1 =
        .going (.discovering ⟨walk, some later⟩)) ∨
    (∃ e, (Build.advance p (.discovering ⟨walk, some reading⟩) h).1 = .failed e) ∨
    ∃ content, p.resolver.reader.textOn? h.disk path = some content ∧
      (Build.advance p (.discovering ⟨walk, some reading⟩) h).1 =
        .going (.discovering ⟨walk.supply path
          (localImports p.resolver.extensions path content), none⟩) := by
  subst same
  have turn := Discovery.turn p.resolver p.token ⟨walk, some reading⟩ h
  cases outcome : (Discovery.advance p.resolver p.token ⟨walk, some reading⟩ h).1 with
  | failed walk e => exact .inr (.inl ⟨_, advance_of_failed outcome⟩)
  | done final =>
    rw [outcome] at turn
    cases turn with
    | done reading => cases reading
  | going next =>
    rw [outcome] at turn
    cases turn with
    | read current found =>
      cases current
      exact .inr (.inr ⟨_, found, advance_of_going outcome⟩)
    | again current same fewer =>
      cases current
      exact .inl ⟨_, same, fewer, advance_of_going outcome⟩
    | enter current => cases current

/-- Between two files a build fails, begins to read the next one, or has discovered them all. -/
theorem advance_walking (p : Plan) (walk : Walk) (h : Host) :
    (∃ e, (Build.advance p (.discovering ⟨walk, none⟩) h).1 = .failed e) ∨
    (∃ path next, ∃ reading : Reading, walk.next? = some (path, next) ∧ reading.path = path ∧
      (Build.advance p (.discovering ⟨walk, none⟩) h).1 =
        .going (.discovering ⟨next.enter path, some reading⟩)) ∨
    ∃ files k, (Build.advance p (.discovering ⟨walk, none⟩) h).1 =
      (Build.collect p files [] files k).1 := by
  have turn := Discovery.turn p.resolver p.token ⟨walk, none⟩ h
  cases outcome : (Discovery.advance p.resolver p.token ⟨walk, none⟩ h).1 with
  | failed walk e => exact .inl ⟨_, advance_of_failed outcome⟩
  | done final => exact .inr (.inr ⟨_, _, by rw [Build.advance, bind_apply, outcome]⟩)
  | going next =>
    rw [outcome] at turn
    cases turn with
    | read current | again current => cases current
    | enter current upcoming same =>
      exact .inr (.inl ⟨_, _, _, upcoming, same, advance_of_going outcome⟩)

/-- From wherever a walk over paths in normal form stands, the build comes to an end. -/
theorem discovering_terminates (p : Plan) (walk : Walk)
    (normal : ∀ path ∈ walk.stack, IsNormal path) (h : Host) :
    ∃ result after, Build.Ends p (.discovering ⟨walk, none⟩) h result after := by
  induction left : walk.seen.missing h.disk.paths using Nat.strongRecOn generalizing walk h with
  | ind n ih =>
    rcases advance_walking p walk h with
      ⟨e, failed⟩ | ⟨path, next, reading, upcoming, same, going⟩ | ⟨files, k, step⟩
    · exact ⟨_, _, .failed failed⟩
    · have follows := advance_keepsFiles p (.discovering ⟨walk, none⟩) h
      have rest : ∃ result after, Build.Ends p (.discovering ⟨next.enter path, some reading⟩)
          (Build.advance p (.discovering ⟨walk, none⟩) h).2 result after := by
        refine ends_of_reading (.discovering ⟨next.enter path, some ·⟩) ?_ reading _ same
          follows.disk
        intro reading k same still
        rcases advance_reading p same with again | ⟨e, failed⟩ | ⟨content, found, going⟩
        · exact .inl again
        · exact .inr ⟨_, _, .failed failed⟩
        · have kept := advance_keepsFiles p (.discovering ⟨next.enter path, some reading⟩) k
          rw [still] at found
          obtain ⟨fewer, stack⟩ := visit_progress upcoming normal found
          rw [left, ← still, ← kept.disk] at fewer
          obtain ⟨result, after, ends⟩ := ih _ fewer _ stack _ rfl
          exact .inr ⟨result, after, .going going ends⟩
      obtain ⟨result, after, ends⟩ := rest
      exact ⟨result, after, .going going ends⟩
    · cases files with
      | nil => exact ⟨_, _, .built step⟩
      | cons path rest =>
        obtain ⟨result, after, ends⟩ := collecting_terminates p (path :: rest) rest
          ⟨path, 0, p.resolver.reader.attempts - 1⟩ []
          (Build.advance p (.discovering ⟨walk, none⟩) h).2
        exact ⟨result, after, .going step ends⟩

theorem build_terminates (p : Plan) (h : Host) :
    ∃ result after, Build.Ends p (.start p) h result after := by
  refine discovering_terminates p _ ?_ h
  intro path member
  rw [List.mem_singleton.mp member]
  exact isNormal_absolute _

end Bundle
end ModuleBundler
