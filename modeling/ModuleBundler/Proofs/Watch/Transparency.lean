import ModuleBundler.Proofs.Bundle.Sequence
import ModuleBundler.Proofs.Watch.Dispatch

/-! Caching that is watched cannot be told from no caching. A bundler listens to a
watcher, and every change of a file is followed by its event. Whatever is asked,
the answer is the one that an empty cache would give on the files of that moment.
New files clear nothing: a bundle that lacked one of them was never built. -/
namespace ModuleBundler

open Source ModuleBundler.Bundle

/-- A request without a token, carried out by itself, has this answer. -/
def Bundler.Answers (b : Bundler) (key : Cache.Key) (force : Bool) (s : Site)
    (result : Except Failure String) : Prop :=
  ∃ after, Request.Ends (.start b key force none) s result after

namespace Bundle

variable {b : Bundler} {s : Site}

/-- Nothing is under way, and each text in the cache is what a fresh build comes to. -/
structure Truthful (b : Bundler) (s : Site) : Prop where
  idle : Idle s
  current : ∀ {key text}, s.cache.entries.get? key = some text →
    b.Builds key s.host.disk (.ok text)

theorem truthful_empty {host : Host} (calm : host.faults = []) :
    Truthful b ⟨Cache.empty, host⟩ where
  idle := ⟨fun _ => rfl, calm⟩
  current present := by cases present

/-- A request gives what a fresh build comes to, and leaves the cache truthful. -/
theorem Truthful.ends (truthful : Truthful b s) (untimed : b.Untimed) (key : Cache.Key)
    (force : Bool) : ∃ result after, b.Builds key s.host.disk result ∧
      Request.Ends (.start b key force none) s result after ∧ Truthful b after := by
  obtain ⟨result, after, built, ends, idle, entries⟩ :=
    truthful.idle.ends untimed key force fun _ => truthful.current
  refine ⟨result, after, built, ends, idle, fun {other text} present => ?_⟩
  rw [ends.follows.disk]
  rcases entries with same | added
  · rw [same] at present
    exact truthful.current present
  · rw [added] at present
    cases result with
    | error e => exact truthful.current present
    | ok made =>
      rw [entriesAfter, Table.get?_insert] at present
      split at present
      next same =>
        cases present
        exact same ▸ built
      next => exact truthful.current present

/-- After a clearing nothing is left that could be wrong. -/
theorem truthful_cleared {step : StateM Site Unit} (clears : Cache.Site.Does step Cache.clear)
    (calm : s.host.faults = []) : Truthful b (step s).2 := by
  obtain ⟨host, follows, cleared⟩ := clears.apply s
  rw [cleared]
  exact ⟨⟨fun _ => rfl, follows.calm calm⟩, fun present => by cases present⟩

def withFiles (s : Site) (files : Disk) : Site := { s with host := { s.host with disk := files } }

/-- Files that are new do not concern what is in the cache. -/
theorem Truthful.withFiles {files : Disk} (truthful : Truthful b s)
    (grown : s.host.disk.Extends files) : Truthful b (withFiles s files) where
  idle := ⟨truthful.idle.flying, truthful.idle.calm⟩
  current present := by
    have yields := Bundler.builds_iff_yields.mp (truthful.current present)
    exact Bundler.builds_iff_yields.mpr (yields.of_extends grown)

/-- A truthful cache answers like an empty one. -/
theorem Truthful.answers (truthful : Truthful b s) (untimed : b.Untimed) (key : Cache.Key)
    (force : Bool) (result : Except Failure String) :
    b.Answers key force s result ↔ b.Builds key s.host.disk result := by
  obtain ⟨own, after, built, ends, -⟩ := truthful.ends untimed key force
  constructor
  · rintro ⟨last, again⟩
    rw [(again.unique ends).1]
    exact built
  · intro also
    rw [also.unique built]
    exact ⟨after, ends⟩

end Bundle

def Source.Disk.showsFile (d : Disk) (path : String) : Bool :=
  match d.find path with
  | .ok (.file _) => true
  | _ => false

namespace Watch

variable {κ : Type}

inductive Change where
  | create (path : String) (content : ByteArray)
  | rewrite (path : String) (content : ByteArray)
  | remove (path : String)
  | rename (path destination : String)

namespace Change

/-- New files are created where nothing is; all else happens to files, and a file that is renamed
may take the place of another one. -/
def isPossible (d : Disk) : Change → Bool
  | create path _ => !(d.find path).isOk
  | rewrite path _ | remove path => d.showsFile path
  | rename path destination =>
    d.showsFile path && (d.showsFile destination || !(d.find destination).isOk)

def apply (d : Disk) : Change → Disk
  | create path content | rewrite path content => d.put path (.file content)
  | remove path => d.remove path
  | rename path destination =>
    match d.find path with
    | .ok entry => (d.remove path).put destination entry
    | .error _ => d

def event : Change → Event
  | create path _ => ⟨.created, path, none, false⟩
  | rewrite path _ => ⟨.modified, path, none, false⟩
  | remove path => ⟨.deleted, path, none, false⟩
  | rename path destination => ⟨.moved, path, some destination, false⟩

def isWatched (w : Watcher κ) : Change → Bool
  | create path _ | rewrite path _ | remove path => w.isAccepted path
  | rename path destination => w.isAccepted path && w.isAccepted destination

end Change

variable [DecidableEq κ]

/-- What listeners do where one of them is the bundler at a site. The others leave the site alone,
whether they fail or not. -/
def hearing (me : κ) (others : κ → String → Except String Unit) : Hearing κ Bundle.Site :=
  fun listener path site =>
    if listener = me then (.ok (), (onSourceChanged path site).2)
    else (others listener path, site)

/-- A file changes, and the watcher hears of it before anything else happens. -/
def Site.afterChange (hear : Hearing κ Bundle.Site) (c : Change) (s : Site κ Bundle.Site) :
    Site κ Bundle.Site :=
  Site.handle hear c.event { s with audience := withFiles s.audience (c.apply s.audience.host.disk) }

/-- Runs of a bundler that is registered with a watcher, one thing after the other. At the start the
cache is empty. -/
inductive Reachable (b : Bundler) (me : κ) (others : κ → String → Except String Unit) :
    Site κ Bundle.Site → Prop where
  | start {watcher : Watcher κ} {clock} {host : Host} : me ∈ watcher.listeners → host.faults = [] →
      Reachable b me others ⟨watcher, clock, ⟨Cache.empty, host⟩⟩
  | generate {s key force result after} : Reachable b me others s →
      Request.Ends (.start b key force none) s.audience result after →
      Reachable b me others { s with audience := after }
  | clear {s} : Reachable b me others s →
      Reachable b me others { s with audience := (clearCache s.audience).2 }
  | change {s} {c : Change} : Reachable b me others s → c.isPossible s.audience.host.disk = true →
      c.isWatched s.watcher = true → Reachable b me others (s.afterChange (hearing me others) c)

section Runs

variable {b : Bundler} {me : κ} {others : κ → String → Except String Unit} {path : String}
  {s : Site κ Bundle.Site}

theorem tell_hearing {listeners : OrderedSet κ} (registered : me ∈ listeners)
    (audience : Bundle.Site) :
    tell (hearing me others) path listeners.toList audience = (onSourceChanged path audience).2 := by
  have alone : ∀ k, k ≠ me → ∀ a, (hearing me others k path a).2 = a := by
    intro k other a
    rw [hearing, if_neg other]
  rw [tell_of_mem listeners.nodup registered alone, hearing, if_pos rfl]

/-- The bundler listens, and its cache is truthful. -/
structure Sound (b : Bundler) (me : κ) (s : Site κ Bundle.Site) : Prop where
  listens : me ∈ s.watcher.listeners
  truthful : Truthful b s.audience

variable (others) in
/-- An accepted change that invalidates puts everything right, whatever the cache held. -/
theorem sound_of_heard (listens : me ∈ s.watcher.listeners) (calm : s.audience.host.faults = [])
    (accepted : s.watcher.isAccepted path = true) :
    Sound b me (s.change (hearing me others) path true).2 ∧
      ∀ other, (s.change (hearing me others) path true).2.watcher.isAccepted other =
        s.watcher.isAccepted other := by
  rw [Site.change_of_accepted accepted, if_pos rfl, tell_hearing listens]
  exact ⟨⟨listens, truthful_cleared (onSourceChanged_does path) calm⟩, fun _ => rfl⟩

/-- Every change leaves the cache truthful: creation because it takes nothing away, all else because
the bundler hears of it. -/
theorem Sound.afterChange {c : Change} (sound : Sound b me s)
    (possible : c.isPossible s.audience.host.disk = true)
    (watched : c.isWatched s.watcher = true) :
    Sound b me (s.afterChange (hearing me others) c) := by
  let changed : Site κ Bundle.Site :=
    { s with audience := withFiles s.audience (c.apply s.audience.host.disk) }
  have listens : me ∈ changed.watcher.listeners := sound.listens
  have calm : changed.audience.host.faults = [] := sound.truthful.idle.calm
  change Sound b me (changed.handle (hearing me others) c.event)
  cases c with
  | create path content =>
    cases absent : s.audience.host.disk.find path with
    | ok entry =>
      rw [Change.isPossible, absent] at possible
      cases possible
    | error e =>
      change Sound b me (changed.handle _ ⟨.created, path, none, false⟩)
      rw [Site.handle_created (s := changed) watched]
      exact ⟨listens, sound.truthful.withFiles (extends_put absent _)⟩
  | rewrite path content => exact (sound_of_heard others (s := changed) listens calm watched).1
  | remove path => exact (sound_of_heard others (s := changed) listens calm watched).1
  | rename path destination =>
    obtain ⟨left, entered⟩ := (Bool.and_eq_true _ _).mp watched
    have source := sound_of_heard (b := b) others (s := changed) listens calm left
    obtain ⟨once, same⟩ := source
    change Sound b me (changed.handle _ ⟨.moved, path, some destination, false⟩)
    rw [Site.handle_moved]
    split
    next => exact once
    next =>
      have still := (same destination).trans entered
      exact (sound_of_heard others once.listens once.truthful.idle.calm still).1

theorem Reachable.sound (untimed : b.Untimed) (reached : Reachable b me others s) :
    Sound b me s := by
  induction reached with
  | start listens calm => exact ⟨listens, truthful_empty calm⟩
  | @generate s key force result after _ ends ih =>
    obtain ⟨_, last, -, own, truthful⟩ := ih.truthful.ends untimed key force
    rw [(ends.unique own).2]
    exact ⟨ih.listens, truthful⟩
  | clear _ ih => exact ⟨ih.listens, truthful_cleared clearCache_does ih.truthful.idle.calm⟩
  | change _ possible watched ih => exact ih.afterChange possible watched

/-- Watched caching is transparent: wherever a run has come to, every request has an answer, text or
error, and it is the answer that an empty cache gives on the files of that moment. -/
theorem watched_caching_transparent (untimed : b.Untimed) (reached : Reachable b me others s) :
    (∀ key force, (∃ result, b.Answers key force s.audience result) ∧
      ∀ result, b.Answers key force s.audience result ↔
        b.Answers key force ⟨Cache.empty, .ofDisk s.audience.host.disk⟩ result) ∧
    -- Yet new files leave the cache as it is.
    ∀ path content, s.watcher.isAccepted path = true →
      (s.afterChange (hearing me others) (.create path content)).audience.cache =
        s.audience.cache := by
  have truthful := (reached.sound untimed).truthful
  have fresh : Truthful b ⟨Cache.empty, .ofDisk s.audience.host.disk⟩ := truthful_empty rfl
  constructor
  · intro key force
    constructor
    · obtain ⟨result, after, -, ends, -⟩ := truthful.ends untimed key force
      exact ⟨result, after, ends⟩
    · intro result
      rw [truthful.answers untimed, fresh.answers untimed]
      rfl
  · intro path content accepted
    let changed : Site κ Bundle.Site :=
      { s with audience := withFiles s.audience (s.audience.host.disk.put path (.file content)) }
    change (changed.handle _ ⟨.created, path, none, false⟩).audience.cache = _
    rw [Site.handle_created (s := changed) accepted]
    rfl

/-- A bundle is built, a file appears, and a file of the bundle is rewritten. -/
theorem watched_caching_transparent_rewritten :
    let b : Bundler := ⟨{ Settings.default with minify := false }⟩
    let key : Cache.Key := ⟨"/p", "m.js"⟩
    let old := "\n// File: m.js\nrequire('./a.js')\n\n// File: a.js\nold\n"
    let new := "\n// File: m.js\nrequire('./a.js')\n\n// File: a.js\nnew\n"
    let others : Bool → String → Except String Unit := fun _ _ => .error "deaf"
    let disk := (Disk.empty.put "/p/m.js" (.file "require('./a.js')".toUTF8)).put "/p/a.js"
      (.file "old".toUTF8)
    let watcher : Watcher Bool :=
      ⟨Watcher.rootOf "/p", .ofList [".js"], ∅, ∅, .ofList [false, true], ∅⟩
    let opened : Site Bool Bundle.Site := ⟨watcher, ⟨0.0, 1.0⟩, ⟨Cache.empty, .ofDisk disk⟩⟩
    let built : Site Bool Bundle.Site :=
      { opened with audience := ((Request.start b key false none).advanceBy 16 opened.audience).2 }
    let grown := built.afterChange (hearing true others) (.create "/p/b.js" "new".toUTF8)
    let edited := grown.afterChange (hearing true others) (.rewrite "/p/a.js" "new".toUTF8)
    b.Untimed ∧ Reachable b true others grown ∧ Reachable b true others edited ∧
      grown.audience.cache.entries.get? key = some old ∧
      b.Answers key false edited.audience (.ok new) ∧
      b.Answers key false ⟨Cache.empty, .ofDisk edited.audience.host.disk⟩ (.ok new) := by
  intro b key old new others disk watcher opened built grown edited
  have untimed : b.Untimed := ⟨_, rfl, by decide +kernel⟩
  have first : ((Request.start b key false none).advanceBy 16 opened.audience).1.result?.bind
      Except.toOption = some old := by decide +kernel
  have second : ((Request.start b key false none).advanceBy 16 edited.audience).1.result?.bind
      Except.toOption = some new := by decide +kernel
  have listens : true ∈ opened.watcher.listeners := by decide +kernel
  have reached : Reachable b true others built :=
    .generate (.start listens rfl) (Request.ends_of_advanceBy 16 (Request.result?_of_toOption first))
  have appeared : Reachable b true others grown :=
    .change reached (by decide +kernel) (by decide +kernel)
  have rewritten : Reachable b true others edited :=
    .change appeared (by decide +kernel) (by decide +kernel)
  have answered : b.Answers key false edited.audience (.ok new) :=
    ⟨_, Request.ends_of_advanceBy 16 (Request.result?_of_toOption second)⟩
  have fresh := ((watched_caching_transparent untimed rewritten).1 key false).2 (.ok new)
  exact ⟨untimed, appeared, rewritten, by decide +kernel, answered, fresh.mp answered⟩

end Runs

end Watch
end ModuleBundler
