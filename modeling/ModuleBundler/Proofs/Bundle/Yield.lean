import ModuleBundler.Bundle.Request
import ModuleBundler.Proofs.Source.Files

/-! The text that files yield. It is described without hosts, tokens and faults: a
walk over the texts of the files, then one section for each file seen. A build
that succeeds comes to this text whatever happened on the way, as long as the
files stayed as they were; and without faults and token it succeeds, on every
host with these files alike. -/
namespace ModuleBundler

open Source ModuleBundler.Bundle Cancellation

namespace Source

/-- A walk over readable files, to its end. -/
inductive Walk.Completes (r : Resolver) (d : Disk) : Walk → Walk → Prop where
  | done {w} : w.next? = none → Completes r d w w
  | visit {w path next content final} : w.next? = some (path, next) →
      r.reader.textOn? d path = some content →
      Completes r d ((next.enter path).supply path (localImports r.extensions path content)) final →
      Completes r d w final

/-- What a step of discovery comes to, seen from the files. -/
inductive Discovery.Turn (r : Resolver) (files : Disk) (d : Discovery) : Discovery.Outcome → Prop where
  | read {reading content} : d.reading = some reading →
      r.reader.textOn? files reading.path = some content →
      Turn r files d (.going
        ⟨d.walk.supply reading.path (localImports r.extensions reading.path content), none⟩)
  | again {reading next : Reading} : d.reading = some reading → next.path = reading.path →
      next.left < reading.left → Turn r files d (.going { d with reading := some next })
  | enter {path next} {reading : Reading} : d.reading = none → d.walk.next? = some (path, next) →
      reading.path = path → Turn r files d (.going ⟨next.enter path, some reading⟩)
  | done : d.reading = none → d.walk.next? = none → Turn r files d (.done d.walk)
  | failed (walk e) : Turn r files d (.failed walk e)

theorem Discovery.turn (r : Resolver) (token : Option Token) (d : Discovery) (h : Host) :
    d.Turn r h.disk (d.advance r token h).1 := by
  unfold Discovery.advance
  cases current : d.reading with
  | some reading =>
    dsimp only
    rw [bind_apply]
    cases outcome : (reading.perform r.reader h).1 with
    | done content => exact .read current (textOn?_of_perform outcome)
    | failed e => exact .failed _ _
    | again next fewer => exact .again current (path_of_perform outcome) fewer
  | none =>
    dsimp only
    cases upcoming : d.walk.next? with
    | none => exact .done current upcoming
    | some found =>
      obtain ⟨path, next⟩ := found
      dsimp only
      rw [bind_apply]
      cases (Resolver.leave token h).1 with
      | error e => exact .failed _ _
      | ok _ => exact .enter current upcoming rfl

end Source

namespace Bundle

/-- The sections of files, if all of them are readable. -/
def Plan.sections? (p : Plan) (d : Disk) (files : List String) : Option (List String) :=
  files.mapM fun path => (p.resolver.reader.textOn? d path).map (sectionText p.root path)

def Plan.firstWalk (p : Plan) : Walk := .start (Path.absolute p.entryFile) ∅

/-- The bundle of a plan, as the files stand. -/
def Plan.Yields (p : Plan) (d : Disk) (text : String) : Prop :=
  ∃ walk sections, Walk.Completes p.resolver d p.firstWalk walk ∧
    p.sections? d walk.seen.toList = some sections ∧ text = assemble p.minify sections

/-- A build is on its way to what the files yield. -/
def Build.OnCourse (p : Plan) (d : Disk) : Build → Prop
  | .discovering ⟨walk, none⟩ => ∀ final, Walk.Completes p.resolver d walk final →
      Walk.Completes p.resolver d p.firstWalk final
  | .discovering ⟨walk, some reading⟩ => ∀ content final,
      p.resolver.reader.textOn? d reading.path = some content →
      Walk.Completes p.resolver d (walk.supply reading.path
        (localImports p.resolver.extensions reading.path content)) final →
      Walk.Completes p.resolver d p.firstWalk final
  | .collecting files rest reading sections =>
      ∃ walk before, Walk.Completes p.resolver d p.firstWalk walk ∧ files = walk.seen.toList ∧
        files = before ++ reading.path :: rest ∧ p.sections? d before = some sections

def Build.Outcome.OnCourse (p : Plan) (d : Disk) : Build.Outcome → Prop
  | .going next => next.OnCourse p d
  | .built text => p.Yields d text
  | .failed _ => True

variable {p : Plan} {d : Disk}

theorem start_onCourse (p : Plan) (d : Disk) : (Build.start p).OnCourse p d := fun _ completes =>
  completes

theorem collect_onCourse {walk : Walk} (before : List String) {rest sections : List String} (h : Host)
    (completes : Walk.Completes p.resolver d p.firstWalk walk)
    (files : walk.seen.toList = before ++ rest) (known : p.sections? d before = some sections) :
    (Build.collect p walk.seen.toList sections rest h).1.OnCourse p d := by
  cases rest with
  | nil =>
    rw [List.append_nil] at files
    exact ⟨walk, sections, completes, files ▸ known, rfl⟩
  | cons path rest => exact ⟨walk, before, completes, rfl, files, known⟩

/-- Every step of a build stays on course while the files stay. -/
theorem advance_onCourse {b : Build} (h : Host) (course : b.OnCourse p h.disk) :
    (b.advance p h).1.OnCourse p h.disk := by
  unfold Build.advance
  cases b with
  | discovering discovery =>
    dsimp only
    rw [bind_apply]
    have turn := discovery.turn p.resolver p.token h
    generalize (discovery.advance p.resolver p.token h).1 = outcome at turn
    obtain ⟨walk, current⟩ := discovery
    cases turn with
    | read reading found =>
      cases reading
      exact fun final completes => course _ final found completes
    | again reading same _ =>
      cases reading
      intro content final found completes
      rw [same] at found completes
      exact course content final found completes
    | enter reading upcoming same =>
      cases reading
      intro content final found completes
      rw [same] at found completes
      exact course final (.visit upcoming found completes)
    | done reading stopped =>
      cases reading
      have completes := course walk (.done stopped)
      exact collect_onCourse [] _ completes rfl rfl
    | failed walk e => trivial
  | collecting files rest reading sections =>
    obtain ⟨walk, before, completes, rfl, split, known⟩ := course
    dsimp only
    rw [bind_apply]
    cases outcome : (reading.perform p.resolver.reader h).1 with
    | failed e => trivial
    | again next fewer =>
      exact ⟨walk, before, completes, rfl, path_of_perform outcome ▸ split, known⟩
    | done content =>
      have found := textOn?_of_perform outcome
      refine collect_onCourse (before ++ [reading.path]) _ completes (by simp [split]) ?_
      simp only [Plan.sections?] at known ⊢
      simp [List.mapM_append, known, found]

section Ends

/-- A build carried out to its end on a host, and the host afterwards. -/
inductive Build.Ends (p : Plan) : Build → Host → Except Failure String → Host → Prop where
  | built {b h text} : (b.advance p h).1 = .built text → Ends p b h (.ok text) (b.advance p h).2
  | failed {b h e} : (b.advance p h).1 = .failed e → Ends p b h (.error e) (b.advance p h).2
  | going {b h next result after} : (b.advance p h).1 = .going next →
      Ends p next (b.advance p h).2 result after → Ends p b h result after

variable {b : Build} {h k after : Host} {result other : Except Failure String} {text : String}

theorem advance_keepsFiles (p : Plan) (b : Build) : KeepsFiles (b.advance p) :=
  keepsFiles.build p (leave_keepsFiles p.token) b

theorem advance_seesFiles (untold : p.token = none) (b : Build) : SeesFiles (b.advance p) :=
  seesFiles.build p (untold ▸ leave_seesFiles) b

theorem Build.Ends.follows (ends : Build.Ends p b h result after) : h.Follows after := by
  induction ends with
  | built | failed => exact advance_keepsFiles p _ _
  | going step _ ih => exact (advance_keepsFiles p _ _).trans ih

/-- A text that a build on course ends with is the one that the files yield. -/
theorem Build.Ends.yields (ends : Build.Ends p b h (.ok text) after)
    (course : b.OnCourse p h.disk) : p.Yields h.disk text := by
  generalize same : Except.ok text = result at ends
  induction ends with
  | @built b h text step =>
    cases same
    have reached := advance_onCourse h course
    rw [step] at reached
    exact reached
  | failed => cases same
  | @going b h next result after step _ ih =>
    have reached := advance_onCourse h course
    have files := (advance_keepsFiles p b h).disk
    rw [step] at reached
    rw [files] at ih
    exact ih reached same

theorem Build.Ends.unique (ends : Build.Ends p b h result after)
    (again : Build.Ends p b h other k) : result = other ∧ after = k := by
  induction ends with
  | built step =>
    cases again with
    | built step' =>
      rw [step] at step'
      cases step'
      exact ⟨rfl, rfl⟩
    | failed step' | going step' =>
      rw [step] at step'
      cases step'
  | failed step =>
    cases again with
    | failed step' =>
      rw [step] at step'
      cases step'
      exact ⟨rfl, rfl⟩
    | built step' | going step' =>
      rw [step] at step'
      cases step'
  | going step _ ih =>
    cases again with
    | going step' rest =>
      rw [step] at step'
      cases step'
      exact ih rest
    | built step' | failed step' =>
      rw [step] at step'
      cases step'

/-- Without token and faults, only the files count. -/
theorem Build.Ends.same (ends : Build.Ends p b h result after) (untold : p.token = none)
    (calm : h.faults = []) (calm' : k.faults = []) (files : h.disk = k.disk) :
    ∃ after, Build.Ends p b k result after := by
  induction ends generalizing k with
  | @built b h text step =>
    have alike := (advance_seesFiles untold b).same h k calm calm' files
    exact ⟨_, .built (alike.symm.trans step)⟩
  | @failed b h e step =>
    have alike := (advance_seesFiles untold b).same h k calm calm' files
    exact ⟨_, .failed (alike.symm.trans step)⟩
  | @going b h next result after step _ ih =>
    have alike := (advance_seesFiles untold b).same h k calm calm' files
    have first := advance_keepsFiles p b h
    have second := advance_keepsFiles p b k
    obtain ⟨last, ends⟩ := ih (first.calm calm) (second.calm calm')
      (by rw [first.disk, second.disk, files])
    exact ⟨last, .going (alike.symm.trans step) ends⟩

end Ends

section Complete

variable {h : Host} {text content : String}

theorem advance_enter {walk next : Walk} {path : String} (untold : p.token = none)
    (upcoming : walk.next? = some (path, next)) (h : Host) :
    (Build.advance p (.discovering ⟨walk, none⟩) h).1 =
      .going (.discovering ⟨next.enter path, some ⟨path, 0, p.resolver.reader.attempts - 1⟩⟩) := by
  rw [Build.advance, Discovery.advance, bind_apply]
  dsimp only
  rw [upcoming, untold]
  rfl

theorem advance_supply (walk : Walk) {reading : Reading} (calm : h.faults = [])
    (found : p.resolver.reader.textOn? h.disk reading.path = some content) :
    (Build.advance p (.discovering ⟨walk, some reading⟩) h).1 =
      .going (.discovering ⟨walk.supply reading.path
        (localImports p.resolver.extensions reading.path content), none⟩) := by
  rw [Build.advance, Discovery.advance, bind_apply]
  dsimp only
  rw [bind_apply, perform_of_calm calm found]
  rfl

theorem sections?_nil (p : Plan) (d : Disk) : p.sections? d [] = some [] := rfl

theorem sections?_cons {d : Disk} {path : String} {rest all : List String} :
    p.sections? d (path :: rest) = some all ↔ ∃ content more,
      p.resolver.reader.textOn? d path = some content ∧ p.sections? d rest = some more ∧
        all = sectionText p.root path content :: more := by
  simp only [Plan.sections?, List.mapM_cons, Option.bind_eq_bind, Option.bind_eq_some_iff,
    Option.map_eq_some_iff, Option.pure_def, Option.some.injEq]
  constructor
  · rintro ⟨_, ⟨content, found, rfl⟩, more, known, rfl⟩
    exact ⟨content, more, found, known, rfl⟩
  · rintro ⟨content, more, found, known, rfl⟩
    exact ⟨_, ⟨content, found, rfl⟩, more, known, rfl⟩

theorem advance_collect (files rest sections : List String) {reading : Reading}
    (calm : h.faults = [])
    (found : p.resolver.reader.textOn? h.disk reading.path = some content) :
    ∃ k, h.Follows k ∧ Build.advance p (.collecting files rest reading sections) h =
      Build.collect p files (sections ++ [sectionText p.root reading.path content]) rest k := by
  refine ⟨(reading.perform p.resolver.reader h).2, keepsFiles.perform _ reading h, ?_⟩
  rw [Build.advance, bind_apply, perform_of_calm calm found]

/-- Files that are all readable are collected to the end. -/
theorem collecting_ends {files rest sections more : List String} {reading : Reading}
    (calm : h.faults = [])
    (readable : p.sections? h.disk (reading.path :: rest) = some more) :
    ∃ after, Build.Ends p (.collecting files rest reading sections) h
      (.ok (assemble p.minify (sections ++ more))) after := by
  induction rest generalizing h reading sections more with
  | nil =>
    obtain ⟨content, last, found, known, rfl⟩ := sections?_cons.mp readable
    obtain ⟨k, -, step⟩ := advance_collect files [] sections calm found
    cases known
    exact ⟨_, .built (by rw [step]; rfl)⟩
  | cons path rest ih =>
    obtain ⟨content, others, found, known, rfl⟩ := sections?_cons.mp readable
    obtain ⟨k, -, step⟩ := advance_collect files (path :: rest) sections calm found
    let next : Reading := ⟨path, 0, p.resolver.reader.attempts - 1⟩
    let before := sections ++ [sectionText p.root reading.path content]
    have follows := advance_keepsFiles p (.collecting files (path :: rest) reading sections) h
    have going : (Build.advance p (.collecting files (path :: rest) reading sections) h).1 =
        .going (.collecting files rest next before) := by
      rw [step]
      rfl
    have remaining : ∃ after, Build.Ends p (.collecting files rest next before) _
        (.ok (assemble p.minify (before ++ others))) after :=
      ih (follows.calm calm) (follows.disk.symm ▸ known)
    obtain ⟨after, ends⟩ := remaining
    rw [List.append_assoc] at ends
    exact ⟨after, .going going ends⟩

/-- From wherever a walk over readable files stands, the build comes to its end. -/
theorem discovering_ends (untold : p.token = none) {walk final : Walk} {sections : List String}
    (completes : Walk.Completes p.resolver d walk final) (calm : h.faults = []) (files : h.disk = d)
    (readable : p.sections? d final.seen.toList = some sections) :
    ∃ after, Build.Ends p (.discovering ⟨walk, none⟩) h
      (.ok (assemble p.minify sections)) after := by
  induction completes generalizing h with
  | @done walk stopped =>
    have follows := advance_keepsFiles p (.discovering ⟨walk, none⟩) h
    have step : (Build.advance p (.discovering ⟨walk, none⟩) h).1 =
        (Build.collect p walk.seen.toList [] walk.seen.toList h).1 := by
      rw [Build.advance, Discovery.advance, bind_apply]
      dsimp only
      rw [stopped]
      rfl
    cases seen : walk.seen.toList with
    | nil =>
      rw [seen] at readable step
      cases readable
      exact ⟨_, .built step⟩
    | cons path rest =>
      rw [seen] at readable step
      have collected : ∃ after, Build.Ends p
          (.collecting (path :: rest) rest ⟨path, 0, p.resolver.reader.attempts - 1⟩ []) _
          (.ok (assemble p.minify ([] ++ sections))) after :=
        collecting_ends (follows.calm calm) (follows.disk.trans files ▸ readable)
      obtain ⟨after, ends⟩ := collected
      exact ⟨after, .going step ends⟩
  | @visit walk path next content final upcoming found _ ih =>
    let reading : Reading := ⟨path, 0, p.resolver.reader.attempts - 1⟩
    have entered := advance_enter untold upcoming h
    have first := advance_keepsFiles p (.discovering ⟨walk, none⟩) h
    have readableNow : p.resolver.reader.textOn? (Build.advance p (.discovering ⟨walk, none⟩) h).2.disk
        reading.path = some content := by
      rw [first.disk, files]
      exact found
    have supplied := advance_supply (next.enter path) (first.calm calm) readableNow
    have second := advance_keepsFiles p (.discovering ⟨next.enter path, some reading⟩)
      (Build.advance p (.discovering ⟨walk, none⟩) h).2
    obtain ⟨after, ends⟩ := ih (second.calm (first.calm calm))
      (second.disk.trans (first.disk.trans files)) readable
    exact ⟨after, .going entered (.going supplied ends)⟩

/-- Without token and faults, what files yield is built. -/
theorem Plan.Yields.ends (yields : p.Yields d text) (untold : p.token = none)
    (calm : h.faults = []) (files : h.disk = d) :
    ∃ after, Build.Ends p (.start p) h (.ok text) after := by
  obtain ⟨walk, sections, completes, readable, rfl⟩ := yields
  exact discovering_ends untold completes calm files readable

end Complete

section Growth

variable {r : Resolver} {e : Disk}

theorem completes_of_extends {walk final : Walk} (grown : d.Extends e)
    (completes : Walk.Completes r d walk final) : Walk.Completes r e walk final := by
  induction completes with
  | done stopped => exact .done stopped
  | visit upcoming found _ ih => exact .visit upcoming (textOn?_of_extends grown found) ih

theorem sections?_of_extends {files sections : List String} (grown : d.Extends e)
    (readable : p.sections? d files = some sections) : p.sections? e files = some sections := by
  induction files generalizing sections with
  | nil =>
    rw [sections?_nil] at readable ⊢
    exact readable
  | cons path rest ih =>
    obtain ⟨content, more, found, known, rfl⟩ := sections?_cons.mp readable
    exact sections?_cons.mpr ⟨content, more, textOn?_of_extends grown found, ih known, rfl⟩

/-- What files yield, they yield beside further ones: all that the bundle needs is there. -/
theorem Plan.Yields.of_extends {text : String} (yields : p.Yields d text) (grown : d.Extends e) :
    p.Yields e text := by
  obtain ⟨walk, sections, completes, readable, made⟩ := yields
  exact ⟨walk, sections, completes_of_extends grown completes, sections?_of_extends grown readable,
    made⟩

end Growth

end Bundle

namespace Bundler

/-- What is built for a key without a token. -/
def plan (b : Bundler) (key : Cache.Key) : Plan := (Request.start b key false none).plan none

/-- How a fresh build ends that only the files have a part in: no token, no time limit and no
fault. -/
def Builds (b : Bundler) (key : Cache.Key) (files : Disk) (result : Except Failure String) : Prop :=
  ∃ after, Build.Ends (b.plan key) (.start (b.plan key)) (Host.ofDisk files) result after

variable {b : Bundler} {key : Cache.Key} {files : Disk}

theorem Builds.unique {result other : Except Failure String} (built : b.Builds key files result)
    (again : b.Builds key files other) : result = other := by
  obtain ⟨_, ends⟩ := built
  obtain ⟨_, ends'⟩ := again
  exact (ends.unique ends').1

theorem builds_iff_yields {text : String} :
    b.Builds key files (.ok text) ↔ (b.plan key).Yields files text := by
  constructor
  · rintro ⟨after, ends⟩
    exact ends.yields (start_onCourse _ _)
  · intro yields
    exact yields.ends rfl rfl rfl

end Bundler
end ModuleBundler
