import ModuleBundler.Proofs.Bundle.Sequence
import ModuleBundler.Proofs.Source.Order

/-! The content of a bundle. The first pass of a build is a walk of its resolver, and the
second reads what the walk has seen once more; this holds step by step, whatever faults
and tokens do. Without them the bundle holds the depth-first order of what its entry
file reaches, and a path without a text ends the build where the order first meets it. -/
namespace ModuleBundler

open Source ModuleBundler.Bundle Cancellation ModuleBundler.Path

namespace Bundle

namespace Build

/-- How a build comes to its end from what a step has come to. -/
inductive Resumes (p : Plan) : Outcome × Host → Except Failure String → Host → Prop where
  | built {text h} : Resumes p (.built text, h) (.ok text) h
  | failed {e h} : Resumes p (.failed e, h) (.error e) h
  | going {next h result after} : Ends p next h result after →
      Resumes p (.going next, h) result after

/-- What a build does with the answer of a reading. -/
def proceed (p : Plan) (next : String → StateM Host Outcome) :
    Except ReadError String → StateM Host Outcome
  | .ok content => next content
  | .error e => fail p (.unreadable e)

/-- What a build does at the end of its walk. -/
def conclude (p : Plan) (seen : OrderedSet String) : Except DiscoveryError Unit → StateM Host Outcome
  | .ok _ => collect p seen.toList [] seen.toList
  | .error e => fail p e

/-- What a build that reads a file does with the outcome of an attempt. -/
def attempted (p : Plan) (stage : Reading → Build) (next : String → StateM Host Outcome)
    {reading : Reading} : Reading.Outcome reading → StateM Host Outcome
  | .done content => next content
  | .failed e => fail p (.unreadable e)
  | .again further _ => return .going (stage further)

/-- A stage in which a build reads a file: each of its steps makes one attempt. -/
def Stage (p : Plan) (path : String) (stage : Reading → Build) (next : String → StateM Host Outcome) :
    Prop :=
  ∀ reading h, reading.path = path → (stage reading).advance p h =
    attempted p stage next (reading.perform p.resolver.reader h).1
      (reading.perform p.resolver.reader h).2

variable {p : Plan} {b : Build} {path : String} {h after : Host} {result : Except Failure String}
  {stage : Reading → Build} {next : String → StateM Host Outcome}

theorem ends_iff_resumes : Ends p b h result after ↔ Resumes p (b.advance p h) result after := by
  constructor
  · intro ends
    cases ends with
    | built outcome =>
      rw [show b.advance p h = (_, (b.advance p h).2) from Prod.ext outcome rfl]
      exact .built
    | failed outcome =>
      rw [show b.advance p h = (_, (b.advance p h).2) from Prod.ext outcome rfl]
      exact .failed
    | going outcome rest =>
      rw [show b.advance p h = (_, (b.advance p h).2) from Prod.ext outcome rfl]
      exact .going rest
  · intro resumes
    generalize step : b.advance p h = reached at resumes
    have outcome := congrArg Prod.fst step
    have host := congrArg Prod.snd step
    cases resumes with
    | built =>
      subst host
      exact .built outcome
    | failed =>
      subst host
      exact .failed outcome
    | going rest =>
      subst host
      exact .going outcome rest

/-- The steps of a stage are one reading of its file. -/
theorem Stage.ends (staged : Stage p path stage next) {reading : Reading}
    (here : reading.path = path)
    (resumes : Resumes p (proceed p next (reading.finish p.resolver.reader h).1
      (reading.finish p.resolver.reader h).2) result after) :
    Ends p (stage reading) h result after := by
  induction left : reading.left using Nat.strongRecOn generalizing reading h with
  | ind n ih =>
    rw [Reading.finish, bind_apply] at resumes
    apply ends_iff_resumes.mpr
    rw [staged reading h here]
    cases outcome : (reading.perform p.resolver.reader h).1 with
    | done text =>
      rw [outcome] at resumes
      exact resumes
    | failed e =>
      rw [outcome] at resumes
      exact resumes
    | again further fewer =>
      rw [outcome] at resumes
      have same := (path_of_perform outcome).trans here
      exact .going (ih further.left (left ▸ fewer) same resumes rfl)

theorem Stage.begins (staged : Stage p path stage next)
    (resumes : Resumes p (proceed p next (p.resolver.reader.readText path h).1
      (p.resolver.reader.readText path h).2) result after) :
    Resumes p (.going (stage (Reading.begin p.resolver.reader path h).1),
      (Reading.begin p.resolver.reader path h).2) result after :=
  .going (staged.ends rfl resumes)

/-- How discovery goes on with the text of a file. -/
def supply (p : Plan) (walk : Walk) (path content : String) : StateM Host Outcome := do
  return .going (.discovering ⟨walk.supply path (← p.resolver.importsOf path content), none⟩)

theorem discovering_stage (p : Plan) (walk : Walk) (path : String) :
    Stage p path (fun reading => .discovering ⟨walk, some reading⟩) (supply p walk path) := by
  rintro reading h rfl
  rw [Build.advance, Discovery.advance, bind_apply]
  dsimp only
  rw [bind_apply]
  cases (reading.perform p.resolver.reader h).1 <;> rfl

/-- How collection goes on with the text of a file. -/
def gather (p : Plan) (files rest sections : List String) (path content : String) :
    StateM Host Outcome :=
  collect p files (sections ++ [sectionText p.root path content]) rest

theorem collecting_stage (p : Plan) (files rest sections : List String) (path : String) :
    Stage p path (fun reading => .collecting files rest reading sections)
      (gather p files rest sections path) := by
  rintro reading h rfl
  rw [Build.advance, bind_apply]
  cases (reading.perform p.resolver.reader h).1 <;> rfl

section Walk

variable {stack : List String} {t last : Trace Host} {found : Except DiscoveryError Unit}

theorem advance_of_seen (old : path ∈ t.seen) {rest : List String} :
    (Build.discovering ⟨⟨path :: rest, t.seen, t.edges⟩, none⟩).advance p h =
      (Build.discovering ⟨⟨rest, t.seen, t.edges⟩, none⟩).advance p h := by
  rw [Build.advance, Build.advance, Discovery.advance, Discovery.advance]
  dsimp only
  rw [next?_of_seen old]
  cases (⟨rest, t.seen, t.edges⟩ : Walk).next? <;> rfl

/-- How discovery goes on at a fresh path with the answer to its request for leave. -/
def enter (p : Plan) (walk : Walk) (path : String) : Except DiscoveryError Unit → StateM Host Outcome
  | .error stop => fail p stop
  | .ok _ => do
    return .going (.discovering ⟨walk.enter path, some (← Reading.begin p.resolver.reader path)⟩)

theorem advance_of_fresh (fresh : path ∉ t.seen) {rest : List String} :
    (Build.discovering ⟨⟨path :: rest, t.seen, t.edges⟩, none⟩).advance p h =
      enter p ⟨rest, t.seen, t.edges⟩ path (Resolver.leave p.token h).1
        (Resolver.leave p.token h).2 := by
  rw [Build.advance, Discovery.advance, bind_apply]
  dsimp only
  rw [next?_of_fresh fresh]
  dsimp only
  rw [bind_apply]
  cases (Resolver.leave p.token h).1 <;> rfl

theorem ends_of_leave {rest : List String} {s : Host} (fresh : path ∉ t.seen)
    (leave : Resolver.leave p.token h = (.ok (), s))
    (resumes : Resumes p (proceed p (supply p ⟨rest, t.seen.insert path, t.edges⟩ path)
      (p.resolver.reader.readText path s).1 (p.resolver.reader.readText path s).2) result after) :
    Ends p (.discovering ⟨⟨path :: rest, t.seen, t.edges⟩, none⟩) h result after := by
  rw [ends_iff_resumes, advance_of_fresh fresh, leave]
  exact (discovering_stage p ⟨rest, t.seen.insert path, t.edges⟩ path).begins resumes

/-- The first pass of a build is a walk of its resolver. -/
theorem ends_of_walks (walks : Walks (p.resolver.surroundings p.token) p.resolver.extensions stack t
      found last) (resumes : Resumes p (conclude p last.seen found last.state) result after) :
    Ends p (.discovering ⟨⟨stack, t.seen, t.edges⟩, none⟩) t.state result after := by
  -- Along the run of the walk: its budget and the number of attempts to read do not count.
  induction walks with
  | nil => exact ends_iff_resumes.mpr resumes
  | seen old _ ih =>
    rw [ends_iff_resumes, advance_of_seen old, ← ends_iff_resumes]
    exact ih resumes
  | @error path rest t failure last fresh visited =>
    have outcome := visited_visit (p.resolver.surroundings p.token) p.resolver.extensions path t
    rw [visited] at outcome
    cases outcome with
    | refused leave =>
      dsimp only [Resolver.surroundings] at leave
      rw [ends_iff_resumes, advance_of_fresh fresh, leave]
      exact resumes
    | @unread _ s _ leave read =>
      refine ends_of_leave fresh leave ?_
      obtain ⟨answered, rfl⟩ := readText_of_read read
      cases answer : (p.resolver.reader.readText path s).1 with
      | ok content =>
        rw [answer] at answered
        cases answered
      | error e =>
        rw [answer] at answered
        cases answered
        exact resumes
  | @visit path rest t found next _ _ fresh visited _ ih =>
    have outcome := visited_visit (p.resolver.surroundings p.token) p.resolver.extensions path t
    rw [visited] at outcome
    cases outcome with
    | @read content _ s last leave read same =>
      refine ends_of_leave fresh leave ?_
      obtain ⟨answered, rfl⟩ := readText_of_read read
      cases answer : (p.resolver.reader.readText path s).1 with
      | ok content =>
        rw [answer] at answered
        cases answered
        subst same
        exact .going (ih resumes)
      | error e =>
        rw [answer] at answered
        cases answered

end Walk

section Order

variable {d : Disk} {rest contents order : List String}

/-- Without faults, the second pass reads all that have a text, each once, and puts their sections
together. -/
theorem resumes_of_collect (files sections : List String) (calm : h.faults = []) (same : h.disk = d)
    (normal : ∀ path ∈ rest, IsNormal path)
    (readable : List.Forall₂ (fun path content => p.resolver.reader.textOn? d path = some content)
      rest contents) :
    ∃ after, Resumes p (collect p files sections rest h) (.ok (assemble p.minify
        (sections ++ List.zipWith (sectionText p.root) rest contents))) after ∧
      after.visits = h.visits ++ rest := by
  induction readable generalizing h sections with
  | nil =>
    rw [List.zipWith_nil_left, List.append_nil]
    exact ⟨_, .built, (List.append_nil _).symm⟩
  | @cons path content rest contents found _ ih =>
    obtain ⟨here, others⟩ := List.forall_mem_cons.mp normal
    have follows := keepsFiles.readText p.resolver.reader path h
    have read := readText_of_calm calm (same.symm ▸ found)
    have visits := visits_readText here calm (same.symm ▸ found)
    obtain ⟨after, resumes, later⟩ := ih (sections ++ [sectionText p.root path content])
      (follows.calm calm) (follows.disk.trans same) others
    refine ⟨after, (collecting_stage p files rest sections path).begins ?_, ?_⟩
    · rw [read]
      rw [List.append_assoc, List.singleton_append] at resumes
      exact resumes
    · rw [later, visits, List.append_assoc, List.singleton_append]

theorem exists_contents {r : Reader} (all : ∀ path ∈ order, (r.textOn? d path).isSome = true) :
    ∃ contents,
      List.Forall₂ (fun path content => r.textOn? d path = some content) order contents := by
  induction order with
  | nil => exact ⟨[], .nil⟩
  | cons path rest ih =>
    obtain ⟨here, others⟩ := List.forall_mem_cons.mp all
    obtain ⟨content, found⟩ := Option.isSome_iff_exists.mp here
    obtain ⟨contents, found'⟩ := ih others
    exact ⟨content :: contents, .cons found found'⟩

/-- A build without token and faults: the files of the order, all of them read and then read again, or
the error of the first that has no text. -/
theorem exists_ends_of_order (untold : p.token = none) (calm : h.faults = [])
    (met : DepthFirst (p.resolver.importsOn h.disk) [] [absolute p.entryFile] order) :
    ∃ result after, Ends p (.start p) h result after ∧
    ((∃ contents,
        List.Forall₂ (fun path content => p.resolver.reader.textOn? h.disk path = some content)
          order contents ∧
        result = .ok (assemble p.minify (List.zipWith (sectionText p.root) order contents)) ∧
        after.visits = h.visits ++ order ++ order) ∨
      ∃ before path rest e attempts, order = before ++ path :: rest ∧
        (∀ earlier ∈ before, (p.resolver.reader.textOn? h.disk earlier).isSome = true) ∧
        p.resolver.reader.textOn? h.disk path = none ∧
        (p.resolver.reader.readText path (Host.ofDisk h.disk)).1 = .error e ∧
        result = .error (.build (.unreadable e) p.projectRoot p.entryPoint) ∧
        after.visits = h.visits ++ before ++ List.replicate (attempts + 1) path) := by
  obtain ⟨found, last, ending⟩ := p.resolver.exists_walkFrom p.token p.entryFile ∅ h
  have walks := walks_of_walk ((p.resolver.walkFrom_ending p.token _ _ h).symm.trans ending)
  have follows := walks.follows
  have start : ∀ path ∈ [absolute p.entryFile], IsNormal path :=
    List.forall_mem_singleton.mpr (isNormal_absolute p.entryFile)
  have normal : ∀ path ∈ order, IsNormal path := by
    intro path member
    obtain ⟨entry, here, reaches⟩ := met.reached path member
    exact Resolver.isNormal_of_reaches (start entry here) reaches
  have along : Along p.resolver h.disk order ⟨∅, [], h⟩ last found := by
    rw [untold] at walks
    exact walks.along calm rfl start met
  cases along with
  | finished all seen visits =>
    have seen : last.seen.toList = order := seen
    obtain ⟨contents, readable⟩ := exists_contents all
    obtain ⟨after, resumes, later⟩ := resumes_of_collect (p := p) last.seen.toList []
      (follows.calm calm) follows.disk normal readable
    rw [← seen] at resumes
    refine ⟨_, after, ends_of_walks walks resumes, .inl ⟨contents, readable, ?_, ?_⟩⟩
    · rw [List.nil_append, seen]
    · rw [later, visits]
  | @stopped before path rest e split all absent fails seen visits =>
    have here : IsNormal path := normal path (by simp [split])
    obtain ⟨n, attempts⟩ := exists_visits_readText p.resolver.reader here (Host.ofDisk h.disk)
    refine ⟨_, _, ends_of_walks walks .failed, .inr ⟨before, path, rest, e, n, split, all, absent,
      fails, rfl, ?_⟩⟩
    rw [attempts] at visits
    exact visits

end Order

end Build

/-- The content of a bundle, for every bundler without a time limit, every key and every host without
faults. What the entry file reaches has an order, depth first, the entry file ahead, each path once.
If all its paths have texts, the bundle is their sections in this order, minified if so set, and the
order is read twice. Otherwise the request fails with the error of the first path without a text, and
nothing is read after it. -/
theorem bundle_content {b : Bundler} {key : Cache.Key} {s : Site} {force : Bool} (idle : Idle s)
    (untimed : b.Untimed) (fresh : force = true ∨ s.cache.entries.get? key = none) :
    let root := absolute key.root
    let entry := absolute (join root key.entry)
    let textOf := b.reader.textOn? s.host.disk
    let importsOf := b.resolver.importsOn s.host.disk
    ∃ order result after, DepthFirst importsOf [] [entry] order ∧
      (∀ other, DepthFirst importsOf [] [entry] other → other = order) ∧
      order.head? = some entry ∧ order.Nodup ∧
      (∀ path, path ∈ order ↔ b.resolver.Reaches s.host.disk entry path) ∧
      (∀ path ∈ order, ∀ target ∈ importsOf path, target ∈ order) ∧
      Request.Ends (.start b key force none) s result after ∧
      ((∃ contents, List.Forall₂ (fun path content => textOf path = some content) order contents ∧
          let sections := List.zipWith (fun path content =>
            "\n// File: " ++ relative path root ++ "\n" ++ content ++ "\n") order contents
          result = .ok (if b.settings.minify then Script.minify (String.join sections)
            else String.join sections) ∧
          after.host.visits = s.host.visits ++ order ++ order) ∨
        ∃ before path rest e attempts, order = before ++ path :: rest ∧
          (∀ earlier ∈ before, (textOf earlier).isSome = true) ∧ textOf path = none ∧
          (b.reader.readText path (Host.ofDisk s.host.disk)).1 = .error e ∧
          result = .error (.build (.unreadable e) key.root key.entry) ∧
          after.host.visits = s.host.visits ++ before ++ List.replicate (attempts + 1) path) := by
  intro root entry textOf importsOf
  have normal : ∀ path ∈ [entry], IsNormal path :=
    List.forall_mem_singleton.mpr (isNormal_absolute (join root key.entry))
  obtain ⟨order, met⟩ := b.resolver.exists_order s.host.disk ∅ normal
  have met : DepthFirst importsOf [] [entry] order := met
  obtain ⟨later, head, -⟩ := (DepthFirst.cons_iff List.not_mem_nil).mp met
  obtain ⟨result, last, ends⟩ := build_terminates (b.plan key) (Host.ofDisk s.host.disk)
  obtain ⟨after, anew⟩ := idle.anew untimed fresh ⟨last, ends⟩
  obtain ⟨host, final, follows, before, build, told⟩ := anew.build
  obtain ⟨_, _, again, content⟩ := Build.exists_ends_of_order (p := b.plan key) (h := host) rfl
    (follows.calm idle.calm) (by rw [follows.disk]; exact met)
  obtain ⟨rfl, rfl⟩ := build.unique again
  rw [follows.disk, before, ← told] at content
  refine ⟨order, result, after, met, fun other met' => met'.unique met, head ▸ rfl,
    met.nodup List.nodup_nil, fun path => ?_, met.closed, anew.ends, content⟩
  have reached : path ∈ [] ++ order ↔ path ∈ [] ∨ ∃ start ∈ [entry],
      b.resolver.Reaches s.host.disk start path :=
    met.mem_iff fun _ none => absurd none List.not_mem_nil
  simpa using reached

/-- Two files that import each other, and one behind them that imports a file without script. -/
theorem bundle_content_cyclic :
    let b : Bundler := ⟨{ Settings.default with minify := false }⟩
    let disk := ((Disk.empty.put "/p/main.js" (.file "require('./a.js')".toUTF8)).put "/p/a.js"
      (.file "import('./lib/b.js') require('./main.js')".toUTF8)).put
      "/p/lib/b.js" (.file "require('./b.css')".toUTF8)
    let s : Site := ⟨.empty, Host.ofDisk disk⟩
    let key : Cache.Key := ⟨"/p", "main.js"⟩
    let entry := absolute (join (absolute "/p") "main.js")
    let order := ["/p/main.js", "/p/a.js", "/p/lib/b.js"]
    let text := "\n// File: main.js\nrequire('./a.js')\n" ++
      "\n// File: a.js\nimport('./lib/b.js') require('./main.js')\n" ++
      "\n// File: lib/b.js\nrequire('./b.css')\n"
    Idle s ∧ b.Untimed ∧ (false = true ∨ s.cache.entries.get? key = none) ∧
    DepthFirst (b.resolver.importsOn s.host.disk) [] [entry] order ∧
    ∃ after, Request.Ends (.start b key false none) s (.ok text) after ∧
      after.host.visits = order ++ order := by
  intro b disk s key entry order text
  have idle : Idle s := ⟨fun _ => rfl, rfl⟩
  have untimed : b.Untimed := ⟨_, rfl, by decide +kernel⟩
  have fresh : false = true ∨ s.cache.entries.get? key = none := .inr rfl
  have answered : (Request.advanceBy 15 (.start b key false none) s).1.result?.bind
      Except.toOption = some text := by decide +kernel
  have reads : (Request.advanceBy 15 (.start b key false none) s).2.host.visits =
      order ++ order := by decide +kernel
  have ends := Request.ends_of_advanceBy 15 (Request.result?_of_toOption answered)
  generalize Request.advanceBy 15 (.start b key false none) s = reached at answered reads ends
  obtain ⟨found, result, after, met, -, -, -, -, -, ends', content⟩ :=
    bundle_content idle untimed fresh
  obtain ⟨answer, rfl⟩ := ends'.unique ends
  rcases content with ⟨contents, -, -, visits⟩ | ⟨_, _, _, _, _, _, _, _, _, failed, _⟩
  · have same : order ++ order = found ++ found := reads.symm.trans visits
    have lengths := congrArg List.length same
    simp only [List.length_append] at lengths
    have order_eq : order = found := List.append_inj_left same (by omega)
    exact ⟨idle, untimed, fresh, order_eq ▸ met, _, ends, reads⟩
  · rw [answer] at failed
    cases failed

end Bundle
end ModuleBundler
