import ModuleBundler.Proofs.Bundle.Yield
import ModuleBundler.Proofs.Graph.Renaming
import ModuleBundler.Proofs.Path.Relative
import ModuleBundler.Proofs.Script.Sections
import ModuleBundler.Proofs.Source.Projection

/-! Names seen from a root. The graph of a walk under such names is its graph under
absolute paths with every path renamed, as long as no two files have one name. Two
files have one name only if their paths differ in a second leading slash and in
nothing else; the files of a walk may, and then the graph with a root is refused at
the second of them, where the graph without a root and the bundle hold both. -/
namespace ModuleBundler.Source

open ModuleBundler.Path ModuleBundler.Graph ModuleBundler.Bundle Relation

section Naming

variable {root : Option String} {d d' : Diagram}

/-- New files become modules under either naming, if the names they get are new too. -/
theorem addFiles_renames (start : String) {paths : List String}
    (renames : Diagram.Renames (moduleName root) d d')
    (distinct : (d'.ids ++ paths.map (moduleName root)).Nodup) (clock : Clock) :
    ∃ grown grown' : Diagram, (addFiles none start paths d.toGraph clock).1 = .ok grown.toGraph ∧
      (addFiles root start paths d'.toGraph clock).1 = .ok grown'.toGraph ∧
      Diagram.Renames (moduleName root) grown grown' ∧ grown.ids = d.ids ++ paths := by
  induction paths generalizing d d' clock with
  | nil => exact ⟨d, d', rfl, rfl, renames, (List.append_nil _).symm⟩
  | cons path rest ih =>
    let added : Module := ⟨path, .ofList [("path", .text path)], path == start, clock.now⟩
    have fresh' : moduleName root path ∉ d'.ids := fun old =>
      (List.nodup_append.mp distinct).2.2 _ old _ List.mem_cons_self rfl
    have fresh : path ∉ d.ids := fun old => fresh' (renames.ids ▸ List.mem_map_of_mem old)
    have ids : (d.add added fresh).ids = d.ids ++ [path] := List.map_append
    have ids' : (d'.add (added.rename (moduleName root)) fresh').ids =
        d'.ids ++ [moduleName root path] := List.map_append
    have later : ((d'.add (added.rename (moduleName root)) fresh').ids ++
        rest.map (moduleName root)).Nodup := by
      rwa [ids', List.append_assoc]
    obtain ⟨grown, grown', adds, adds', renamed, all⟩ :=
      ih (renames.add (m := added) fresh fresh') later (Clock.read clock).2
    refine ⟨grown, grown', ?_, ?_, renamed, ?_⟩
    · rw [addFiles]
      have first := Diagram.addModule_toGraph added fresh
      dsimp only [moduleName]
      rw [first]
      exact adds
    · rw [addFiles]
      have first := Diagram.addModule_toGraph (added.rename (moduleName root)) fresh'
      dsimp only [Module.rename] at first
      dsimp only
      rw [first]
      exact adds'
    · rw [all, ids, List.append_assoc]
      rfl

/-- Files are added up to the first whose name one before it has. -/
theorem addFiles_clash (start : String) {paths : List String}
    (clash : ¬ (d.ids ++ paths.map (moduleName root)).Nodup) (clock : Clock) :
    ∃ before path after, paths = before ++ path :: after ∧
      (d.ids ++ before.map (moduleName root)).Nodup ∧
      moduleName root path ∈ d.ids ++ before.map (moduleName root) ∧
      (addFiles root start paths d.toGraph clock).1 =
        .error (.duplicate (moduleName root path)) := by
  induction paths generalizing d clock with
  | nil => exact absurd ((List.append_nil _).symm ▸ d.nodup_ids) clash
  | cons path rest ih =>
    by_cases old : moduleName root path ∈ d.ids
    · refine ⟨[], path, rest, rfl, ?_, ?_, ?_⟩
      · rw [List.map_nil, List.append_nil]
        exact d.nodup_ids
      · exact List.mem_append_left _ old
      · rw [addFiles]
        dsimp only
        rw [addModule, Diagram.contains_toGraph, if_pos (by simpa using old)]
    · let added : Module :=
        ⟨moduleName root path, .ofList [("path", .text path)], path == start, clock.now⟩
      have ids : (d.add added old).ids = d.ids ++ [moduleName root path] := List.map_append
      obtain ⟨before, other, after, split, distinct, repeated, refused⟩ :=
        ih (d := d.add added old) (by rwa [ids, List.append_assoc]) (Clock.read clock).2
      rw [ids, List.append_assoc] at distinct repeated
      refine ⟨path :: before, other, after, by rw [split, List.cons_append], distinct, repeated, ?_⟩
      rw [addFiles]
      have first := Diagram.addModule_toGraph added old
      dsimp only at first ⊢
      rw [first]
      exact refused

/-- The edges of a walk, one by one. -/
theorem addImports_eq (root : Option String) (edges : List (String × List String)) (g : Graph) :
    addImports root edges g = (edges.flatMap fun e => e.2.map (e.1, ·)).foldlM
      (fun g e => g.addDependency (moduleName root e.1) (moduleName root e.2)) g := by
  induction edges generalizing g with
  | nil => rfl
  | cons e rest ih =>
    rw [addImports, List.foldlM_cons, List.flatMap_cons, List.foldlM_append, List.foldlM_map]
    exact congrArg _ (funext ih)

/-- Edges between known files go into the graph under either naming. -/
theorem addImports_renames {edges : List (String × List String)}
    (renames : Diagram.Renames (moduleName root) d d')
    (known : ∀ e ∈ edges, e.1 ∈ d.ids ∧ ∀ target ∈ e.2, target ∈ d.ids) :
    ∃ grown grown' : Diagram, addImports none edges d.toGraph = .ok grown.toGraph ∧
      addImports root edges d'.toGraph = .ok grown'.toGraph ∧
      Diagram.Renames (moduleName root) grown grown' := by
  have each : ∀ e ∈ edges.flatMap fun e => e.2.map (e.1, ·), e.1 ∈ d.ids ∧ e.2 ∈ d.ids := by
    intro e member
    obtain ⟨⟨source, targets⟩, inside, paired⟩ := List.mem_flatMap.mp member
    obtain ⟨target, imported, rfl⟩ := List.mem_map.mp paired
    exact ⟨(known _ inside).1, (known _ inside).2 target imported⟩
  simp only [addImports_eq]
  generalize (edges.flatMap fun e => e.2.map (e.1, ·)) = pairs at each
  induction pairs generalizing d d' with
  | nil => exact ⟨d, d', rfl, rfl, renames⟩
  | cons e rest ih =>
    obtain ⟨first, later⟩ := List.forall_mem_cons.mp each
    have first' : moduleName root e.1 ∈ d'.ids ∧ moduleName root e.2 ∈ d'.ids := by
      rw [renames.ids]
      exact ⟨List.mem_map_of_mem first.1, List.mem_map_of_mem first.2⟩
    obtain ⟨grown, grown', adds, adds', renamed⟩ :=
      ih (renames.connect first first') known later
    refine ⟨grown, grown', ?_, ?_, renamed⟩
    · rw [List.foldlM_cons]
      dsimp only [moduleName]
      rw [Diagram.addDependency_toGraph first]
      exact adds
    · rw [List.foldlM_cons, Diagram.addDependency_toGraph first']
      exact adds'

end Naming

section Projection

variable {root : Option String} {w : Walk}

theorem project_of_error {e : Graph.Error} {start : String} {h : Host}
    (refused : (addFiles root start w.seen.toList .empty h.wallClock).1 = .error e) :
    (w.project root start h).1 = .error e := by
  have added : (Host.withWallClock (addFiles root start w.seen.toList .empty) h).1 =
      .error e := refused
  rw [Walk.project, bind_apply, added]
  rfl

theorem project_of_ok {g grown : Graph} {start : String} {h : Host}
    (adds : (addFiles root start w.seen.toList .empty h.wallClock).1 = .ok g)
    (connects : addImports root w.edges g = .ok grown) :
    (w.project root start h).1 = .ok grown := by
  have added : (Host.withWallClock (addFiles root start w.seen.toList .empty) h).1 = .ok g := adds
  rw [Walk.project, bind_apply, added]
  dsimp only
  rw [connects]
  rfl

/-- Where all names differ, the graph of a walk is its graph under absolute paths, renamed. -/
theorem project_renames (root : Option String) (start : String) (h : Host)
    (files : w.seen.toList = w.edges.map (·.1))
    (closed : ∀ e ∈ w.edges, ∀ target ∈ e.2, target ∈ w.seen)
    (distinct : (w.seen.toList.map (moduleName root)).Nodup) :
    ∃ d d' : Diagram, (w.project none start h).1 = .ok d.toGraph ∧
      (w.project root start h).1 = .ok d'.toGraph ∧ Diagram.Renames (moduleName root) d d' := by
  obtain ⟨d, d', adds, adds', renames, ids⟩ :=
    addFiles_renames start (Diagram.renames_empty (moduleName root)) distinct h.wallClock
  have ids : d.ids = w.seen.toList := ids
  have known : ∀ e ∈ w.edges, e.1 ∈ d.ids ∧ ∀ target ∈ e.2, target ∈ d.ids := by
    intro e inside
    rw [ids]
    exact ⟨files ▸ List.mem_map_of_mem inside, closed e inside⟩
  obtain ⟨grown, grown', connects, connects', renamed⟩ := addImports_renames renames known
  exact ⟨grown, grown', project_of_ok adds connects, project_of_ok adds' connects', renamed⟩

/-- Where two names are the same, the walk is refused at the second of the files. -/
theorem project_clash (root : Option String) (start : String) (h : Host)
    (clash : ¬ (w.seen.toList.map (moduleName root)).Nodup) :
    ∃ before path after, w.seen.toList = before ++ path :: after ∧
      (before.map (moduleName root)).Nodup ∧
      moduleName root path ∈ before.map (moduleName root) ∧
      (w.project root start h).1 = .error (.duplicate (moduleName root path)) := by
  obtain ⟨before, path, after, split, distinct, repeated, refused⟩ :=
    addFiles_clash (d := .empty) start clash h.wallClock
  exact ⟨before, path, after, split, distinct, repeated, project_of_error refused⟩

variable {r : Resolver} {entry : String} {h : Host} {t : Trace Host}

/-- Whatever the root, the graph is projected from the one walk. -/
theorem buildGraph_eq
    (ending : (r.walkFrom none (.start (absolute entry) ∅) h).ending = (some (.ok ()), t)) :
    ∃ w : Walk, w.seen = t.seen ∧ w.edges = t.edges ∧ ∀ root : Option String,
      (r.buildGraph entry root none h).1 =
        some ((w.project (root.map absolute) (absolute entry) t.state).1.mapError .graph) := by
  unfold Resolver.buildGraph
  dsimp only
  generalize r.walkFrom none (.start (absolute entry) ∅) h = run at ending ⊢
  obtain ⟨walk, state, outcome⟩ := run
  cases ending
  exact ⟨walk, rfl, rfl, fun _ => rfl⟩

theorem buildGraph_renames (root : Option String)
    (ending : (r.walkFrom none (.start (absolute entry) ∅) h).ending = (some (.ok ()), t))
    (distinct : (t.seen.toList.map (moduleName (root.map absolute))).Nodup) :
    ∃ d d' : Diagram, (r.buildGraph entry none none h).1 = some (.ok d.toGraph) ∧
      (r.buildGraph entry root none h).1 = some (.ok d'.toGraph) ∧
      Diagram.Renames (moduleName (root.map absolute)) d d' := by
  obtain ⟨w, seen, edges, projected⟩ := buildGraph_eq ending
  obtain ⟨-, -, charted, -⟩ := buildGraph_of_ok ending
  have files : w.seen.toList = w.edges.map (·.1) := by
    rw [seen, edges]
    exact charted.files
  have closed : ∀ e ∈ w.edges, ∀ target ∈ e.2, target ∈ w.seen := by
    rw [seen, edges]
    exact charted.closed
  obtain ⟨d, d', bare, named, renames⟩ := project_renames (root.map absolute) (absolute entry)
    t.state files closed (seen ▸ distinct)
  refine ⟨d, d', (projected none).trans ?_, (projected root).trans ?_, renames⟩
  · rw [Option.map_none, bare]
    rfl
  · rw [named]
    rfl

theorem buildGraph_clash (root : Option String)
    (ending : (r.walkFrom none (.start (absolute entry) ∅) h).ending = (some (.ok ()), t))
    (clash : ¬ (t.seen.toList.map (moduleName (root.map absolute))).Nodup) :
    ∃ before path after, t.seen.toList = before ++ path :: after ∧
      (before.map (moduleName (root.map absolute))).Nodup ∧
      moduleName (root.map absolute) path ∈ before.map (moduleName (root.map absolute)) ∧
      (r.buildGraph entry root none h).1 =
        some (.error (.graph (.duplicate (moduleName (root.map absolute) path)))) := by
  obtain ⟨w, seen, -, projected⟩ := buildGraph_eq ending
  obtain ⟨before, path, after, split, distinct, repeated, refused⟩ :=
    project_clash (root.map absolute) (absolute entry) t.state (seen ▸ clash)
  refine ⟨before, path, after, seen ▸ split, distinct, repeated, (projected root).trans ?_⟩
  rw [refused]
  rfl

end Projection

section Reached

variable {r : Resolver} {d : Disk} {entry : String} {stack : List String} {t after : Trace Host}

/-- A walk meets paths in normal form only. -/
theorem Charted.normal (charted : Charted r d (absolute entry) stack t) {path : String}
    (seen : path ∈ t.seen) : IsNormal path := by
  have reached := charted.reached path (.inl seen)
  clear seen
  induction reached with
  | refl => exact isNormal_absolute entry
  | tail _ imports ih =>
    obtain ⟨e, inside, rfl, imported⟩ := imports
    obtain ⟨content, -, found⟩ := charted.read e inside
    exact isNormal_of_mem_localImports ih (found ▸ imported)

theorem Charted.readable (charted : Charted r d (absolute entry) stack t) :
    ∀ path ∈ t.seen.toList, ∃ content, r.reader.textOn? d path = some content := by
  intro path seen
  rw [charted.files] at seen
  obtain ⟨e, inside, rfl⟩ := List.mem_map.mp seen
  obtain ⟨content, found, -⟩ := charted.read e inside
  exact ⟨content, found⟩

theorem completes_of_next? {w w' final : Walk} (completes : Walk.Completes r d w final)
    (same : w.next? = w'.next?) (seen : w.seen = w'.seen) :
    ∃ final', Walk.Completes r d w' final' ∧ final'.seen = final.seen := by
  cases completes with
  | done stopped => exact ⟨w', .done (same ▸ stopped), seen.symm⟩
  | visit upcoming found later => exact ⟨final, .visit (same ▸ upcoming) found later, rfl⟩

/-- A walk that succeeds has a description without host. -/
theorem Walks.completes {result : Except DiscoveryError Unit}
    (walks : Walks (r.surroundings none) r.extensions stack t result after)
    (disk : t.state.disk = d) (succeeds : result = .ok ()) :
    ∃ final, Walk.Completes r d ⟨stack, t.seen, t.edges⟩ final ∧ final.seen = after.seen := by
  induction walks with
  | @nil t => exact ⟨⟨[], t.seen, t.edges⟩, .done rfl, rfl⟩
  | @seen path rest t result after old walks ih =>
    obtain ⟨final, completes, seen⟩ := ih disk succeeds
    obtain ⟨final', completes', seen'⟩ := completes_of_next? completes (next?_of_seen old).symm rfl
    exact ⟨final', completes', seen'.trans seen⟩
  | error fresh visited => cases succeeds
  | @visit path rest t found next result after fresh visited walks ih =>
    obtain ⟨content, readable, imports, seen, edges, kept⟩ := visit_of_ok visited
    obtain ⟨final, completes, ends⟩ := ih (kept.trans disk) succeeds
    rw [seen, edges, imports] at completes
    exact ⟨final, .visit (next?_of_fresh fresh) (disk ▸ readable) completes, ends⟩

theorem sections?_of_readable (p : Plan) {files : List String}
    (readable : ∀ path ∈ files, ∃ content, p.resolver.reader.textOn? d path = some content) :
    ∃ contents, List.Forall₂ (fun path content => p.resolver.reader.textOn? d path = some content)
        files contents ∧
      p.sections? d files = some (List.zipWith (sectionText p.root) files contents) := by
  induction files with
  | nil => exact ⟨[], .nil, rfl⟩
  | cons path rest ih =>
    obtain ⟨⟨content, found⟩, later⟩ := List.forall_mem_cons.mp readable
    obtain ⟨contents, each, known⟩ := ih later
    exact ⟨content :: contents, .cons found each,
      sections?_cons.mpr ⟨content, _, found, known, rfl⟩⟩

/-- The bundle of a walk that succeeds: a section for every file seen, in their order. -/
theorem builds_of_walk {b : Bundler} {key : Cache.Key} (plain : b.settings.minify = false)
    (entered : absolute (join (absolute key.root) key.entry) = absolute entry)
    (ending : (b.resolver.walkFrom none (.start (absolute entry) ∅) h).ending =
      (some (.ok ()), t)) :
    ∃ contents, List.Forall₂ (fun path content =>
        b.resolver.reader.textOn? h.disk path = some content) t.seen.toList contents ∧
      b.Builds key h.disk (.ok (String.join (List.zipWith Script.labelled
        (t.seen.toList.map fun path => relative path (absolute key.root)) contents))) := by
  have walks := walks_of_walk ((b.resolver.walkFrom_ending none _ _ h).symm.trans ending)
  obtain ⟨final, completes, seen⟩ := walks.completes rfl rfl
  obtain ⟨contents, each, known⟩ :=
    sections?_of_readable (b.plan key) (Charted.ends walks (.init h) rfl).readable
  have first : (b.plan key).firstWalk = ⟨[absolute entry], ∅, []⟩ :=
    congrArg (Walk.start · ∅) entered
  have sections : List.zipWith Script.labelled
      (t.seen.toList.map fun path => relative path (absolute key.root)) contents =
        List.zipWith (sectionText (absolute key.root)) t.seen.toList contents := by
    rw [List.zipWith_map_left]
    rfl
  have unminified : (b.plan key).minify = false := plain
  refine ⟨contents, each, Bundler.builds_iff_yields.mpr ⟨final,
    List.zipWith (sectionText (absolute key.root)) t.seen.toList contents, ?_, seen ▸ known, ?_⟩⟩
  · rw [first]
    exact completes
  · rw [assemble, unminified, if_neg Bool.false_ne_true, sections]

end Reached

/-- Some file is also there under a second leading slash. -/
def Doubled (files : List String) : Prop := ∃ path ∈ files, "/" ++ path ∈ files

/-- From one place, different files have different names unless one is there twice. -/
theorem nodup_names_iff {files : List String} (distinct : files.Nodup)
    (normal : ∀ path ∈ files, IsNormal path) (start : String) :
    (files.map fun path => relative path start).Nodup ↔ ¬ Doubled files := by
  constructor
  · rintro apart ⟨path, single, double⟩
    have same : relative path start = relative ("/" ++ path) start :=
      (relative_eq_iff (normal _ single) (normal _ double) start).mpr (.inr (.inl rfl))
    have twins := List.inj_on_of_nodup_map apart single double same
    simpa using congrArg String.length twins
  · intro single
    refine List.Nodup.map_on (fun path first other second same => ?_) distinct
    rcases (relative_eq_iff (normal _ first) (normal _ second) start).mp same with
      rfl | rfl | rfl
    · rfl
    · exact absurd ⟨path, first, second⟩ single
    · exact absurd ⟨other, second, first⟩ single

/-- Names seen from a root rename the graph of an entry file, and label its bundle, without a clash
as long as no file is met under one leading slash and under two. If one is, the graph with a root is
refused, though the files are resolved and bundled and the graph without a root is built. -/
theorem relative_names_rename (r : Resolver) (entry root : String) {h k : Host}
    (calm : h.faults = []) (calm' : k.faults = []) (same : k.disk = h.disk) :
    let name := fun path => relative path (absolute root)
    let found := (r.resolve entry ∅ none h).1.outcome
    let bare := (r.buildGraph entry none none k).1
    let built := (r.buildGraph entry (some root) none k).1
    (∃ e, found = some (.error e) ∧ bare = some (.error (.discovery e)) ∧
      built = some (.error (.discovery e))) ∨
    ∃ files g, found = some (.ok files) ∧ bare = some (.ok g) ∧
      (∀ path ∈ files, ∀ other ∈ files, name path = name other ↔
        path = other ∨ other = "/" ++ path ∨ path = "/" ++ other) ∧
      (¬ Doubled files → (files.map name).Nodup ∧ ∃ renamed, built = some (.ok renamed) ∧
        Graph.Renames name g renamed ∧ renamed.moduleIds = files.map name) ∧
      (Doubled files → ∃ before path after, files = before ++ path :: after ∧
        (before.map name).Nodup ∧ name path ∈ before.map name ∧
        built = some (.error (.graph (.duplicate (name path))))) ∧
      ∀ (b : Bundler) (key : Cache.Key), b.resolver = r → b.settings.minify = false →
        key.root = root → absolute (join (absolute root) key.entry) = absolute entry →
        ∃ contents, List.Forall₂ (fun path content =>
            (r.reader.readText path h).1 = .ok content) files contents ∧
          b.Builds key h.disk
            (.ok (String.join (List.zipWith Script.labelled (files.map name) contents))) := by
  intro name found bare built
  obtain ⟨result, t, ending⟩ := r.exists_walkFrom none entry ∅ k
  have found_eq : found = some (result.map fun _ => t.seen.toList) := by
    obtain ⟨ends, seen⟩ := walkFrom_of_calm r calm calm' same (absolute entry)
    refine (outcome_resolve r entry h).trans ?_
    rw [ends, seen, ending]
    rfl
  cases result with
  | error e =>
    left
    exact ⟨e, found_eq, buildGraph_of_error ending, buildGraph_of_error ending⟩
  | ok _ =>
    right
    obtain ⟨d, bare_eq, charted, ids, -⟩ := buildGraph_of_ok ending
    have distinct_iff : (t.seen.toList.map name).Nodup ↔ ¬ Doubled t.seen.toList :=
      nodup_names_iff t.seen.nodup (fun _ => charted.normal) (absolute root)
    refine ⟨t.seen.toList, d.toGraph, found_eq, bare_eq, fun path first other second =>
      relative_eq_iff (charted.normal first) (charted.normal second) (absolute root), ?_, ?_, ?_⟩
    · intro single
      have distinct := distinct_iff.mpr single
      obtain ⟨d₀, d', bare_eq', built_eq, renames⟩ :=
        buildGraph_renames (some root) ending distinct
      have same : d₀.toGraph = d.toGraph := by
        injection bare_eq'.symm.trans bare_eq with result
        injection result
      have renamed : Graph.Renames name d.toGraph d'.toGraph := same ▸ renames.toGraph
      refine ⟨distinct, d'.toGraph, built_eq, renamed, ?_⟩
      rw [renamed.moduleIds, Diagram.moduleIds_toGraph, ids]
    · intro doubled
      have clash : ¬ (t.seen.toList.map name).Nodup := fun distinct =>
        distinct_iff.mp distinct doubled
      exact buildGraph_clash (some root) ending clash
    · rintro b key rfl plain rfl entered
      obtain ⟨contents, each, builds⟩ := builds_of_walk plain entered ending
      rw [same] at each builds
      exact ⟨contents, each.imp fun _ _ => readText_of_calm calm, builds⟩

/-- Three files, one of them outside the root; two import each other. -/
theorem relative_names_rename_outside :
    let b : Bundler := ⟨{ Settings.default with minify := false }⟩
    let disk := ((Disk.empty.put "/p/main.js" (.file
        "require('./lib/a.js')\nimport('/q/b.js')".toUTF8)).put
      "/p/lib/a.js" (.file "require('../main.js')".toUTF8)).put "/q/b.js" (.file "b".toUTF8)
    let h := Host.ofDisk disk
    ∃ g renamed, (b.resolver.buildGraph "/p/main.js" none none h).1 = some (.ok g) ∧
      (b.resolver.buildGraph "/p/main.js" (some "/p/.") none h).1 = some (.ok renamed) ∧
      Graph.Renames (fun path => relative path "/p") g renamed ∧
      renamed.moduleIds = ["main.js", "lib/a.js", "../q/b.js"] ∧
      b.Builds ⟨"/p/.", "main.js"⟩ disk (.ok ("\n// File: main.js\nrequire('./lib/a.js')\n" ++
        "import('/q/b.js')\n\n// File: lib/a.js\nrequire('../main.js')\n" ++
        "\n// File: ../q/b.js\nb\n")) := by
  intro b disk h
  have listed : (b.resolver.resolve "/p/main.js" ∅ none h).1.outcome.bind Except.toOption =
      some ["/p/main.js", "/p/lib/a.js", "/q/b.js"] := by decide +kernel
  have texts : ["/p/main.js", "/p/lib/a.js", "/q/b.js"].map
      (fun path => (b.resolver.reader.readText path h).1.toOption) =
        [some "require('./lib/a.js')\nimport('/q/b.js')", some "require('../main.js')",
          some "b"] := by
    decide +kernel
  have root : absolute "/p/." = "/p" := by decide +kernel
  have names : ["/p/main.js", "/p/lib/a.js", "/q/b.js"].map (fun path => relative path "/p") =
      ["main.js", "lib/a.js", "../q/b.js"] := by decide +kernel
  have entered : absolute (join (absolute "/p/.") "main.js") = absolute "/p/main.js" := by
    decide +kernel
  have single : ¬ Doubled ["/p/main.js", "/p/lib/a.js", "/q/b.js"] := by
    simp only [Doubled]
    decide +kernel
  rcases relative_names_rename b.resolver "/p/main.js" "/p/." (h := h) (k := h) rfl rfl rfl with
    ⟨e, failed, -⟩ | ⟨files, g, found, bare, -, renames, -, bundles⟩
  · rw [failed] at listed
    cases listed
  · rw [found] at listed
    cases listed
    obtain ⟨-, renamed, built, renamed_eq, ids⟩ := renames single
    obtain ⟨contents, each, builds⟩ := bundles b ⟨"/p/.", "main.js"⟩ rfl rfl rfl entered
    rw [root] at renamed_eq ids builds
    rw [names] at ids builds
    refine ⟨g, renamed, bare, built, renamed_eq, ids, ?_⟩
    rcases each with - | ⟨main, - | ⟨lib, - | ⟨other, ⟨⟩⟩⟩⟩
    simp only [List.map_cons, List.map_nil, main, lib, other, Except.toOption, List.cons.injEq,
      Option.some.injEq, and_true] at texts
    obtain ⟨rfl, rfl, rfl⟩ := texts
    exact builds

/-- The law that names seen from a root never clash is false: a second leading slash stays in a
path, but no name shows it. -/
theorem doubled_slash_clash :
    ¬ ∀ (r : Resolver) (entry root : String) (h : Host) (files : List String), h.faults = [] →
      (r.resolve entry ∅ none h).1.outcome = some (.ok files) →
      ∃ g, (r.buildGraph entry (some root) none h).1 = some (.ok g) := by
  intro law
  let disk := (Disk.empty.put "/p/main.js" (.file
    "require('./a.js') require('//p/a.js')".toUTF8)).put "/p/a.js" (.file "a".toUTF8)
  let r : Resolver := ⟨.withLimits 3 1000, [".js"]⟩
  let h := Host.ofDisk disk
  have listed : (r.resolve "/p/main.js" ∅ none h).1.outcome.bind Except.toOption =
      some ["/p/main.js", "/p/a.js", "//p/a.js"] := by decide +kernel
  have refused : ((r.buildGraph "/p/main.js" (some "/p") none h).1.bind Except.toOption).isSome =
      false := by decide +kernel
  obtain ⟨answer, found, given⟩ := Option.bind_eq_some_iff.mp listed
  cases answer with
  | error e => cases given
  | ok files =>
    obtain ⟨g, built⟩ := law r "/p/main.js" "/p" h files rfl found
    rw [built] at refused
    cases refused

end ModuleBundler.Source
