import ModuleBundler.Proofs.Graph.Reach
import ModuleBundler.Proofs.Source.Descent

/-! The projected graph is the import graph. While a walk goes on, every import of a
file that was read has been seen or stands on the stack; when it is over, the files
seen are closed under imports. So no edge meets an unknown module on the way into
the graph, and no module is added twice. -/
namespace ModuleBundler.Source

open Cancellation ModuleBundler.Path Relation

section Calm

variable (r : Resolver)

/-- Traces on two hosts without faults that have the same files. -/
structure Alike (s t : Trace Host) : Prop where
  seen : s.seen = t.seen
  edges : s.edges = t.edges
  calm : s.state.faults = [] ∧ t.state.faults = []
  disk : s.state.disk = t.state.disk

theorem visit_alike (path : String) {s t : Trace Host} (alike : Alike s t) :
    ((r.surroundings none).visit r.extensions path s).1 =
        ((r.surroundings none).visit r.extensions path t).1 ∧
      Alike ((r.surroundings none).visit r.extensions path s).2
        ((r.surroundings none).visit r.extensions path t).2 := by
  have leave : ∀ h, (r.surroundings none).leave h = (.ok (), (Resolver.leave none h).2) :=
    fun _ => rfl
  have reads := seesFiles.readImports r path
  obtain ⟨seen, edges, ⟨calm, calm'⟩, disk⟩ := alike
  have first := leave_keepsFiles none s.state
  have second := leave_keepsFiles none t.state
  have same := reads.same _ _ (first.calm calm) (second.calm calm')
    (first.disk.trans (disk.trans second.disk.symm))
  have kept := first.trans (reads.keeps (Resolver.leave none s.state).2)
  have kept' := second.trans (reads.keeps (Resolver.leave none t.state).2)
  rw [Surroundings.visit, Surroundings.visit, leave s.state, leave t.state]
  dsimp only
  rw [Resolver.imports_surroundings, seen, edges]
  generalize r.readImports path (Resolver.leave none s.state).2 = one at same kept ⊢
  generalize r.readImports path (Resolver.leave none t.state).2 = other at same kept' ⊢
  obtain ⟨failure | found, last⟩ := one <;> obtain ⟨failure' | found', last'⟩ := other <;>
    cases same <;>
    exact ⟨rfl, rfl, rfl, ⟨kept.calm calm, kept'.calm calm'⟩,
      kept.disk.trans (disk.trans kept'.disk.symm)⟩

variable {h k : Host}

theorem walkFrom_of_calm (calm : h.faults = []) (calm' : k.faults = []) (same : k.disk = h.disk)
    (path : String) :
    (r.walkFrom none (.start path ∅) h).ending.1 = (r.walkFrom none (.start path ∅) k).ending.1 ∧
      (r.walkFrom none (.start path ∅) h).ending.2.seen =
        (r.walkFrom none (.start path ∅) k).ending.2.seen := by
  have alike : Alike ⟨∅, [], h⟩ ⟨∅, [], k⟩ := ⟨rfl, rfl, ⟨calm, calm'⟩, same.symm⟩
  rw [Resolver.walkFrom_ending, Resolver.walkFrom_ending, same]
  obtain ⟨ends, after⟩ := Surroundings.walk_related (fun _ _ alike => alike.seen)
    (fun path _ _ => visit_alike r path) (Resolver.visitBudget h.disk) [path] alike
  exact ⟨ends, after.seen⟩

theorem outcome_resolve (entry : String) (h : Host) :
    (r.resolve entry ∅ none h).1.outcome =
      (r.walkFrom none (.start (absolute entry) ∅) h).ending.1.map (Except.map fun _ =>
        (r.walkFrom none (.start (absolute entry) ∅) h).ending.2.seen.toList) := by
  rw [Resolver.resolve]
  dsimp only
  rw [if_neg (OrderedSet.not_mem_empty _)]
  rfl

end Calm

section Chart

/-- What the edges of a walk say of two files. -/
def Trace.Imports (t : Trace Host) (source target : String) : Prop :=
  ∃ e ∈ t.edges, e.1 = source ∧ target ∈ e.2

/-- What holds of a walk from an entry file with a stack of paths to visit. -/
structure Charted (r : Resolver) (d : Disk) (start : String) (stack : List String)
    (t : Trace Host) : Prop where
  disk : t.state.disk = d
  files : t.seen.toList = t.files
  read : ∀ e ∈ t.edges, ∃ content,
    r.reader.textOn? d e.1 = some content ∧ e.2 = localImports r.extensions e.1 content
  covered : ∀ e ∈ t.edges, ∀ target ∈ e.2, target ∈ t.seen ∨ target ∈ stack
  started : start ∈ t.seen ∨ start ∈ stack
  reached : ∀ path, path ∈ t.seen ∨ path ∈ stack → ReflTransGen t.Imports start path

variable {r : Resolver} {d : Disk} {start path : String} {rest found : List String}
  {t next : Trace Host}

theorem visit_of_ok
    (visited : (r.surroundings none).visit r.extensions path t = (.ok found, next)) :
    ∃ content, r.reader.textOn? t.state.disk path = some content ∧
      found = localImports r.extensions path content ∧ next.seen = t.seen.insert path ∧
      next.edges = t.edges ++ [(path, found)] ∧ next.state.disk = t.state.disk := by
  have outcome := visited_visit (r.surroundings none) r.extensions path t
  rw [visited] at outcome
  cases outcome with
  | @read content _ s last leave read same =>
    have asked : s.disk = t.state.disk := by
      have kept := (leave_keepsFiles none t.state).disk
      change ((r.surroundings none).leave t.state).2.disk = _ at kept
      rwa [leave] at kept
    obtain ⟨readable, kept⟩ := r.textOn?_of_read none read
    exact ⟨content, asked ▸ readable, same.symm, rfl, rfl, kept.trans asked⟩

namespace Charted

theorem init (h : Host) : Charted r h.disk start [start] ⟨∅, [], h⟩ where
  disk := rfl
  files := rfl
  read _ none := absurd none List.not_mem_nil
  covered _ none := absurd none List.not_mem_nil
  started := .inr List.mem_cons_self
  reached path member := by
    rcases member with none | here
    · exact absurd none (OrderedSet.not_mem_empty path)
    · rw [List.mem_singleton.mp here]

theorem pass (charted : Charted r d start (path :: rest) t) (old : path ∈ t.seen) :
    Charted r d start rest t := by
  have left : ∀ other, other ∈ t.seen ∨ other ∈ path :: rest → other ∈ t.seen ∨ other ∈ rest := by
    rintro other (seen | pending)
    · exact .inl seen
    · rcases List.mem_cons.mp pending with rfl | later
      · exact .inl old
      · exact .inr later
  exact { charted with
    covered := fun e member target imported => left _ (charted.covered e member target imported)
    started := left _ charted.started
    reached := fun other member =>
      charted.reached other (member.imp_right (List.mem_cons_of_mem _)) }

theorem visit (charted : Charted r d start (path :: rest) t) (fresh : path ∉ t.seen)
    (visited : (r.surroundings none).visit r.extensions path t = (.ok found, next)) :
    Charted r d start (found ++ rest) next := by
  obtain ⟨content, readable, imports, seen, edges, disk⟩ := visit_of_ok visited
  have left : ∀ other, other ∈ t.seen ∨ other ∈ path :: rest →
      other ∈ next.seen ∨ other ∈ found ++ rest := by
    rw [seen]
    rintro other (old | pending)
    · exact .inl (OrderedSet.mem_insert.mpr (.inl old))
    · rcases List.mem_cons.mp pending with rfl | later
      · exact .inl (OrderedSet.mem_insert.mpr (.inr rfl))
      · exact .inr (List.mem_append_right _ later)
  have grown : ∀ e ∈ next.edges, e ∈ t.edges ∨ e = (path, found) := by
    intro e member
    rw [edges, List.mem_append, List.mem_singleton] at member
    exact member
  have kept : ∀ u v, t.Imports u v → next.Imports u v := by
    rintro u v ⟨e, member, ends⟩
    exact ⟨e, edges ▸ List.mem_append_left _ member, ends⟩
  have here : (path, found) ∈ next.edges := edges ▸ List.mem_append_right _ List.mem_cons_self
  have reached : ∀ other, other ∈ t.seen ∨ other ∈ path :: rest →
      ReflTransGen next.Imports start other := fun other member =>
    ReflTransGen.mono kept _ _ (charted.reached other member)
  constructor
  case disk => exact disk.trans charted.disk
  case files =>
    rw [seen, OrderedSet.toList_insert_of_not_mem fresh, charted.files, Trace.files, Trace.files,
      edges, List.map_append]
    rfl
  case read =>
    intro e member
    rcases grown e member with old | rfl
    · exact charted.read e old
    · exact ⟨content, charted.disk ▸ readable, imports⟩
  case covered =>
    intro e member target imported
    rcases grown e member with old | rfl
    · exact left target (charted.covered e old target imported)
    · exact .inr (List.mem_append_left _ imported)
  case started => exact left start charted.started
  case reached =>
    intro other member
    rw [seen, OrderedSet.mem_insert, List.mem_append] at member
    rcases member with (old | rfl) | (imported | later)
    · exact reached other (.inl old)
    · exact reached other (.inr List.mem_cons_self)
    · exact (reached path (.inr List.mem_cons_self)).tail ⟨_, here, rfl, imported⟩
    · exact reached other (.inr (List.mem_cons_of_mem _ later))

/-- When the stack is empty, the files seen are closed under imports. -/
theorem closed (charted : Charted r d start [] t) :
    ∀ e ∈ t.edges, ∀ target ∈ e.2, target ∈ t.seen := fun e member target imported =>
  (charted.covered e member target imported).resolve_right List.not_mem_nil

/-- A walk that comes to its end has charted all that its entry file reaches. -/
theorem ends {stack : List String} {result : Except DiscoveryError Unit} {after : Trace Host}
    (walks : Walks (r.surroundings none) r.extensions stack t result after)
    (charted : Charted r d start stack t) (succeeds : result = .ok ()) :
    Charted r d start [] after := by
  induction walks with
  | nil => exact charted
  | seen old walks ih => exact ih (charted.pass old) succeeds
  | error fresh visited => cases succeeds
  | visit fresh visited walks ih => exact ih (charted.visit fresh visited) succeeds

end Charted

end Chart

section Graph

open ModuleBundler.Graph

/-- New files become modules in their order; the entry file is marked. -/
theorem addFiles_toGraph (start : String) {paths : List String} {d : Diagram}
    (distinct : (d.ids ++ paths).Nodup) (clock : Clock) :
    ∃ grown : Diagram, (addFiles none start paths d.toGraph clock).1 = .ok grown.toGraph ∧
      grown.ids = d.ids ++ paths ∧ grown.edges = d.edges ∧
      grown.entryPoints.toList = d.entryPoints.toList ++ paths.filter (· == start) := by
  induction paths generalizing d clock with
  | nil => exact ⟨d, rfl, by simp, rfl, by simp⟩
  | cons path rest ih =>
    have fresh : path ∉ d.ids := fun old =>
      (List.nodup_append.mp distinct).2.2 path old path List.mem_cons_self rfl
    let added : Module := ⟨path, .ofList [("path", .text path)], path == start, clock.now⟩
    have ids : (d.add added fresh).ids = d.ids ++ [path] := List.map_append
    have later : ((d.add added fresh).ids ++ rest).Nodup := by
      rwa [ids, List.append_assoc]
    obtain ⟨grown, adds, all, edges, entries⟩ := ih later (Clock.read clock).2
    refine ⟨grown, ?_, ?_, edges, ?_⟩
    · rw [addFiles]
      have first := Diagram.addModule_toGraph added fresh
      dsimp only [moduleName]
      rw [first]
      exact adds
    · rw [all, ids, List.append_assoc]
      rfl
    · rw [entries]
      cases marked : path == start <;> simp [Diagram.entryPoints, Diagram.add, added, marked]

/-- The imports of one file fill its row, and no other. -/
theorem addImports_of_file {source : String} {targets : List String} {d : Diagram}
    (known : source ∈ d.ids) (all : ∀ target ∈ targets, target ∈ d.ids) :
    ∃ grown : Diagram, (targets.foldlM (fun g target => g.addDependency source target) d.toGraph) =
        .ok grown.toGraph ∧ grown.modules = d.modules ∧
      ∀ id, grown.row .outgoing id =
        if id = source then (d.row .outgoing id).insertAll targets else d.row .outgoing id := by
  induction targets generalizing d with
  | nil => exact ⟨d, rfl, rfl, fun id => by simp [OrderedSet.insertAll]⟩
  | cons target rest ih =>
    obtain ⟨first, later⟩ := List.forall_mem_cons.mp all
    obtain ⟨grown, adds, modules, rows⟩ := ih (d := d.connect (source, target) ⟨known, first⟩)
      known later
    refine ⟨grown, ?_, modules, fun id => ?_⟩
    · rw [List.foldlM_cons, Diagram.addDependency_toGraph ⟨known, first⟩]
      exact adds
    · have connected : (d.connect (source, target) ⟨known, first⟩).row .outgoing id =
          if id = source then (d.row .outgoing id).insert target else d.row .outgoing id :=
        Diagram.row_connect _
      rw [rows, connected]
      by_cases here : id = source
      · rw [if_pos here, if_pos here, if_pos here]
        rfl
      · rw [if_neg here, if_neg here, if_neg here]

/-- Edges between known files fill the rows of their sources, and no other. -/
theorem addImports_toGraph {edges : List (String × List String)} {d : Diagram}
    (distinct : (edges.map (·.1)).Nodup)
    (known : ∀ e ∈ edges, e.1 ∈ d.ids ∧ ∀ target ∈ e.2, target ∈ d.ids) :
    ∃ grown : Diagram, addImports none edges d.toGraph = .ok grown.toGraph ∧
      grown.modules = d.modules ∧
      (∀ e ∈ edges, grown.row .outgoing e.1 = (d.row .outgoing e.1).insertAll e.2) ∧
      ∀ id ∉ edges.map (·.1), grown.row .outgoing id = d.row .outgoing id := by
  induction edges generalizing d with
  | nil => exact ⟨d, rfl, rfl, fun e none => absurd none List.not_mem_nil, fun _ _ => rfl⟩
  | cons edge rest ih =>
    obtain ⟨source, targets⟩ := edge
    obtain ⟨⟨first, all⟩, later⟩ := List.forall_mem_cons.mp known
    obtain ⟨fresh, distinctRest⟩ := List.nodup_cons.mp distinct
    obtain ⟨filled, adds, modules, rows⟩ := addImports_of_file first all
    have ids : filled.ids = d.ids := congrArg (List.map Module.id) modules
    obtain ⟨grown, addsRest, modulesRest, rowsRest, others⟩ :=
      ih (d := filled) distinctRest (ids ▸ later)
    refine ⟨grown, ?_, modulesRest.trans modules, ?_, ?_⟩
    · rw [addImports, List.foldlM_cons]
      dsimp only [moduleName]
      rw [adds]
      exact addsRest
    · intro e member
      rcases List.mem_cons.mp member with rfl | old
      · rw [others source fresh, rows, if_pos rfl]
      · have apart : e.1 ≠ source := fun same => fresh (List.mem_map.mpr ⟨e, old, same⟩)
        rw [rowsRest e old, rows, if_neg apart]
    · intro id unknown
      rw [List.map_cons, List.mem_cons, not_or] at unknown
      rw [others id unknown.2, rows, if_neg unknown.1]

/-- A walk whose edges lead from the files seen to the files seen goes into a graph whole. -/
theorem project_toGraph (w : Walk) (start : String) (h : Host)
    (files : w.seen.toList = w.edges.map (·.1))
    (closed : ∀ e ∈ w.edges, ∀ target ∈ e.2, target ∈ w.seen) (member : start ∈ w.seen) :
    ∃ d : Diagram, (w.project none start h).1 = .ok d.toGraph ∧ d.ids = w.seen.toList ∧
      d.entryPoints.toList = [start] ∧
      ∀ e ∈ w.edges, d.row .outgoing e.1 = .ofList e.2 := by
  have distinct : (Diagram.empty.ids ++ w.seen.toList).Nodup := w.seen.nodup
  obtain ⟨d, adds, ids, edges, entries⟩ := addFiles_toGraph start distinct h.wallClock
  have ids : d.ids = w.seen.toList := ids
  have known : ∀ e ∈ w.edges, e.1 ∈ d.ids ∧ ∀ target ∈ e.2, target ∈ d.ids := by
    intro e inside
    rw [ids]
    exact ⟨files ▸ List.mem_map_of_mem inside, closed e inside⟩
  obtain ⟨grown, connects, modules, rows, -⟩ := addImports_toGraph (files ▸ w.seen.nodup) known
  refine ⟨grown, ?_, ?_, ?_, ?_⟩
  · have added : (Host.withWallClock (addFiles none start w.seen.toList .empty) h).1 =
        .ok d.toGraph := adds
    rw [Walk.project, bind_apply, added]
    dsimp only
    rw [connects]
    rfl
  · rw [← ids]
    exact congrArg (List.map Module.id) modules
  · have same : grown.entryPoints.toList = d.entryPoints.toList :=
      congrArg (fun all => (all.filter (·.isEntry)).map Module.id) modules
    rw [same, entries, List.filter_beq, List.count_eq_one_of_mem w.seen.nodup member]
    rfl
  · intro e inside
    rw [rows e inside]
    have bare : d.row .outgoing e.1 = ∅ := by
      apply OrderedSet.ext
      simp only [Diagram.row, edges]
      rfl
    rw [bare]
    rfl

variable {r : Resolver} {entry : String} {h k : Host} {t : Trace Host}

/-- Where a walk succeeds, the projection does, and the graph has what the walk has charted. -/
theorem buildGraph_of_ok
    (ending : (r.walkFrom none (.start (absolute entry) ∅) h).ending = (some (.ok ()), t)) :
    ∃ d : Diagram, (r.buildGraph entry none none h).1 = some (.ok d.toGraph) ∧
      Charted r h.disk (absolute entry) [] t ∧ d.ids = t.seen.toList ∧
      d.entryPoints.toList = [absolute entry] ∧
      ∀ e ∈ t.edges, d.row .outgoing e.1 = .ofList e.2 := by
  have walks := walks_of_walk ((r.walkFrom_ending none _ _ h).symm.trans ending)
  have charted := Charted.ends walks (.init h) rfl
  rw [Resolver.buildGraph]
  generalize r.walkFrom none (.start (absolute entry) ∅) h = run at ending ⊢
  obtain ⟨walk, state, outcome⟩ := run
  cases ending
  have member : absolute entry ∈ walk.seen := charted.started.resolve_right List.not_mem_nil
  obtain ⟨d, projected, ids, entries, rows⟩ :=
    project_toGraph walk (absolute entry) state charted.files charted.closed member
  have mapped : (walk.project none (absolute entry) state).1.mapError ProjectionError.graph =
      .ok d.toGraph := by
    rw [projected]
    rfl
  exact ⟨d, congrArg some mapped, charted, ids, entries, rows⟩

theorem buildGraph_of_error {root : Option String} {e : DiscoveryError}
    (ending : (r.walkFrom none (.start (absolute entry) ∅) h).ending = (some (.error e), t)) :
    (r.buildGraph entry root none h).1 = some (.error (.discovery e)) := by
  rw [Resolver.buildGraph]
  generalize r.walkFrom none (.start (absolute entry) ∅) h = run at ending ⊢
  obtain ⟨walk, state, outcome⟩ := run
  cases ending
  rfl

/-- All that a walk has charted can be reached in the graph along the rows. -/
theorem reaches_of_charted {d : Diagram} {start path : String}
    (charted : Charted r h.disk start [] t)
    (rows : ∀ e ∈ t.edges, d.row .outgoing e.1 = .ofList e.2) (seen : path ∈ t.seen) :
    d.toGraph.Reaches start path := by
  have edges : ∀ u v, t.Imports u v → d.toGraph.DependsOn u v := by
    rintro u v ⟨e, member, rfl, imported⟩
    have listed : v ∈ d.row .outgoing e.1 := by
      rw [rows e member, OrderedSet.ofList, OrderedSet.mem_insertAll]
      exact .inr imported
    have edge : (e.1, v) ∈ d.edges := Diagram.mem_row_near.mp listed
    exact Diagram.dependsOn_toGraph.mpr edge
  exact ReflTransGen.mono edges _ _ (charted.reached path (.inl seen))

/-- The projected graph is the import graph of an entry file, for unchanging files without faults. -/
theorem projects_import_graph (r : Resolver) (entry : String) {h k : Host} (calm : h.faults = [])
    (calm' : k.faults = []) (same : k.disk = h.disk) :
    let start := absolute entry
    let found := (r.resolve entry ∅ none h).1.outcome
    let built := (r.buildGraph entry none none k).1
    (∃ e, found = some (.error e) ∧ built = some (.error (.discovery e))) ∨
    ∃ files g, found = some (.ok files) ∧ built = some (.ok g) ∧
      g.moduleIds = files ∧ g.entryPoints = [start] ∧
      (∀ path ∈ files, ∃ content targets, (r.reader.readText path h).1 = .ok content ∧
        g.dependencies path = .ok targets ∧
        targets.toList = (localImports r.extensions path content).eraseDups) ∧
      g.inconsistencies = [] ∧
      ∃ met, (g.allDependencies unchecked start).result = .ok met ∧
        ∀ path ∈ files, path ≠ start → path ∈ met := by
  intro start found built
  obtain ⟨result, t, ending⟩ := r.exists_walkFrom none entry ∅ k
  have found_eq : found = some (result.map fun _ => t.seen.toList) := by
    obtain ⟨ends, seen⟩ := walkFrom_of_calm r calm calm' same start
    refine (outcome_resolve r entry h).trans ?_
    rw [ends, seen, ending]
    rfl
  cases result with
  | error e =>
    left
    exact ⟨e, found_eq, buildGraph_of_error ending⟩
  | ok _ =>
    right
    obtain ⟨d, built_eq, charted, ids, entries, rows⟩ := buildGraph_of_ok ending
    have member : start ∈ d.ids := ids ▸ charted.started.resolve_right List.not_mem_nil
    refine ⟨t.seen.toList, d.toGraph, found_eq, built_eq, Diagram.moduleIds_toGraph.trans ids,
      entries, ?_, Diagram.inconsistencies_toGraph, ?_⟩
    · intro path seen
      obtain ⟨e, inside, rfl⟩ := List.mem_map.mp (charted.files ▸ seen)
      obtain ⟨content, readable, imports⟩ := charted.read e inside
      rw [same] at readable
      refine ⟨content, d.row .outgoing e.1, readText_of_calm calm readable, ?_, ?_⟩
      · rw [Diagram.dependencies_toGraph, if_pos (ids ▸ seen)]
      · rw [rows e inside, OrderedSet.toList_ofList, imports]
    · have present : d.toGraph.contains start = true := by
        rw [Diagram.contains_toGraph]
        exact decide_eq_true member
      have row : start ∈ d.toGraph.outgoing.keys := Diagram.keys_outgoing ▸ member
      obtain ⟨met, all, met_iff⟩ := allDependencies_eq Diagram.closed_toGraph present row
      refine ⟨met, by rw [all, result_pure], fun path seen apart => (met_iff path).mpr ?_⟩
      have reaches := reaches_of_charted charted rows seen
      exact (reflTransGen_iff_eq_or_transGen.mp reaches).resolve_left apart

/-- Two files that import each other; one of them imports itself, names a file twice, and names one
that holds no source. -/
theorem projects_import_graph_cyclic :
    let disk := (Disk.empty.put "/p/a.js" (.file
        "require('./b.js') require('./a.js') require('./b.js') require('./notes.txt')".toUTF8)).put
      "/p/b.js" (.file "import('./a.js')".toUTF8)
    let r : Resolver := ⟨.withLimits 3 1000, [".js"]⟩
    let h := Host.ofDisk disk
    ∃ g targets met, (r.buildGraph "p/a.js" none none h).1 = some (.ok g) ∧
      g.moduleIds = ["/p/a.js", "/p/b.js"] ∧ g.entryPoints = ["/p/a.js"] ∧
      g.dependencies "/p/a.js" = .ok targets ∧ targets.toList = ["/p/b.js", "/p/a.js"] ∧
      g.inconsistencies = [] ∧
      (g.allDependencies unchecked "/p/a.js").result = .ok met ∧ "/p/b.js" ∈ met := by
  intro disk r h
  have listed : (r.resolve "p/a.js" ∅ none h).1.outcome.bind Except.toOption =
      some ["/p/a.js", "/p/b.js"] := by decide +kernel
  have scanned : ((r.reader.readText "/p/a.js" h).1.toOption.map fun content =>
      (localImports r.extensions "/p/a.js" content).eraseDups) = some ["/p/b.js", "/p/a.js"] := by
    decide +kernel
  have start : absolute "p/a.js" = "/p/a.js" := by decide +kernel
  rcases projects_import_graph r "p/a.js" (h := h) (k := h) rfl rfl rfl with
    ⟨e, failed, -⟩ | ⟨files, g, found, built, modules, entries, rows, consistent, met, closure, all⟩
  · rw [failed] at listed
    cases listed
  · rw [found] at listed
    cases listed
    rw [start] at entries closure all
    obtain ⟨content, targets, read, row, imports⟩ := rows "/p/a.js" (by simp)
    rw [read] at scanned
    exact ⟨g, targets, met, built, modules, entries, row, imports.trans (Option.some.inj scanned),
      consistent, closure, all "/p/b.js" (by simp) (by decide)⟩

end Graph
end ModuleBundler.Source
