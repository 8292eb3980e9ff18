import ModuleBundler.Proofs.Graph.Budget
import ModuleBundler.Proofs.Source.Series

/-! What it takes to walk over files under a token. A walk asks for leave before it marks and
reads a file, and a path that it passes by costs nothing. So a token that gives leave a
number of times lets the walk go along the order of its files as far as that, and the
map of seen paths holds what has been read. -/
namespace ModuleBundler.Source

open Cancellation ModuleBundler.Path Relation

/-- A step that leaves the clock for deadlines alone. -/
def KeepsClock {α : Type} (step : StateM Host α) : Prop := ∀ h, (step h).2.clock = h.clock

theorem keepsClock : Compositional KeepsClock where
  pure _ _ := rfl
  bind first rest h := (rest _ _).trans (first h)
  look _ _ := rfl
  report _ _ := rfl
  visit _ _ := rfl
  pause _ _ := rfl

/-- What a walk asks leave for. -/
def errand : String := "dependency resolution"

/-- The surroundings once a token has been asked for leave. -/
def Host.asked (h : Host) (token : Token) : Host :=
  { h with clock := Checkpoint.after token.check errand h.clock 1 }

theorem leave_apply (token : Token) (h : Host) : Resolver.leave (some token) h =
    (((token.check errand).run.run h.clock).1.mapError .interrupted, h.asked token) := rfl

section Visit

variable {r : Resolver} {token : Token} {path : String} {t : Trace Host} {budget : Nat}

/-- A visit that is refused does nothing but ask. -/
theorem visit_of_refused (grants : Checkpoint.Grants token.check errand t.state.clock 0) :
    ∃ stop, (r.surroundings (some token)).visit r.extensions path t =
      (.error (.interrupted stop), { t with state := t.state.asked token }) := by
  obtain ⟨stop, stopped⟩ := grants.stop
  have leave : (r.surroundings (some token)).leave t.state =
      (.error (.interrupted stop), t.state.asked token) := by
    refine (leave_apply token t.state).trans ?_
    rw [stopped]
    rfl
  rw [Surroundings.visit, leave]
  exact ⟨stop, rfl⟩

/-- A visit with leave is one without a token. -/
theorem visit_of_granted (grants : Checkpoint.Grants token.check errand t.state.clock (budget + 1)) :
    (r.surroundings (some token)).visit r.extensions path t =
      (r.surroundings none).visit r.extensions path { t with state := t.state.asked token } := by
  have leave : (r.surroundings (some token)).leave t.state = (.ok (), t.state.asked token) := by
    refine (leave_apply token t.state).trans ?_
    rw [grants.pass.1]
    rfl
  rw [Surroundings.visit, Surroundings.visit, leave, Resolver.imports_surroundings,
    Resolver.imports_surroundings]
  rfl

/-- Only the token moves the clock. -/
theorem clock_visit (r : Resolver) (path : String) (t : Trace Host) :
    ((r.surroundings none).visit r.extensions path t).2.state.clock = t.state.clock := by
  have kept := keepsClock.readImports r path t.state
  rw [← r.imports_surroundings none] at kept
  rw [Surroundings.visit]
  have leave : (r.surroundings none).leave t.state = (.ok (), t.state) := rfl
  rw [leave]
  dsimp only
  generalize (r.surroundings none).imports r.extensions path t.state = read at kept ⊢
  obtain ⟨failure | found, s⟩ := read
  · exact kept
  · exact kept

end Visit

/-- How a walk ends whose token gives leave for a number of the files before it. -/
inductive Spends (order : List String) (budget : Nat) (t after : Trace Host) :
    Except DiscoveryError Unit → Prop where
  | finished : order.length ≤ budget → after.seen.toList = t.seen.toList ++ order →
      after.state.visits = t.state.visits ++ order → Spends order budget t after (.ok ())
  | stopped {stop} : budget < order.length →
      after.seen.toList = t.seen.toList ++ order.take budget →
      after.state.visits = t.state.visits ++ order.take budget →
      Spends order budget t after (.error (.interrupted stop))

section Walk

variable {r : Resolver} {d : Disk} {token : Token} {order stack : List String} {path : String}
  {t next after : Trace Host} {budget : Nat} {result : Except DiscoveryError Unit}

theorem Spends.cons (seen : next.seen.toList = t.seen.toList ++ [path])
    (visits : next.state.visits = t.state.visits ++ [path])
    (spends : Spends order budget next after result) :
    Spends (path :: order) (budget + 1) t after result := by
  cases spends with
  | finished few seen' visits' =>
    refine .finished (Nat.succ_le_succ few) ?_ ?_
    · rw [seen', seen, List.append_assoc, List.singleton_append]
    · rw [visits', visits, List.append_assoc, List.singleton_append]
  | stopped many seen' visits' =>
    refine .stopped (Nat.succ_lt_succ many) ?_ ?_
    · rw [seen', seen, List.append_assoc, List.singleton_append, List.take_succ_cons]
    · rw [visits', visits, List.append_assoc, List.singleton_append, List.take_succ_cons]

/-- A visit that has leave and finds a text goes one step along the order. -/
theorem visit_on_budget (normal : IsNormal path) (calm : t.state.faults = []) (fresh : path ∉ t.seen)
    (readable : (r.reader.textOn? t.state.disk path).isSome = true)
    (grants : Checkpoint.Grants token.check errand t.state.clock (budget + 1)) :
    ∃ next, (r.surroundings (some token)).visit r.extensions path t =
        (.ok (r.importsOn t.state.disk path), next) ∧
      next.seen.toList = t.seen.toList ++ [path] ∧ next.state.visits = t.state.visits ++ [path] ∧
      Checkpoint.Grants token.check errand next.state.clock budget := by
  obtain ⟨content, readable⟩ := Option.isSome_iff_exists.mp readable
  let begun : Trace Host := { t with state := t.state.asked token }
  have clock := clock_visit r path begun
  obtain ⟨next, visited, seen, visits⟩ := visit_of_some (t := begun) normal calm fresh readable
  rw [visited] at clock
  refine ⟨next, (visit_of_granted grants).trans visited, seen, visits, ?_⟩
  rw [clock]
  exact grants.pass.2

/-- A walk without faults over files that all have a text goes along their order until its token
gives no more leave. -/
theorem Walks.spends (walks : Walks (r.surroundings (some token)) r.extensions stack t result after)
    (calm : t.state.faults = []) (files : t.state.disk = d) (normal : ∀ path ∈ stack, IsNormal path)
    (met : DepthFirst (r.importsOn d) t.seen.toList stack order)
    (readable : ∀ path ∈ order, (r.reader.textOn? d path).isSome = true)
    (grants : Checkpoint.Grants token.check errand t.state.clock budget) :
    Spends order budget t after result := by
  induction walks generalizing order budget with
  | nil =>
    cases met
    exact .finished (Nat.zero_le budget) (by simp) (by simp)
  | seen old _ ih =>
    cases met with
    | seen _ met => exact ih calm files (List.forall_mem_cons.mp normal).2 met readable grants
    | visit fresh => exact absurd old fresh
  | @error path rest t failure after fresh visited =>
    subst files
    obtain ⟨later, rfl, -⟩ := (DepthFirst.cons_iff fresh).mp met
    cases budget with
    | zero =>
      obtain ⟨stop, visited'⟩ := visit_of_refused grants
      cases visited.symm.trans visited'
      exact .stopped (Nat.succ_pos _) (by simp) (by simp; rfl)
    | succ budget =>
      obtain ⟨next, visited', -⟩ := visit_on_budget (List.forall_mem_cons.mp normal).1 calm fresh
        (List.forall_mem_cons.mp readable).1 grants
      cases visited.symm.trans visited'
  | @visit path rest t found next result after fresh visited walks ih =>
    subst files
    obtain ⟨later, rfl, behind⟩ := (DepthFirst.cons_iff fresh).mp met
    obtain ⟨here, others⟩ := List.forall_mem_cons.mp normal
    obtain ⟨text, readable⟩ := List.forall_mem_cons.mp readable
    cases budget with
    | zero =>
      obtain ⟨stop, visited'⟩ := visit_of_refused grants
      cases visited.symm.trans visited'
    | succ budget =>
      obtain ⟨last, visited', seen, visits, grants⟩ := visit_on_budget here calm fresh text grants
      cases visited.symm.trans visited'
      have follows := visit_follows r (some token) path t
      rw [visited] at follows
      have normal : ∀ other ∈ r.importsOn t.state.disk path ++ rest, IsNormal other :=
        List.forall_mem_append.mpr
          ⟨fun _ imported => Resolver.isNormal_of_mem_importsOn here imported, others⟩
      rw [← seen] at behind
      exact (ih (follows.calm calm) follows.disk normal behind readable grants).cons seen visits

end Walk

/-- Without faults and a token, a resolution that succeeds returns what was seen before and then what
it reads, in the order of its reading. With a token it does the same, up to the budget. -/
theorem resolveFor_budget {r : Resolver} {entry : String} {given : SeenPaths} {h : Host}
    (calm : h.faults = []) {files : List String}
    (done : (r.resolveFor entry given none h).1.1.outcome = some (.ok files)) :
    ∃ new, files = given.toSet.toList ++ new ∧
      (r.resolveFor entry given none h).2.visits = h.visits ++ new ∧
      ∀ (token : Token) (budget : Nat), Checkpoint.Grants token.check errand h.clock budget →
        let told := r.resolveFor entry given (some token) h
        (told.1 = (r.resolveFor entry given none h).1 ↔ new.length ≤ budget) ∧
        (budget < new.length → ∃ stop, told.1.1.outcome = some (.error (.interrupted stop))) ∧
        told.1.1.seen.toList = given.toSet.toList ++ new.take budget ∧
        told.1.2 = given.after told.1.1.seen ∧
        told.2.visits = h.visits ++ new.take budget := by
  obtain ⟨result, t, ending⟩ := r.exists_walkFrom none entry given.toSet h
  have walks := walks_of_walk ((r.walkFrom_ending none _ _ h).symm.trans ending)
  rw [r.resolveFor_eq none entry given ending] at done ⊢
  rcases walks.meets calm rfl with ⟨e, -, rfl, -⟩ | ⟨new, rfl, met, seen, visits, readable⟩
  · cases done
  cases done
  refine ⟨new, seen, visits, fun token budget grants => ?_⟩
  obtain ⟨result, last, ending⟩ := r.exists_walkFrom (some token) entry given.toSet h
  have walks := walks_of_walk ((r.walkFrom_ending (some token) _ _ h).symm.trans ending)
  rw [r.resolveFor_eq (some token) entry given ending]
  have normal : ∀ path ∈ [absolute entry], IsNormal path :=
    List.forall_mem_singleton.mpr (isNormal_absolute entry)
  cases walks.spends calm rfl normal met readable grants with
  | finished few seen' visits' =>
    have same : last.seen = t.seen := OrderedSet.ext (seen'.trans seen.symm)
    rw [List.take_of_length_le few]
    refine ⟨iff_of_true ?_ few, fun many => absurd few (Nat.not_le.mpr many), seen', rfl, visits'⟩
    rw [same]
  | @stopped stop many seen' visits' =>
    refine ⟨iff_of_false (fun same => ?_) (Nat.not_le.mpr many), fun _ => ⟨stop, rfl⟩, seen', rfl,
      visits'⟩
    cases congrArg (fun answer => answer.1.outcome) same

/-- A token lets a closure through just if it gives leave for the module and for all that it reaches,
and a walk over files just if it gives leave for all that are new; a walk that is stopped has
read the first of these, and the map holds them. -/
theorem closure_and_walk_cost :
    (∀ (ms : List Graph.Mutation) (id : String),
      let g := Graph.ofMutations ms
      ∃ visited : List String, visited.Nodup ∧
        (∀ v, v ∈ visited ↔ v ∈ g.moduleIds ∧ (v = id ∨ TransGen g.DependsOn id v)) ∧
        Graph.Costs (fun check => g.allDependencies check id) "dependency traversal"
          visited.length) ∧
    ∀ (r : Resolver) (entry : String) (given : SeenPaths) (h : Host) (files : List String),
      h.faults = [] → (r.resolveFor entry given none h).1.1.outcome = some (.ok files) →
      ∃ new, files = given.toSet.toList ++ new ∧
        (r.resolveFor entry given none h).2.visits = h.visits ++ new ∧
        ∀ (token : Token) (budget : Nat),
          Checkpoint.Grants token.check "dependency resolution" h.clock budget →
          let told := r.resolveFor entry given (some token) h
          (told.1 = (r.resolveFor entry given none h).1 ↔ new.length ≤ budget) ∧
          (budget < new.length → ∃ stop, told.1.1.outcome = some (.error (.interrupted stop))) ∧
          told.1.1.seen.toList = given.toSet.toList ++ new.take budget ∧
          told.1.2 = given.after told.1.1.seen ∧
          told.2.visits = h.visits ++ new.take budget :=
  ⟨Graph.allDependencies_cost, fun _ _ _ _ _ calm done => resolveFor_budget calm done⟩

/-- A token that gives leave once is not enough for two modules, nor for two files. -/
theorem closure_and_walk_cost_pair :
    let add (id : String) : Graph.Mutation := .addModule id ∅ false 0
    let ms := [add "a", add "b", .addDependency "a" "b", .addDependency "b" "a"]
    let g := Graph.ofMutations ms
    let disk := (Disk.empty.put "/p/main.js" (.file "require('./a.js')".toUTF8)).put
      "/p/a.js" (.file "require('./main.js')".toUTF8)
    let r : Resolver := ⟨.withLimits 3 1000, [".js"]⟩
    let token : Token := ⟨some 0.5, false⟩
    let told := r.resolveFor "/p/main.js" (.shared ∅) (some token) (Host.ofDisk disk)
    (∃ stop, ((g.allDependencies token.check "a").run.run ⟨0.0, 1.0⟩).1 =
      .error (.interrupted stop)) ∧
    (∃ stop, told.1.1.outcome = some (.error (.interrupted stop))) ∧
    told.1.2 = .shared (.ofList ["/p/main.js"]) ∧ told.2.visits = ["/p/main.js"] := by
  intro add ms g disk r token told
  have grants : ∀ operation, Checkpoint.Grants token.check operation ⟨0.0, 1.0⟩ 1 :=
    Token.grants_of_deadline (by decide +kernel) (by decide +kernel)
  obtain ⟨closures, walks⟩ := closure_and_walk_cost
  constructor
  · have edge : g.DependsOn "a" "b" := by
      have member : ("a", "b") ∈ (Graph.Diagram.ofMutations ms).edges := by decide +kernel
      exact Graph.dependsOn_ofMutations.mpr member
    have modules : g.moduleIds = ["a", "b"] := by decide +kernel
    obtain ⟨visited, -, reached, costs⟩ := closures ms "a"
    have both : ∀ id ∈ ["a", "b"], id ∈ visited := by
      refine List.forall_mem_cons.mpr ⟨?_, List.forall_mem_singleton.mpr ?_⟩
      · exact (reached _).mpr ⟨modules ▸ List.mem_cons_self, .inl rfl⟩
      · exact (reached _).mpr ⟨modules ▸ List.mem_cons_of_mem _ List.mem_cons_self, .inr (.single edge)⟩
    have many : 1 < visited.length := (List.subperm_of_subset (by decide) both).length_le
    obtain ⟨stop, stopped⟩ := costs.stops token.check _ 1 (grants _) many
    exact ⟨stop, by rw [stopped]⟩
  · have calm : (Host.ofDisk disk).faults = [] := rfl
    have found : (r.resolveFor "/p/main.js" (.shared ∅) none (Host.ofDisk disk)).1.1.outcome.bind
        Except.toOption = some ["/p/main.js", "/p/a.js"] := by decide +kernel
    obtain ⟨answer, done, ok⟩ := Option.bind_eq_some_iff.mp found
    cases answer with
    | error e => cases ok
    | ok files =>
      cases ok
      obtain ⟨new, split, -, told⟩ := walks r "/p/main.js" (.shared ∅) (Host.ofDisk disk) _ calm done
      obtain rfl : new = ["/p/main.js", "/p/a.js"] := split.symm
      obtain ⟨-, stops, seen, shared, visits⟩ := told token 1 (grants _)
      refine ⟨stops (by decide), ?_, visits⟩
      refine shared.trans (congrArg SeenPaths.shared (OrderedSet.ext (seen.trans ?_)))
      rfl

end ModuleBundler.Source
