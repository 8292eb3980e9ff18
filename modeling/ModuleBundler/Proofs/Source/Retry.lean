import ModuleBundler.Proofs.Source.Series

/-! Resolutions that share a map of seen paths, some of which fail. A path stands in the
map before it is read, and what is still to be visited is dropped when a walk fails; so
a failed call may leave paths in the map without their imports. A later call passes
such paths by. What it returns is complete but for what lies behind them. -/
namespace ModuleBundler.Source

open Cancellation ModuleBundler.Path Relation

/-- A failed call has put a path into the map. -/
def Report.Left (report : Report) (path : String) : Prop :=
  (∃ e, report.found.outcome = some (.error e)) ∧ path ∈ report.found.seen ∧ path ∉ report.before

section Walk

variable {r : Resolver} {d : Disk} {token : Option Token} {stack found : List String} {path : String}
  {t next after : Trace Host} {result : Except DiscoveryError Unit}

/-- A visit that succeeds finds the imports that the files give, whatever faults were met. -/
theorem visit_ok (files : t.state.disk = d)
    (visited : (r.surroundings token).visit r.extensions path t = (.ok found, next)) :
    found = r.importsOn d path ∧ next.seen = t.seen.insert path ∧ next.state.disk = d := by
  have kept := (visit_follows r token path t).disk
  rw [visited] at kept
  have outcome := visited_visit (r.surroundings token) r.extensions path t
  rw [visited] at outcome
  cases outcome with
  | @read content _ s last leave read same =>
    have asked : s.disk = t.state.disk := by
      have kept := (leave_keepsFiles token t.state).disk
      dsimp only [Resolver.surroundings] at leave
      rwa [leave] at kept
    have readable := (r.textOn?_of_read token read).1
    rw [asked, files] at readable
    exact ⟨same.symm.trans (Resolver.importsOn_of_some readable).symm, rfl, kept.trans files⟩

/-- No visit drops a path from the map. -/
theorem visit_grows (r : Resolver) (token : Option Token) (path : String) (t : Trace Host) :
    ∀ old ∈ t.seen, old ∈ ((r.surroundings token).visit r.extensions path t).2.seen := by
  have outcome := visited_visit (r.surroundings token) r.extensions path t
  generalize (r.surroundings token).visit r.extensions path t = ended at outcome ⊢
  intro old member
  cases outcome with
  | refused => exact member
  | unread => exact OrderedSet.mem_insert.mpr (.inl member)
  | read => exact OrderedSet.mem_insert.mpr (.inl member)

theorem Walks.grows (walks : Walks (r.surroundings token) r.extensions stack t result after) :
    ∀ old ∈ t.seen, old ∈ after.seen := by
  induction walks with
  | nil => exact fun _ member => member
  | seen _ _ ih => exact ih
  | @error path rest t failure after _ visited =>
    have grown := visit_grows r token path t
    rwa [visited] at grown
  | @visit path rest t found next result after _ visited _ ih =>
    have grown := visit_grows r token path t
    rw [visited] at grown
    exact fun old member => ih old (grown old member)

/-- A walk that ends well leaves no path of its stack and no import of a path new to the map out. -/
theorem Walks.covers (walks : Walks (r.surroundings token) r.extensions stack t result after)
    (files : t.state.disk = d) (done : result = .ok ()) :
    (∀ path ∈ stack, path ∈ after.seen) ∧
    ∀ path ∈ after.seen, path ∈ t.seen ∨ ∀ target ∈ r.importsOn d path, target ∈ after.seen := by
  induction walks with
  | nil => exact ⟨fun _ none => absurd none List.not_mem_nil, fun _ member => .inl member⟩
  | seen old walks ih =>
    obtain ⟨rest, closed⟩ := ih files done
    exact ⟨List.forall_mem_cons.mpr ⟨walks.grows _ old, rest⟩, closed⟩
  | error => cases done
  | @visit path rest t found next result after _ visited walks ih =>
    obtain ⟨rfl, marked, kept⟩ := visit_ok files visited
    obtain ⟨all, closed⟩ := ih kept done
    obtain ⟨imports, others⟩ := List.forall_mem_append.mp all
    have here : path ∈ after.seen :=
      walks.grows path (marked ▸ OrderedSet.mem_insert.mpr (.inr rfl))
    refine ⟨List.forall_mem_cons.mpr ⟨here, others⟩, fun other member => ?_⟩
    rcases closed other member with before | complete
    · rw [marked, OrderedSet.mem_insert] at before
      rcases before with old | rfl
      · exact .inl old
      · exact .inr imports
    · exact .inr complete

end Walk

section Series

variable {r : Resolver} {d : Disk} {calls : List (String × Option Token)}
  {seen last : OrderedSet String} {h k : Host} {reports : List Report}

theorem Series.grows (series : Series r calls seen h reports last k) :
    ∀ old ∈ seen, old ∈ last := by
  induction series with
  | nil => exact fun _ member => member
  | cons walks _ ih => exact fun old member => ih old (walks.grows old member)

/-- Where a path that the calls have put into the map has an import outside, a failed call has left
the path there. -/
theorem Series.blames (series : Series r calls seen h reports last k) (files : h.disk = d) :
    ∀ path ∈ last, path ∈ seen ∨ (∃ failed ∈ reports, failed.Left path) ∨
      ∀ target ∈ r.importsOn d path, target ∈ last := by
  induction series with
  | nil => exact fun _ member => .inl member
  | @cons entry token rest seen h result t later last k walks series ih =>
    intro path member
    rcases ih (walks.follows.disk.trans files) path member with
      here | ⟨failed, inside, left⟩ | closed
    · by_cases old : path ∈ seen
      · exact .inl old
      · right
        cases result with
        | error e => exact .inl ⟨_, List.mem_cons_self, ⟨e, rfl⟩, here, old⟩
        | ok _ =>
          -- The map only grows, so what this call has completed stays complete.
          have complete := ((walks.covers files rfl).2 path here).resolve_left old
          exact .inr fun target imported => series.grows target (complete target imported)
    · exact .inr (.inl ⟨failed, List.mem_cons_of_mem _ inside, left⟩)
    · exact .inr (.inr closed)

/-- A call fails, or it returns its entry file and the imports of all it returns but the paths that
failed calls have left. -/
theorem Series.returns {earlier later : List Report} {report : Report}
    (series : Series r calls ∅ h (earlier ++ report :: later) last k) (files : h.disk = d) :
    (∃ e, report.found.outcome = some (.error e)) ∨
    report.found.outcome = some (.ok report.found.seen.toList) ∧
    absolute report.entry ∈ report.found.seen ∧
    ∀ path ∈ report.found.seen, (∃ failed ∈ earlier, failed.Left path) ∨
      ∀ target ∈ r.importsOn d path, target ∈ report.found.seen := by
  obtain ⟨first, second, middle, between, -, front, back⟩ := series.split
  cases back with
  | @cons entry token _ _ _ result t _ _ _ walks _ =>
    cases result with
    | error e => exact .inl ⟨e, rfl⟩
    | ok _ =>
      obtain ⟨start, closed⟩ := walks.covers (front.follows.disk.trans files) rfl
      refine .inr ⟨rfl, List.forall_mem_singleton.mp start, fun path member => ?_⟩
      rcases closed path member with old | complete
      · rcases front.blames files path old with none | left | complete
        · exact absurd none (OrderedSet.not_mem_empty path)
        · exact .inl left
        · exact .inr fun target imported => walks.grows target (complete target imported)
      · exact .inr complete

end Series

/-- A call that returns, after others with the same map of which some have failed, on any faults and
tokens: it has every path that its entry file reaches through paths that no failed call has left.
It has every path that the entry file reaches just if it has the imports of the paths that were left
and are reached. -/
theorem complete_but_behind_failures (r : Resolver) (calls : List (String × Option Token)) (h : Host)
    {earlier later : List Report} {report : Report}
    (split : (r.resolveAll calls ∅ h).1.1 = earlier ++ report :: later) :
    (∃ e, report.found.outcome = some (.error e)) ∨
    report.found.outcome = some (.ok report.found.seen.toList) ∧
    (∀ path, ReflTransGen (fun source target => target ∈ r.importsOn h.disk source ∧
        ∀ failed ∈ earlier, ¬ failed.Left source) (absolute report.entry) path →
      path ∈ report.found.seen) ∧
    ((∀ path, r.Reaches h.disk (absolute report.entry) path → path ∈ report.found.seen) ↔
      ∀ failed ∈ earlier, ∀ path, failed.Left path →
        r.Reaches h.disk (absolute report.entry) path →
        ∀ target ∈ r.importsOn h.disk path, target ∈ report.found.seen) := by
  have run := series_resolveAll r calls ∅ h
  rw [split] at run
  refine (run.returns rfl).imp_right fun returned => ?_
  obtain ⟨outcome, start, blamed⟩ := returned
  refine ⟨outcome, fun path reaches => ?_, fun all failed inside path left reaches target imported =>
    all target (reaches.tail imported), fun spared path reaches => ?_⟩
  · induction reaches with
    | refl => exact start
    | tail _ leads ih =>
      rcases blamed _ ih with ⟨failed, inside, left⟩ | complete
      · exact absurd left (leads.2 failed inside)
      · exact complete _ leads.1
  · induction reaches with
    | refl => exact start
    | @tail source target reaches leads ih =>
      rcases blamed source ih with ⟨failed, inside, left⟩ | complete
      · exact spared failed inside source left reaches target leads
      · exact complete target leads

/-- A deadline passes after the first file; the second entry file imports it, and returns without
what lies behind it. -/
theorem complete_but_behind_failures_deadline :
    let disk := ((Disk.empty.put "/p/main.js" (.file "require('./a.js')".toUTF8)).put
      "/p/a.js" (.file "a".toUTF8)).put
      "/p/admin.js" (.file "require('./main.js') require('./b.js')".toUTF8)
    let r : Resolver := ⟨.withLimits 3 1000, [".js"]⟩
    let h := Host.ofDisk (disk.put "/p/b.js" (.file "b".toUTF8))
    let calls := [("/p/main.js", some ⟨some 0.5, false⟩), ("/p/admin.js", none)]
    ∃ failed report, (r.resolveAll calls ∅ h).1.1 = [failed] ++ report :: [] ∧
      failed.Left "/p/main.js" ∧
      report.found.seen.toList = ["/p/main.js", "/p/admin.js", "/p/b.js"] ∧
      report.found.outcome = some (.ok report.found.seen.toList) ∧
      ¬ ∀ path, r.Reaches h.disk (absolute report.entry) path → path ∈ report.found.seen := by
  intro disk r h calls
  have told : (r.resolveAll calls ∅ h).1.1.map (fun report => (report.entry, report.before.toList,
      report.found.seen.toList, report.found.outcome.map Except.isOk)) =
      [("/p/main.js", [], ["/p/main.js"], some false), ("/p/admin.js", ["/p/main.js"],
        ["/p/main.js", "/p/admin.js", "/p/b.js"], some true)] := by decide +kernel
  have start : absolute "/p/admin.js" = "/p/admin.js" := by decide +kernel
  have imports : r.importsOn h.disk "/p/admin.js" = ["/p/main.js", "/p/b.js"] := by decide +kernel
  have behind : r.importsOn h.disk "/p/main.js" = ["/p/a.js"] := by decide +kernel
  obtain ⟨failed, rest, split, first, told⟩ := List.map_eq_cons_iff.mp told
  obtain ⟨report, _, rfl, second, none⟩ := List.map_eq_cons_iff.mp told
  obtain rfl := List.map_eq_nil_iff.mp none
  simp only [Prod.mk.injEq] at first second
  obtain ⟨-, before, here, stopped⟩ := first
  obtain ⟨entry, -, seen, returned⟩ := second
  have left : failed.Left "/p/main.js" := by
    obtain ⟨answer, stopped, isError⟩ := Option.map_eq_some_iff.mp stopped
    cases answer with
    | ok files => cases isError
    | error e => exact ⟨⟨e, stopped⟩, by simp [OrderedSet.mem_def, here],
        by simp [OrderedSet.mem_def, before]⟩
  rcases @complete_but_behind_failures r calls h [failed] [] report split with
    ⟨e, raised⟩ | ⟨outcome, -, complete⟩
  · rw [raised] at returned
    cases returned
  refine ⟨failed, report, split, left, seen, outcome, fun all => ?_⟩
  have reaches : r.Reaches h.disk (absolute report.entry) "/p/main.js" :=
    .single (by simp [entry, start, imports])
  have found := complete.mp all failed List.mem_cons_self "/p/main.js" left reaches "/p/a.js"
    (by simp [behind])
  rw [OrderedSet.mem_def, seen] at found
  exact absurd found (by decide)

/-- The law that a call which returns has every path that its entry file reaches is false: a second
call returns at once where the first one was stopped. -/
theorem retry_returns_without_imports :
    ¬ ∀ (r : Resolver) (calls : List (String × Option Token)) (h : Host),
      ∀ report ∈ (r.resolveAll calls ∅ h).1.1, ∀ files, report.found.outcome = some (.ok files) →
        ∀ path, r.Reaches h.disk (absolute report.entry) path → path ∈ files := by
  intro law
  let disk := (Disk.empty.put "/p/main.js" (.file "require('./a.js')".toUTF8)).put
    "/p/a.js" (.file "a".toUTF8)
  let r : Resolver := ⟨.withLimits 3 1000, [".js"]⟩
  let h := Host.ofDisk disk
  let calls : List (String × Option Token) :=
    [("/p/main.js", some ⟨some 0.5, false⟩), ("/p/main.js", none)]
  have told : (r.resolveAll calls ∅ h).1.1.map (fun report => (report.entry,
      report.found.outcome.bind Except.toOption)) =
      [("/p/main.js", none), ("/p/main.js", some ["/p/main.js"])] := by decide +kernel
  have start : absolute "/p/main.js" = "/p/main.js" := by decide +kernel
  have imports : r.importsOn h.disk "/p/main.js" = ["/p/a.js"] := by decide +kernel
  have second : ("/p/main.js", some ["/p/main.js"]) ∈ (r.resolveAll calls ∅ h).1.1.map
      fun report => (report.entry, report.found.outcome.bind Except.toOption) := by simp [told]
  obtain ⟨report, member, same⟩ := List.mem_map.mp second
  obtain ⟨entry, outcome⟩ := Prod.mk.inj same
  obtain ⟨answer, outcome, files⟩ := Option.bind_eq_some_iff.mp outcome
  cases answer with
  | error e => cases files
  | ok files' =>
    cases files
    have found := law r calls h report member _ outcome "/p/a.js"
      (.single (by simp [entry, start, imports]))
    exact absurd found (by decide)

end ModuleBundler.Source
