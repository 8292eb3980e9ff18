import ModuleBundler.Proofs.Source.Order

/-! Resolutions one after the other that share one map of seen paths. Each adds the paths
it meets to the map. As long as no call fails, the map is closed under imports between
two calls: it holds all that the entry files so far reach, and nothing else, so the
order of the entry files shows in the order of the paths only. -/
namespace ModuleBundler.Source

open Cancellation ModuleBundler.Path Relation

/-- What one resolution of a series came to. -/
structure Report where
  entry : String
  /-- The paths in the map before it. -/
  before : OrderedSet String
  found : Resolver.Resolution

/-- Resolves entry files one after the other, each with its token, from a map that all share. -/
def Resolver.resolveAll (r : Resolver) :
    List (String × Option Token) → OrderedSet String → StateM Host (List Report × OrderedSet String)
  | [], seen => return ([], seen)
  | (entry, token) :: rest, seen => do
    let (found, shared) ← r.resolveFor entry (.shared seen) token
    let (later, last) ← r.resolveAll rest shared.toSet
    return (⟨entry, seen, found⟩ :: later, last)

/-- A series of resolutions, each of them a walk from the map that the one before has left. -/
inductive Series (r : Resolver) : List (String × Option Token) → OrderedSet String → Host →
    List Report → OrderedSet String → Host → Prop where
  | nil {seen h} : Series r [] seen h [] seen h
  | cons {entry token rest seen h result t later last k} :
      Walks (r.surroundings token) r.extensions [absolute entry] ⟨seen, [], h⟩ result t →
      Series r rest t.seen t.state later last k →
      Series r ((entry, token) :: rest) seen h
        (⟨entry, seen, t.seen, some (result.map fun _ => t.seen.toList)⟩ :: later) last k

theorem series_resolveAll (r : Resolver) (calls : List (String × Option Token))
    (seen : OrderedSet String) (h : Host) :
    Series r calls seen h (r.resolveAll calls seen h).1.1 (r.resolveAll calls seen h).1.2
      (r.resolveAll calls seen h).2 := by
  induction calls generalizing seen h with
  | nil => exact .nil
  | cons call rest ih =>
    obtain ⟨entry, token⟩ := call
    obtain ⟨result, t, ending⟩ := r.exists_walkFrom token entry seen h
    have walks := walks_of_walk ((r.walkFrom_ending token _ _ h).symm.trans ending)
    rw [Resolver.resolveAll, bind_apply, r.resolveFor_eq token entry (.shared seen) ending]
    exact .cons walks (ih t.seen t.state)

namespace Series

variable {r : Resolver} {calls : List (String × Option Token)} {seen last : OrderedSet String}
  {h k : Host} {reports earlier later : List Report} {d : Disk}

theorem entries (series : Series r calls seen h reports last k) :
    reports.map (·.entry) = calls.map (·.1) := by
  induction series with
  | nil => rfl
  | cons _ _ ih => rw [List.map_cons, List.map_cons, ih]

theorem split (series : Series r calls seen h (earlier ++ later) last k) :
    ∃ first second middle between, calls = first ++ second ∧
      Series r first seen h earlier middle between ∧
      Series r second middle between later last k := by
  induction earlier generalizing calls seen h with
  | nil => exact ⟨[], calls, seen, h, rfl, .nil, series⟩
  | cons report earlier ih =>
    cases series with
    | cons walks rest =>
      obtain ⟨first, second, middle, between, rfl, front, back⟩ := ih rest
      exact ⟨_ :: first, second, middle, between, rfl, .cons walks front, back⟩

/-- Each call finds the map that the one before has left. -/
theorem chain (series : Series r calls seen h reports last k) :
    seen :: reports.map (·.found.seen) = reports.map (·.before) ++ [last] := by
  induction series with
  | nil => rfl
  | cons _ _ ih => rw [List.map_cons, List.map_cons, ih, List.cons_append]

theorem follows (series : Series r calls seen h reports last k) : h.Follows k := by
  induction series with
  | nil => exact .refl _
  | cons walks _ ih => exact walks.follows.trans ih

end Series

section Calm

variable {r : Resolver} {d : Disk} {entry : String} {seen last : OrderedSet String} {h k : Host}
  {result : Except DiscoveryError Unit} {t : Trace Host} {calls : List (String × Option Token)}
  {reports : List Report}

/-- A resolution without token and faults fails at a path without a text that its entry file reaches,
or meets the order of what is fresh and reads all of it. -/
theorem Walks.meets
    (walks : Walks (r.surroundings none) r.extensions [absolute entry] ⟨seen, [], h⟩ result t)
    (calm : h.faults = []) (files : h.disk = d) :
    (∃ e path, result = .error e ∧ r.Reaches d (absolute entry) path ∧
      r.reader.textOn? d path = none) ∨
    ∃ new, result = .ok () ∧ DepthFirst (r.importsOn d) seen.toList [absolute entry] new ∧
      t.seen.toList = seen.toList ++ new ∧ t.state.visits = h.visits ++ new ∧
      ∀ path ∈ new, (r.reader.textOn? d path).isSome = true := by
  have normal : ∀ path ∈ [absolute entry], IsNormal path :=
    List.forall_mem_singleton.mpr (isNormal_absolute entry)
  obtain ⟨new, met⟩ := r.exists_order d seen normal
  cases walks.along calm files normal met with
  | finished all seen visits => exact .inr ⟨new, rfl, met, seen, visits, all⟩
  | @stopped before path rest e split _ absent =>
    left
    obtain ⟨start, here, reaches⟩ := met.reached path (by simp [split])
    rw [List.mem_singleton.mp here] at reaches
    exact ⟨_, path, rfl, reaches, absent⟩

/-- Every file of a set leads to files of the set only. -/
def Closed (r : Resolver) (d : Disk) (seen : OrderedSet String) : Prop :=
  ∀ path ∈ seen, ∀ target ∈ r.importsOn d path, target ∈ seen

theorem closed_empty : Closed r d ∅ := fun path none => absurd none (OrderedSet.not_mem_empty path)

/-- What is fresh to a closed set closes it again, with all that the entry file reaches. -/
theorem Closed.grown (closed : Closed r d seen) {new : List String}
    (met : DepthFirst (r.importsOn d) seen.toList [absolute entry] new)
    (grown : t.seen.toList = seen.toList ++ new) : Closed r d t.seen ∧
      ∀ path, path ∈ t.seen ↔ path ∈ seen ∨ r.Reaches d (absolute entry) path := by
  simp only [Closed, OrderedSet.mem_def, grown]
  constructor
  · intro path member target imported
    rcases List.mem_append.mp member with old | fresh
    · exact List.mem_append_left _ (closed path old target imported)
    · exact met.closed path fresh target imported
  · intro path
    rw [met.mem_iff closed]
    simp [Resolver.Reaches]

/-- Without tokens and faults, a call that fails has met a path without a text. -/
theorem Series.raises (series : Series r calls seen h reports last k)
    (untold : ∀ call ∈ calls, call.2 = none) (calm : h.faults = []) (files : h.disk = d) :
    ∀ report ∈ reports, ∀ e, report.found.outcome = some (.error e) →
      ∃ path, r.Reaches d (absolute report.entry) path ∧ r.reader.textOn? d path = none := by
  induction series with
  | nil => exact fun _ none => absurd none List.not_mem_nil
  | @cons entry token rest seen h result t later last k walks _ ih =>
    obtain ⟨rfl, others⟩ := List.forall_mem_cons.mp untold
    have follows := walks.follows
    refine List.forall_mem_cons.mpr ⟨fun e failed => ?_,
      ih others (follows.calm calm) (follows.disk.trans files)⟩
    rcases walks.meets calm files with ⟨_, path, -, reaches, absent⟩ | ⟨new, rfl, -⟩
    · exact ⟨path, reaches, absent⟩
    · cases failed

/-- Without tokens, faults and failures, a series from a closed map adds to it what its entry files
reach, and reads all that it adds, each path once. -/
theorem Series.charts (series : Series r calls seen h reports last k)
    (untold : ∀ call ∈ calls, call.2 = none) (calm : h.faults = []) (files : h.disk = d)
    (closed : Closed r d seen)
    (succeeds : ∀ report ∈ reports, ∀ e, report.found.outcome ≠ some (.error e)) :
    Closed r d last ∧
    (∀ path, path ∈ last ↔
      path ∈ seen ∨ ∃ report ∈ reports, r.Reaches d (absolute report.entry) path) ∧
    ∃ new, last.toList = seen.toList ++ new ∧ k.visits = h.visits ++ new ∧
      ∀ path ∈ new, (r.reader.textOn? d path).isSome = true := by
  induction series with
  | nil => exact ⟨closed, by simp, [], by simp⟩
  | @cons entry token rest seen h result t later last k walks _ ih =>
    obtain ⟨rfl, others⟩ := List.forall_mem_cons.mp untold
    obtain ⟨here, behind⟩ := List.forall_mem_cons.mp succeeds
    have follows := walks.follows
    rcases walks.meets calm files with ⟨e, -, rfl, -⟩ | ⟨new, rfl, met, grown, visits, all⟩
    · exact absurd rfl (here e)
    · obtain ⟨closed, reached⟩ := closed.grown met grown
      obtain ⟨closed, reachedLater, more, grownLater, visitsLater, allLater⟩ :=
        ih others (follows.calm calm) (follows.disk.trans files) closed behind
      refine ⟨closed, fun path => ?_, new ++ more, ?_, ?_,
        List.forall_mem_append.mpr ⟨all, allLater⟩⟩
      · rw [reachedLater, reached, List.exists_mem_cons_iff, or_assoc]
      · rw [grownLater, grown, List.append_assoc]
      · rw [visitsLater, visits, List.append_assoc]

/-- A call of such a series puts what is fresh behind the paths before it and returns all of them. -/
theorem Series.call {earlier later : List Report} {report : Report}
    (series : Series r calls seen h (earlier ++ report :: later) last k)
    (untold : ∀ call ∈ calls, call.2 = none) (calm : h.faults = []) (files : h.disk = d)
    (closed : Closed r d seen)
    (succeeds : ∀ done ∈ earlier ++ report :: later, ∀ e, done.found.outcome ≠ some (.error e)) :
    ∃ new, DepthFirst (r.importsOn d) report.before.toList [absolute report.entry] new ∧
      report.found.seen.toList = report.before.toList ++ new ∧
      report.found.outcome = some (.ok report.found.seen.toList) ∧
      ∀ path, path ∈ report.found.seen ↔
        path ∈ seen ∨ ∃ done ∈ earlier ++ [report], r.Reaches d (absolute done.entry) path := by
  obtain ⟨first, second, middle, between, rfl, front, back⟩ := series.split
  obtain ⟨untoldFront, untoldBack⟩ := List.forall_mem_append.mp untold
  obtain ⟨before, behind⟩ := List.forall_mem_append.mp succeeds
  obtain ⟨closed, known, -⟩ := front.charts untoldFront calm files closed before
  have follows := front.follows
  cases back with
  | @cons entry token _ _ _ result t _ _ _ walks _ =>
    obtain rfl : token = none := (List.forall_mem_cons.mp untoldBack).1
    rcases walks.meets (follows.calm calm) (follows.disk.trans files) with
      ⟨e, -, rfl, -⟩ | ⟨new, rfl, met, grown, -⟩
    · exact absurd rfl ((List.forall_mem_cons.mp behind).1 e)
    · refine ⟨new, met, grown, rfl, fun path => ?_⟩
      rw [(closed.grown met grown).2, known]
      simp [or_and_right, exists_or, or_assoc]

end Calm

section Entries

variable {r : Resolver} {d : Disk} {entries : List String} {last : OrderedSet String} {h k : Host}
  {reports : List Report}

theorem untold_entries (entries : List String) :
    ∀ call ∈ entries.map ((·, (none : Option Token))), call.2 = none := by
  simp

theorem Series.names (series : Series r (entries.map (·, none)) ∅ h reports last k) :
    reports.map (·.entry) = entries := by
  rw [series.entries, List.map_map]
  exact List.map_id entries

/-- From an empty map: what the entry files reach is in the map at last, has been read once, and
has a text. -/
theorem Series.charts_entries (series : Series r (entries.map (·, none)) ∅ h reports last k)
    (calm : h.faults = []) (files : h.disk = d)
    (succeeds : ∀ report ∈ reports, ∀ e, report.found.outcome ≠ some (.error e)) :
    (∀ path, path ∈ last ↔ ∃ entry ∈ entries, r.Reaches d (absolute entry) path) ∧
    k.visits = h.visits ++ last.toList ∧
    ∀ path ∈ last, (r.reader.textOn? d path).isSome = true := by
  obtain ⟨-, reached, new, grown, visits, readable⟩ :=
    series.charts (untold_entries entries) calm files closed_empty succeeds
  have grown : last.toList = new := grown
  refine ⟨fun path => ?_, grown ▸ visits, fun path member => readable path (grown ▸ member)⟩
  rw [reached, ← series.names]
  simp [OrderedSet.not_mem_empty]

/-- Entry files of which none reaches a path without a text are resolved without a failure. -/
theorem Series.succeeds (series : Series r (entries.map (·, none)) ∅ h reports last k)
    (calm : h.faults = []) (files : h.disk = d)
    (readable : ∀ entry ∈ entries, ∀ path, r.Reaches d (absolute entry) path →
      (r.reader.textOn? d path).isSome = true) :
    ∀ report ∈ reports, ∀ e, report.found.outcome ≠ some (.error e) := by
  intro report member e failed
  obtain ⟨path, reaches, absent⟩ :=
    series.raises (untold_entries entries) calm files report member e failed
  have named : report.entry ∈ entries := series.names ▸ List.mem_map_of_mem member
  have some := readable report.entry named path reaches
  rw [absent] at some
  cases some

end Entries

/-- Entry files resolved one after the other with one map, on files that stay and without faults and
tokens: as long as no call fails, each call puts what is fresh behind the paths seen, in depth-first
order, and returns all of them, which are what the entry files so far reach; every path is read once;
and another order of the entry files changes the order of the paths only. -/
theorem shared_map_accumulates (r : Resolver) (entries : List String) {h : Host}
    (calm : h.faults = []) :
    let series := r.resolveAll (entries.map (·, none)) ∅ h
    let reports := series.1.1
    let shared := series.1.2
    (∀ report ∈ reports, ∀ e, report.found.outcome ≠ some (.error e)) →
    reports.map (·.entry) = entries ∧
    ∅ :: reports.map (·.found.seen) = reports.map (·.before) ++ [shared] ∧
    (∀ earlier report later, reports = earlier ++ report :: later → ∃ new,
      DepthFirst (r.importsOn h.disk) report.before.toList [absolute report.entry] new ∧
      report.found.seen.toList = report.before.toList ++ new ∧
      report.found.outcome = some (.ok report.found.seen.toList) ∧
      ∀ path, path ∈ report.found.seen ↔
        ∃ done ∈ earlier ++ [report], r.Reaches h.disk (absolute done.entry) path) ∧
    (∀ path, path ∈ shared ↔ ∃ entry ∈ entries, r.Reaches h.disk (absolute entry) path) ∧
    shared.toList.Nodup ∧ series.2.visits = h.visits ++ shared.toList ∧
    ∀ (others : List String) (k : Host), others.Perm entries → k.faults = [] → k.disk = h.disk →
      let again := r.resolveAll (others.map (·, none)) ∅ k
      (∀ report ∈ again.1.1, ∀ e, report.found.outcome ≠ some (.error e)) ∧
      again.1.2.toList.Perm shared.toList ∧ again.2.visits = k.visits ++ again.1.2.toList := by
  intro series reports shared succeeds
  have run : Series r (entries.map (·, none)) ∅ h reports shared series.2 :=
    series_resolveAll r (entries.map (·, none)) ∅ h
  obtain ⟨reached, visits, readable⟩ := run.charts_entries calm rfl succeeds
  refine ⟨run.names, run.chain, fun earlier report later split => ?_, reached, shared.nodup, visits,
    fun others k same calm' files => ?_⟩
  · clear_value reports
    subst split
    obtain ⟨new, met, grown, outcome, known⟩ :=
      run.call (untold_entries entries) calm rfl closed_empty succeeds
    refine ⟨new, met, grown, outcome, fun path => ?_⟩
    rw [known, or_iff_right (OrderedSet.not_mem_empty path)]
  · intro again
    have rerun : Series r (others.map (·, none)) ∅ k again.1.1 again.1.2 again.2 :=
      series_resolveAll r (others.map (·, none)) ∅ k
    have succeeds := rerun.succeeds calm' files fun entry member path reaches =>
      readable path ((reached path).mpr ⟨entry, same.mem_iff.mp member, reaches⟩)
    obtain ⟨reachedAgain, visitsAgain, -⟩ := rerun.charts_entries calm' files succeeds
    refine ⟨succeeds, ?_, visitsAgain⟩
    rw [List.perm_ext_iff_of_nodup again.1.2.nodup shared.nodup]
    intro path
    rw [← OrderedSet.mem_def, ← OrderedSet.mem_def, reachedAgain, reached]
    simp only [same.mem_iff]

/-- Two entry files share two files that import each other. -/
theorem shared_map_accumulates_overlapping :
    let pages := (Disk.empty.put "/p/main.js"
      (.file "require('./a.js') require('./c.js')".toUTF8)).put
      "/p/admin.js" (.file "require('./b.js')".toUTF8)
    let disk := ((pages.put "/p/a.js" (.file "require('./b.js')".toUTF8)).put
      "/p/b.js" (.file "import('./a.js')".toUTF8)).put "/p/c.js" (.file "c".toUTF8)
    let r : Resolver := ⟨.withLimits 3 1000, [".js"]⟩
    let h := Host.ofDisk disk
    let series := r.resolveAll [("/p/main.js", none), ("/p/admin.js", none)] ∅ h
    let again := r.resolveAll [("/p/admin.js", none), ("/p/main.js", none)] ∅ h
    h.faults = [] ∧ (∀ report ∈ series.1.1, ∀ e, report.found.outcome ≠ some (.error e)) ∧
    series.1.1.map (·.found.seen.toList) = [["/p/main.js", "/p/a.js", "/p/b.js", "/p/c.js"],
      ["/p/main.js", "/p/a.js", "/p/b.js", "/p/c.js", "/p/admin.js"]] ∧
    series.2.visits = series.1.2.toList ∧
    again.1.2.toList = ["/p/admin.js", "/p/b.js", "/p/a.js", "/p/main.js", "/p/c.js"] ∧
    again.1.2.toList.Perm series.1.2.toList := by
  intro pages disk r h series again
  have succeeds : (series.1.1.all fun report =>
      (report.found.outcome.bind Except.toOption).isSome) = true := by decide +kernel
  have succeeds : ∀ report ∈ series.1.1, ∀ e, report.found.outcome ≠ some (.error e) := by
    intro report member e failed
    have some := List.all_eq_true.mp succeeds report member
    rw [failed] at some
    cases some
  have maps : series.1.1.map (·.found.seen.toList) =
      [["/p/main.js", "/p/a.js", "/p/b.js", "/p/c.js"],
        ["/p/main.js", "/p/a.js", "/p/b.js", "/p/c.js", "/p/admin.js"]] := by decide +kernel
  have reordered :
      again.1.2.toList = ["/p/admin.js", "/p/b.js", "/p/a.js", "/p/main.js", "/p/c.js"] := by
    decide +kernel
  obtain ⟨-, -, -, -, -, visits, permuted⟩ :=
    shared_map_accumulates r ["/p/main.js", "/p/admin.js"] (h := h) rfl succeeds
  obtain ⟨-, permuted, -⟩ :=
    permuted ["/p/admin.js", "/p/main.js"] h (.swap _ _ []) rfl rfl
  exact ⟨rfl, succeeds, maps, visits, reordered, permuted⟩

end ModuleBundler.Source
