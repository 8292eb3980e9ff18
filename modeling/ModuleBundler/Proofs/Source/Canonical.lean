import Mathlib.Data.List.Nodup
import ModuleBundler.Proofs.Path.Parts
import ModuleBundler.Proofs.Source.Descent

/-! The paths of a walk. It starts from a normal absolute path, and what it finds in the
text of a file is seen from the folder of that file and brought into normal form; so
every path that it reads, marks or records is absolute and in normal form, whatever the
files hold. Two spellings of one path are one path by then, and no path is read twice. -/
namespace ModuleBundler.Source

open Cancellation ModuleBundler.Path

/-- An absolute path that is its own normal form: one slash or two, then names with single slashes
between them and none behind. -/
structure IsCanonical (path : String) : Prop where
  normal : IsNormal path
  spelling : ∃ slashes names, (slashes = 1 ∨ slashes = 2) ∧ (∀ name ∈ names, Proper name) ∧
    path.toList = List.replicate slashes '/' ++ joinWith names ∧
    (names ≠ [] → path.toList.getLast? ≠ some '/')

theorem isCanonical_of_isNormal {path : String} (normal : IsNormal path) : IsCanonical path := by
  obtain ⟨slashes, names, few, proper, form, parts⟩ := normal.exists_parts
  refine ⟨normal, slashes, names, few, proper, form, fun named ends => ?_⟩
  obtain ⟨front, last, whole⟩ := normal.exists_front
  have own : (Parts.ofString path).name ∈ names := by
    rw [parts, Parts.name, List.getLastD_eq_getLast?, List.getLast?_eq_some_getLast named]
    exact List.getLast_mem named
  have some := (proper _ own).some
  rw [last, List.getLast?_append, List.getLast?_cons_of_ne_nil some,
    List.getLast?_eq_some_getLast some] at ends
  exact whole (Option.some.inj ends ▸ List.getLast_mem some)

section Record

/-- The path that is asked for, if one is. -/
def Inquiry.path? : Inquiry → Option String
  | .leave => none
  | .read path => some path

/-- The paths that were read, in order. -/
def pathsRead (record : List Inquiry) : List String := record.filterMap Inquiry.path?

theorem pathsRead_leave (record : List Inquiry) :
    pathsRead (record ++ [.leave]) = pathsRead record := by
  simp [pathsRead, Inquiry.path?]

theorem pathsRead_read (record : List Inquiry) (path : String) :
    pathsRead (record ++ [.leave] ++ [.read path]) = pathsRead record ++ [path] := by
  rw [pathsRead, List.filterMap_append]
  exact congrArg (· ++ [path]) (pathsRead_leave record)

end Record

variable {σ ε : Type}

/-- The surroundings may answer a text for a path. -/
def Surroundings.Gives (e : Surroundings σ ε) (path content : String) : Prop :=
  ∃ s last, e.read path s = (.ok content, last)

/-- What holds of a recorded walk, from the paths seen before, with a stack of paths to visit: it
has marked what it has read, all of it in normal form, and has found what the texts say. -/
structure Orderly (e : Surroundings σ ε) (extensions : List String) (before : OrderedSet String)
    (stack : List String) (t : Trace (σ × List Inquiry)) : Prop where
  seen : t.seen.toList = before.toList ++ pathsRead t.state.2
  read : ∀ path ∈ pathsRead t.state.2, IsNormal path
  pending : ∀ path ∈ stack, IsNormal path
  edges : ∀ edge ∈ t.edges, edge.1 ∈ pathsRead t.state.2 ∧
    ∃ content, e.Gives edge.1 content ∧ localImports extensions edge.1 content = edge.2
  covered : ∀ edge ∈ t.edges, ∀ target ∈ edge.2, target ∈ t.seen ∨ target ∈ stack

namespace Orderly

variable {e : Surroundings σ ε} {extensions stack rest : List String} {before : OrderedSet String}
  {path : String} {t : Trace (σ × List Inquiry)}

theorem start {s : σ} (normal : IsNormal path) :
    Orderly e extensions before [path] ⟨before, [], (s, [])⟩ where
  seen := (List.append_nil _).symm
  read _ none := absurd none List.not_mem_nil
  pending _ member := List.mem_singleton.mp member ▸ normal
  edges _ none := absurd none List.not_mem_nil
  covered _ none := absurd none List.not_mem_nil

theorem pass (orderly : Orderly e extensions before (path :: rest) t) (old : path ∈ t.seen) :
    Orderly e extensions before rest t := by
  refine { orderly with
    pending := (List.forall_mem_cons.mp orderly.pending).2
    covered := fun edge member target imported => ?_ }
  rcases orderly.covered edge member target imported with seen | waiting
  · exact .inl seen
  · rcases List.mem_cons.mp waiting with rfl | later
    · exact .inl old
    · exact .inr later

theorem refuse (orderly : Orderly e extensions before stack t) {s : σ × List Inquiry}
    (same : pathsRead s.2 = pathsRead t.state.2) :
    Orderly e extensions before stack { t with state := s } where
  seen := same ▸ orderly.seen
  read := same ▸ orderly.read
  pending := orderly.pending
  edges := same ▸ orderly.edges
  covered := orderly.covered

/-- A path that is asked for is marked first; this takes it off the stack. -/
theorem mark (orderly : Orderly e extensions before (path :: rest) t) (fresh : path ∉ t.seen)
    {s : σ × List Inquiry} (asked : s.2 = t.state.2 ++ [.leave] ++ [.read path]) :
    Orderly e extensions before rest ⟨t.seen.insert path, t.edges, s⟩ := by
  have reads : pathsRead s.2 = pathsRead t.state.2 ++ [path] := by rw [asked, pathsRead_read]
  obtain ⟨here, later⟩ := List.forall_mem_cons.mp orderly.pending
  constructor
  · rw [OrderedSet.toList_insert_of_not_mem fresh, orderly.seen, reads, List.append_assoc]
  · rw [reads]
    exact List.forall_mem_append.mpr ⟨orderly.read, List.forall_mem_singleton.mpr here⟩
  · exact later
  · intro edge member
    obtain ⟨source, found⟩ := orderly.edges edge member
    exact ⟨reads ▸ List.mem_append_left _ source, found⟩
  · intro edge member target imported
    rcases orderly.covered edge member target imported with seen | waiting
    · exact .inl (OrderedSet.mem_insert.mpr (.inl seen))
    · rcases List.mem_cons.mp waiting with rfl | later
      · exact .inl (OrderedSet.mem_insert.mpr (.inr rfl))
      · exact .inr later

/-- The imports of a path just read are put onto the stack. -/
theorem supply (orderly : Orderly e extensions before rest t) {content : String}
    (gives : e.Gives path content) (known : path ∈ pathsRead t.state.2)
    {s : σ × List Inquiry} (same : s.2 = t.state.2) :
    Orderly e extensions before (localImports extensions path content ++ rest)
      ⟨t.seen, t.edges ++ [(path, localImports extensions path content)], s⟩ := by
  have normal := orderly.read path known
  constructor
  · rw [same]
    exact orderly.seen
  · rw [same]
    exact orderly.read
  · exact List.forall_mem_append.mpr
      ⟨fun _ imported => isNormal_of_mem_localImports normal imported, orderly.pending⟩
  · rw [same]
    exact List.forall_mem_append.mpr
      ⟨orderly.edges, List.forall_mem_singleton.mpr ⟨known, content, gives, rfl⟩⟩
  · refine List.forall_mem_append.mpr ⟨fun edge member target imported => ?_,
      List.forall_mem_singleton.mpr fun target imported => .inr (List.mem_append_left _ imported)⟩
    exact (orderly.covered edge member target imported).imp_right (List.mem_append_right _)

/-- However far a walk gets, what is left of its stack is nothing if it has come to its end. -/
theorem walk (orderly : Orderly e extensions before stack t) (budget : Nat) :
    ∃ left, Orderly e extensions before left (e.recorded.walk extensions budget stack t).2 ∧
      ((e.recorded.walk extensions budget stack t).1 = some (.ok ()) → left = []) := by
  induction budget generalizing stack t with
  | zero => exact ⟨stack, orderly, nofun⟩
  | succ budget ih =>
    induction stack with
    | nil => exact ⟨[], orderly, fun _ => rfl⟩
    | cons path rest passed =>
      by_cases old : path ∈ t.seen
      · rw [Surroundings.walk_of_seen old]
        exact passed (orderly.pass old)
      · rw [Surroundings.walk_of_fresh old]
        have outcome := visited_visit e.recorded extensions path t
        generalize e.recorded.visit extensions path t = ended at outcome ⊢
        cases outcome with
        | refused leave =>
          have same := congrArg pathsRead (leave_of_recorded leave).2
          rw [pathsRead_leave] at same
          exact ⟨path :: rest, orderly.refuse same, nofun⟩
        | unread leave read =>
          have asked := (read_of_recorded read).2
          rw [(leave_of_recorded leave).2] at asked
          exact ⟨rest, orderly.mark old asked, nofun⟩
        | @read content _ s last leave read same =>
          obtain ⟨given, asked⟩ := read_of_recorded read
          rw [(leave_of_recorded leave).2] at asked
          have marked := orderly.mark old asked
          have known : path ∈ pathsRead last.2 := by
            rw [asked, pathsRead_read]
            exact List.mem_append_right _ List.mem_cons_self
          subst same
          exact ih (marked.supply ⟨_, _, given⟩ known rfl)

theorem nodup (orderly : Orderly e extensions before stack t) : (pathsRead t.state.2).Nodup :=
  (List.nodup_append.mp (orderly.seen ▸ t.seen.nodup)).2.1

/-- What was seen before is not read; with nothing left to visit, any other import is read once. -/
theorem count_read (orderly : Orderly e extensions before [] t) {edge : String × List String}
    (member : edge ∈ t.edges) {target : String} (imported : target ∈ edge.2) :
    (pathsRead t.state.2).count target = if target ∈ before then 0 else 1 := by
  have apart := (List.nodup_append.mp (orderly.seen ▸ t.seen.nodup)).2.2
  split
  next old => exact List.count_eq_zero.mpr fun read => apart target old target read rfl
  next fresh =>
    have seen := (orderly.covered edge member target imported).resolve_right List.not_mem_nil
    rw [OrderedSet.mem_def, orderly.seen, List.mem_append] at seen
    exact List.count_eq_one_of_mem orderly.nodup (seen.resolve_left fresh)

end Orderly

theorem canonical_of_imported {extensions : List String} {path content target : String}
    (normal : IsNormal path) (imported : target ∈ localImports extensions path content) :
    IsCanonical target ∧ ∃ ending ∈ extensions, ending.toList <:+ target.toList := by
  refine ⟨isCanonical_of_isNormal (isNormal_of_mem_localImports normal imported), ?_⟩
  have source := (List.mem_filter.mp imported).2
  obtain ⟨ending, known, fits⟩ := List.any_eq_true.mp source
  exact ⟨ending, known, List.isSuffixOf_iff_suffix.mp fits⟩

/-- Whatever the texts hold, however far the walk gets and whatever was seen before: the paths that
it reads, marks or records are canonical, and imports end in one of the extensions. Each path is
read once at most, even if specifiers of different spelling name it, and once exactly by the end of
the walk, unless it was seen before. -/
theorem walk_keeps_canonical {σ ε : Type} (e : Surroundings σ ε) (extensions : List String)
    (entry : String) (before : OrderedSet String) (s : σ) (budget : Nat) :
    let run := Walk.run e.recorded.leave (e.recorded.imports extensions) budget
      (.start (absolute entry) before) (s, [])
    let reads := pathsRead run.state.2
    (∀ path ∈ reads, IsCanonical path) ∧
    run.walk.seen.toList = before.toList ++ reads ∧
    (∀ edge ∈ run.walk.edges, IsCanonical edge.1 ∧ edge.1 ∈ reads ∧
      (∀ target ∈ edge.2,
        IsCanonical target ∧ ∃ ending ∈ extensions, ending.toList <:+ target.toList) ∧
      ∃ content, e.Gives edge.1 content ∧ ∀ specifier ∈ Script.scanImports content, ∀ target,
        Path.normalize (join (directory edge.1) specifier) = target →
        isSourceFile extensions target = true →
        target ∈ edge.2 ∧ reads.count target ≤ 1 ∧
          (run.outcome = some (.ok ()) → reads.count target = if target ∈ before then 0 else 1)) ∧
    ∀ (r : Resolver) (token : Option Token) (h : Host),
      let done := r.walkFrom token (.start (absolute entry) before) h
      (∀ path ∈ done.walk.seen, path ∈ before ∨ IsCanonical path) ∧
      ∀ edge ∈ done.walk.edges, IsCanonical edge.1 ∧ ∀ target ∈ edge.2,
        IsCanonical target ∧ ∃ ending ∈ r.extensions, ending.toList <:+ target.toList := by
  intro run reads
  have ending : e.recorded.walk extensions budget [absolute entry] ⟨before, [], (s, [])⟩ =
      (run.outcome, ⟨run.walk.seen, run.walk.edges, run.state⟩) := rfl
  have started : Orderly e extensions before [absolute entry] ⟨before, [], (s, [])⟩ :=
    .start (isNormal_absolute entry)
  obtain ⟨left, orderly, finished⟩ := started.walk budget
  rw [ending] at orderly finished
  refine ⟨fun path read => isCanonical_of_isNormal (orderly.read path read), orderly.seen,
    fun edge member => ?_, fun r token h => ?_⟩
  · obtain ⟨source, content, gives, found⟩ := orderly.edges edge member
    have normal := orderly.read _ source
    refine ⟨isCanonical_of_isNormal normal, source,
      fun target imported => canonical_of_imported normal (found ▸ imported), content, gives, ?_⟩
    rintro specifier scanned target rfl followed
    have imported : Path.normalize (join (directory edge.1) specifier) ∈ edge.2 :=
      found ▸ List.mem_filter.mpr ⟨List.mem_map_of_mem scanned, followed⟩
    refine ⟨imported, List.nodup_iff_count_le_one.mp orderly.nodup _, fun ended => ?_⟩
    rw [finished ended] at orderly
    exact orderly.count_read member imported
  · intro done
    have walked := walk_bare (r.surroundings token) r.extensions (Resolver.visitBudget h.disk)
      [absolute entry] ⟨before, [], (h, [])⟩
    have whole := (r.walkFrom_ending token (absolute entry) before h).trans walked
    have started : Orderly (r.surroundings token) r.extensions before [absolute entry]
        ⟨before, [], (h, [])⟩ := .start (isNormal_absolute entry)
    obtain ⟨left, orderly, -⟩ := started.walk (Resolver.visitBudget h.disk)
    have seen : done.walk.seen = _ := congrArg (fun ending => ending.2.seen) whole
    have edges : done.walk.edges = _ := congrArg (fun ending => ending.2.edges) whole
    rw [seen, edges]
    refine ⟨fun path member => ?_, fun edge member => ?_⟩
    · rw [OrderedSet.mem_def, Trace.bare, orderly.seen, List.mem_append] at member
      exact member.imp_right fun read => isCanonical_of_isNormal (orderly.read path read)
    · obtain ⟨source, content, -, found⟩ := orderly.edges edge member
      have normal := orderly.read _ source
      exact ⟨isCanonical_of_isNormal normal,
        fun target imported => canonical_of_imported normal (found ▸ imported)⟩

/-- Two spellings of one import, and a way past the root to a file seen before: the import is read
once, the other file not at all, and all paths are written in the one way. -/
theorem walk_keeps_canonical_spellings :
    let e : Surroundings Unit String :=
      { leave := fun s => (.ok (), s)
        read := fun path s => (.ok (if path = "/p/main.js" then
          "require('./a.js') require('../p//a.js')" else "require('../../lib.js')"), s)
        note := fun _ _ s => ((), s) }
    let run := Walk.run e.recorded.leave (e.recorded.imports [".js"]) 5
      (.start (absolute "p/.//main.js") (.ofList ["/lib.js"])) ((), [])
    let reads := pathsRead run.state.2
    run.outcome.bind Except.toOption = some () ∧ reads = ["/p/main.js", "/p/a.js"] ∧
      run.walk.edges = [("/p/main.js", ["/p/a.js", "/p/a.js"]), ("/p/a.js", ["/lib.js"])] ∧
      IsCanonical "/p/main.js" ∧ IsCanonical "/p/a.js" ∧ IsCanonical "/lib.js" := by
  intro e run reads
  obtain ⟨canonical, -, recorded, -⟩ :=
    walk_keeps_canonical e [".js"] "p/.//main.js" (.ofList ["/lib.js"]) () 5
  obtain ⟨finished, read, edges⟩ : run.outcome.bind Except.toOption = some () ∧
      reads = ["/p/main.js", "/p/a.js"] ∧
      run.walk.edges = [("/p/main.js", ["/p/a.js", "/p/a.js"]), ("/p/a.js", ["/lib.js"])] := by
    decide +kernel
  have both : ∀ path ∈ ["/p/main.js", "/p/a.js"], IsCanonical path := read ▸ canonical
  obtain ⟨-, -, targets, -⟩ := recorded ("/p/a.js", ["/lib.js"])
    (edges.symm ▸ List.mem_cons_of_mem _ List.mem_cons_self)
  exact ⟨finished, read, edges, both _ List.mem_cons_self,
    both _ (List.mem_cons_of_mem _ List.mem_cons_self), (targets _ List.mem_cons_self).1⟩

end ModuleBundler.Source
