import ModuleBundler.Proofs.Source.Calm
import ModuleBundler.Proofs.Source.DepthFirst
import ModuleBundler.Proofs.Source.Descent

/-! The order of a walk without token and faults. The files alone give it: it is the
depth-first order of what the entry file reaches through imports, a path without a
text having none. The walk goes along this order to its end, or to the first path
without a text, and begins the attempts to read that this takes and no others. -/
namespace ModuleBundler.Source

open Cancellation ModuleBundler.Path Relation

namespace Resolver

/-- The local imports of a path, as the files stand; where no text can be read, there are none. -/
def importsOn (r : Resolver) (d : Disk) (path : String) : List String :=
  ((r.reader.textOn? d path).map (localImports r.extensions path)).getD []

/-- One path leads to another through local imports. -/
def Reaches (r : Resolver) (d : Disk) : String → String → Prop :=
  ReflTransGen fun source target => target ∈ r.importsOn d source

variable {r : Resolver} {d : Disk} {path content : String}

theorem importsOn_of_some (readable : r.reader.textOn? d path = some content) :
    r.importsOn d path = localImports r.extensions path content := by
  rw [importsOn, readable, Option.map_some, Option.getD_some]

theorem importsOn_of_none (absent : r.reader.textOn? d path = none) : r.importsOn d path = [] := by
  rw [importsOn, absent, Option.map_none, Option.getD_none]

-- Case splits on equations would otherwise carry out reading on a path that is not known.
attribute [irreducible] importsOn

theorem isNormal_of_mem_importsOn (normal : IsNormal path) {target : String}
    (imported : target ∈ r.importsOn d path) : IsNormal target := by
  cases readable : r.reader.textOn? d path with
  | none => simp [importsOn_of_none readable] at imported
  | some content =>
    rw [importsOn_of_some readable] at imported
    exact isNormal_of_mem_localImports normal imported

theorem isNormal_of_reaches (normal : IsNormal path) {target : String}
    (reaches : r.Reaches d path target) : IsNormal target := by
  induction reaches with
  | refl => exact normal
  | tail _ imported ih => exact isNormal_of_mem_importsOn ih imported

/-- From paths in normal form there is an order, whatever has been seen: only the files of the disk
lead further. -/
theorem exists_order (r : Resolver) (d : Disk) (seen : OrderedSet String) {stack : List String}
    (normal : ∀ path ∈ stack, IsNormal path) :
    ∃ order, DepthFirst (r.importsOn d) seen.toList stack order := by
  let kind := fun path => path ∈ stack ++ d.paths.flatMap (r.importsOn d) ∧ IsNormal path
  have inside : ∀ path, kind path → path ∈ stack ++ d.paths.flatMap (r.importsOn d) :=
    fun _ known => known.1
  refine DepthFirst.exists_order inside ?_ seen stack fun path member =>
    ⟨List.mem_append_left _ member, normal path member⟩
  rintro path ⟨-, named⟩ target imported
  refine ⟨List.mem_append_right _ (List.mem_flatMap.mpr ⟨path, ?_, imported⟩),
    isNormal_of_mem_importsOn named imported⟩
  cases readable : r.reader.textOn? d path with
  | none => simp [importsOn_of_none readable] at imported
  | some content => exact mem_paths_of_textOn? named readable

end Resolver

section Steps

variable {r : Resolver} {token : Option Token} {stack : List String} {t after : Trace Host}
  {result : Except DiscoveryError Unit}

/-- A walk reads a file as the reader does. -/
theorem readText_of_read {path : String} {h last : Host} {answer : Except DiscoveryError String}
    (read : (r.surroundings token).read path h = (answer, last)) :
    answer = (r.reader.readText path h).1.mapError .unreadable ∧
      last = (r.reader.readText path h).2 := by
  dsimp only [Resolver.surroundings] at read
  rw [bind_apply] at read
  exact ⟨(congrArg Prod.fst read).symm, (congrArg Prod.snd read).symm⟩

theorem visit_follows (r : Resolver) (token : Option Token) (path : String) (t : Trace Host) :
    t.state.Follows ((r.surroundings token).visit r.extensions path t).2.state := by
  have asked : t.state.Follows ((r.surroundings token).leave t.state).2 :=
    leave_keepsFiles token t.state
  have reads : ∀ h : Host, h.Follows ((r.surroundings token).read path h).2 :=
    keepsFiles.bind (keepsFiles.readText r.reader path) fun _ => keepsFiles.pure _
  have outcome := visited_visit (r.surroundings token) r.extensions path t
  generalize (r.surroundings token).visit r.extensions path t = ended at outcome ⊢
  cases outcome with
  | refused leave =>
    rw [leave] at asked
    exact asked
  | @unread _ s _ leave read =>
    have kept := reads s
    rw [leave] at asked
    rw [read] at kept
    exact asked.trans kept
  | @read _ found s last leave read =>
    have kept := reads s
    have told : last.Follows ((r.surroundings token).note path found last).2 := ⟨rfl, id⟩
    rw [leave] at asked
    rw [read] at kept
    exact (asked.trans kept).trans told

theorem Walks.follows (walks : Walks (r.surroundings token) r.extensions stack t result after) :
    t.state.Follows after.state := by
  induction walks with
  | nil => exact .refl _
  | seen _ _ ih => exact ih
  | @error path rest t failure after _ visited =>
    have kept := visit_follows r token path t
    rwa [visited] at kept
  | @visit path rest t found next result after _ visited _ ih =>
    have kept := visit_follows r token path t
    rw [visited] at kept
    exact kept.trans ih

end Steps

section Along

/-- How a walk ends that has an order of paths before it: with all of them read, or at the first
that has no text. -/
inductive Along (r : Resolver) (d : Disk) (order : List String) (t after : Trace Host) :
    Except DiscoveryError Unit → Prop where
  | finished : (∀ path ∈ order, (r.reader.textOn? d path).isSome = true) →
      after.seen.toList = t.seen.toList ++ order →
      after.state.visits = t.state.visits ++ order → Along r d order t after (.ok ())
  | stopped {before path rest e} : order = before ++ path :: rest →
      (∀ path ∈ before, (r.reader.textOn? d path).isSome = true) →
      r.reader.textOn? d path = none →
      (r.reader.readText path (Host.ofDisk d)).1 = .error e →
      after.seen.toList = t.seen.toList ++ before ++ [path] →
      after.state.visits = t.state.visits ++ before ++
        (r.reader.readText path (Host.ofDisk d)).2.visits →
      Along r d order t after (.error (.unreadable e))

variable {r : Resolver} {d : Disk} {order stack found : List String} {path : String}
  {t next after : Trace Host} {result : Except DiscoveryError Unit} {failure : DiscoveryError}

/-- What reading comes to for a walk, on a host without faults. -/
theorem read_of_calm {s last : Host} {answer : Except DiscoveryError String} (calm : s.faults = [])
    (read : (r.surroundings none).read path s = (answer, last)) :
    answer = (r.reader.readText path (Host.ofDisk s.disk)).1.mapError .unreadable ∧
      last.visits = s.visits ++ (r.reader.readText path (Host.ofDisk s.disk)).2.visits := by
  have tried := readText_settled r.reader path
  obtain ⟨rfl, rfl⟩ := readText_of_read read
  rw [tried.answer calm]
  exact ⟨rfl, tried.visits calm⟩

/-- Without token and faults, a visit to a path that has a text finds its imports at once. -/
theorem visit_of_some {content : String} (normal : IsNormal path) (calm : t.state.faults = [])
    (fresh : path ∉ t.seen) (readable : r.reader.textOn? t.state.disk path = some content) :
    ∃ next, (r.surroundings none).visit r.extensions path t =
        (.ok (r.importsOn t.state.disk path), next) ∧
      next.seen.toList = t.seen.toList ++ [path] ∧
      next.state.visits = t.state.visits ++ [path] := by
  have files : (Host.ofDisk t.state.disk).disk = t.state.disk := rfl
  have succeeds := readText_of_calm (h := Host.ofDisk t.state.disk) rfl (files ▸ readable)
  have begun := visits_readText (h := Host.ofDisk t.state.disk) normal rfl (files ▸ readable)
  have outcome := visited_visit (r.surroundings none) r.extensions path t
  generalize (r.surroundings none).visit r.extensions path t = ended at outcome ⊢
  cases outcome with
  | refused leave => cases leave
  | unread leave read =>
    cases leave
    have failed := (read_of_calm calm read).1
    rw [succeeds] at failed
    cases failed
  | @read text found _ last leave read same =>
    cases leave
    obtain ⟨answer, visits⟩ := read_of_calm calm read
    rw [succeeds] at answer
    cases answer
    rw [Resolver.importsOn_of_some readable, same]
    refine ⟨_, rfl, OrderedSet.toList_insert_of_not_mem fresh, ?_⟩
    rw [begun] at visits
    exact visits

/-- Without token and faults, a visit to a path that has no text fails as reading it does. -/
theorem visit_of_none (calm : t.state.faults = []) (fresh : path ∉ t.seen)
    (absent : r.reader.textOn? t.state.disk path = none) :
    ∃ e after, (r.reader.readText path (Host.ofDisk t.state.disk)).1 = .error e ∧
      (r.surroundings none).visit r.extensions path t = (.error (.unreadable e), after) ∧
      after.seen.toList = t.seen.toList ++ [path] ∧
      after.state.visits = t.state.visits ++
        (r.reader.readText path (Host.ofDisk t.state.disk)).2.visits := by
  obtain ⟨e, fails⟩ := exists_error_of_readText absent
  have outcome := visited_visit (r.surroundings none) r.extensions path t
  generalize (r.surroundings none).visit r.extensions path t = ended at outcome ⊢
  cases outcome with
  | refused leave => cases leave
  | unread leave read =>
    cases leave
    obtain ⟨answer, visits⟩ := read_of_calm calm read
    rw [fails] at answer
    cases answer
    exact ⟨e, _, fails, rfl, OrderedSet.toList_insert_of_not_mem fresh, visits⟩
  | read leave read =>
    cases leave
    have answer := (read_of_calm calm read).1
    rw [fails] at answer
    cases answer

/-- An order may begin with a path more, if that has been read before. -/
theorem Along.cons (some : (r.reader.textOn? d path).isSome = true)
    (seen : next.seen.toList = t.seen.toList ++ [path])
    (visits : next.state.visits = t.state.visits ++ [path])
    (along : Along r d order next after result) : Along r d (path :: order) t after result := by
  cases along with
  | finished all seen' visits' =>
    refine .finished (List.forall_mem_cons.mpr ⟨some, all⟩) ?_ ?_
    · rw [seen', seen, List.append_assoc, List.singleton_append]
    · rw [visits', visits, List.append_assoc, List.singleton_append]
  | @stopped before last rest e split all absent fails seen' visits' =>
    have split : path :: order = (path :: before) ++ last :: rest := by
      rw [split, List.cons_append]
    refine .stopped split (List.forall_mem_cons.mpr ⟨some, all⟩) absent fails ?_ ?_
    · rw [seen', seen]
      simp
    · rw [visits', visits]
      simp

/-- A walk without token and faults goes along the order of its stack. -/
theorem Walks.along (walks : Walks (r.surroundings none) r.extensions stack t result after)
    (calm : t.state.faults = []) (files : t.state.disk = d) (normal : ∀ path ∈ stack, IsNormal path)
    (met : DepthFirst (r.importsOn d) t.seen.toList stack order) :
    Along r d order t after result := by
  induction walks generalizing order with
  | nil =>
    cases met
    exact .finished (fun _ none => absurd none List.not_mem_nil) (by simp) (by simp)
  | seen old _ ih =>
    cases met with
    | seen _ met => exact ih calm files (List.forall_mem_cons.mp normal).2 met
    | visit fresh => exact absurd old fresh
  | @error path rest t failure after fresh visited =>
    subst files
    obtain ⟨later, rfl, -⟩ := (DepthFirst.cons_iff fresh).mp met
    cases readable : r.reader.textOn? t.state.disk path with
    | some content =>
      obtain ⟨next, visited', -⟩ :=
        visit_of_some (List.forall_mem_cons.mp normal).1 calm fresh readable
      cases visited.symm.trans visited'
    | none =>
      obtain ⟨e, last, fails, visited', seen, visits⟩ := visit_of_none calm fresh readable
      cases visited.symm.trans visited'
      refine .stopped (List.nil_append _).symm (fun _ none => absurd none List.not_mem_nil) readable
        fails ?_ ?_
      · rw [seen, List.append_nil]
      · rw [visits, List.append_nil]
  | @visit path rest t found next result after fresh visited walks ih =>
    subst files
    obtain ⟨later, rfl, behind⟩ := (DepthFirst.cons_iff fresh).mp met
    obtain ⟨here, others⟩ := List.forall_mem_cons.mp normal
    cases readable : r.reader.textOn? t.state.disk path with
    | none =>
      obtain ⟨e, last, -, visited', -⟩ := visit_of_none calm fresh readable
      cases visited.symm.trans visited'
    | some content =>
      obtain ⟨last, visited', seen, visits⟩ := visit_of_some here calm fresh readable
      cases visited.symm.trans visited'
      have follows := visit_follows r none path t
      rw [visited] at follows
      have normal : ∀ other ∈ r.importsOn t.state.disk path ++ rest, IsNormal other :=
        List.forall_mem_append.mpr
          ⟨fun _ imported => Resolver.isNormal_of_mem_importsOn here imported, others⟩
      rw [← seen] at behind
      have some : (r.reader.textOn? t.state.disk path).isSome = true := by rw [readable]; rfl
      exact (ih (follows.calm calm) follows.disk normal behind).cons some seen visits

end Along
end ModuleBundler.Source
