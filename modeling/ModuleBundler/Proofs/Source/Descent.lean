import ModuleBundler.Proofs.Source.Files

/-! The walk over files does what a recursive procedure does that visits the imports
of a file one after the other. The stack of the walk holds what the calls of the
procedure still have to visit, the innermost call first; a path that stands on it
twice, or has been seen since, is passed by where the procedure returns at once.
Both run on any surroundings: what a token or a file answers may depend on all
that was asked before. -/
namespace ModuleBundler.Source

open Cancellation ModuleBundler.Path

/-- What a walk depends on: leave to visit one more file, the texts of files, and whoever is told
which imports were found. -/
structure Surroundings (σ ε : Type) where
  leave : StateM σ (Except ε Unit)
  read : String → StateM σ (Except ε String)
  note : String → List String → StateM σ Unit

/-- What a walk leaves behind, wherever it ends. -/
structure Trace (σ : Type) where
  seen : OrderedSet String
  edges : List (String × List String)
  state : σ

def Trace.files {σ : Type} (t : Trace σ) : List String := t.edges.map (·.1)

variable {σ ε : Type}

def Walk.Run.ending (run : Walk.Run ε σ) : Option (Except ε Unit) × Trace σ :=
  (run.outcome, ⟨run.walk.seen, run.walk.edges, run.state⟩)

namespace Surroundings

def imports (e : Surroundings σ ε) (extensions : List String) (path : String) :
    StateM σ (Except ε (List String)) := do
  match ← e.read path with
  | .error failure => return .error failure
  | .ok content =>
    let found := localImports extensions path content
    e.note path found
    return .ok found

/-- Asks for leave, marks a path as seen, and reads its imports. -/
def visit (e : Surroundings σ ε) (extensions : List String) (path : String) (t : Trace σ) :
    Except ε (List String) × Trace σ :=
  match e.leave t.state with
  | (.error stop, s) => (.error stop, { t with state := s })
  | (.ok (), s) =>
    match e.imports extensions path s with
    | (.error failure, s) => (.error failure, ⟨t.seen.insert path, t.edges, s⟩)
    | (.ok found, s) => (.ok found, ⟨t.seen.insert path, t.edges ++ [(path, found)], s⟩)

/-- What the iterative walk comes to from a stack. -/
def walk (e : Surroundings σ ε) (extensions : List String) (budget : Nat) (stack : List String)
    (t : Trace σ) : Option (Except ε Unit) × Trace σ :=
  (Walk.run e.leave (e.imports extensions) budget ⟨stack, t.seen, t.edges⟩ t.state).ending

/-- What it comes to after a visit, with the rest of the stack below. -/
def walkAfter (e : Surroundings σ ε) (extensions : List String) (budget : Nat)
    (rest : List String) : Except ε (List String) × Trace σ → Option (Except ε Unit) × Trace σ
  | (.error failure, t) => (some (.error failure), t)
  | (.ok found, t) => e.walk extensions budget (found ++ rest) t

end Surroundings

/-- What it comes to after a call of the procedure below, with the rest of the stack left. -/
def Surroundings.walkOn (e : Surroundings σ ε) (extensions : List String) (budget : Nat)
    (rest : List String) : Except ε Unit × Trace σ → Option (Except ε Unit) × Trace σ
  | (.error failure, t) => (some (.error failure), t)
  | (.ok (), t) => e.walk extensions budget rest t

/-- Goes on after a call, unless it has failed. -/
def goOn (next : Trace σ → Option (Except ε Unit × Trace σ)) :
    Except ε Unit × Trace σ → Option (Except ε Unit × Trace σ)
  | (.error failure, t) => some (.error failure, t)
  | (.ok (), t) => next t

/-- Calls a procedure on paths one after the other, up to the first call that fails. -/
def inTurn (call : String → Trace σ → Option (Except ε Unit × Trace σ)) :
    List String → Trace σ → Option (Except ε Unit × Trace σ)
  | [], t => some (.ok (), t)
  | path :: rest, t => (call path t).bind (goOn (inTurn call rest))

/-- The recursive procedure, where its calls may nest so deep: it returns at once from a path seen,
and visits any other path and then its imports in source order. -/
def descend (e : Surroundings σ ε) (extensions : List String) :
    (depth : Nat) → String → Trace σ → Option (Except ε Unit × Trace σ)
  | 0, _, _ => none
  | depth + 1, path, t =>
    if path ∈ t.seen then some (.ok (), t)
    else
      match e.visit extensions path t with
      | (.error failure, t) => some (.error failure, t)
      | (.ok found, t) => inTurn (descend e extensions depth) found t

/-- A run of the walk to its end, from a stack. -/
inductive Walks (e : Surroundings σ ε) (extensions : List String) :
    List String → Trace σ → Except ε Unit → Trace σ → Prop where
  | nil {t} : Walks e extensions [] t (.ok ()) t
  | seen {path rest t result after} : path ∈ t.seen → Walks e extensions rest t result after →
      Walks e extensions (path :: rest) t result after
  | error {path rest t failure after} : path ∉ t.seen →
      e.visit extensions path t = (.error failure, after) →
      Walks e extensions (path :: rest) t (.error failure) after
  | visit {path rest t found next result after} : path ∉ t.seen →
      e.visit extensions path t = (.ok found, next) →
      Walks e extensions (found ++ rest) next result after →
      Walks e extensions (path :: rest) t result after

section Simulation

variable {e : Surroundings σ ε} {extensions : List String} {path : String}
  {rest found : List String} {t after : Trace σ} {budget : Nat} {failure : ε}

theorem next?_of_seen (old : path ∈ t.seen) : (⟨path :: rest, t.seen, t.edges⟩ : Walk).next? =
    (⟨rest, t.seen, t.edges⟩ : Walk).next? := by
  simp [Walk.next?, old]

/-- A path seen is passed by, whatever the budget. -/
theorem Surroundings.walk_of_seen (old : path ∈ t.seen) :
    e.walk extensions budget (path :: rest) t = e.walk extensions budget rest t := by
  cases budget with
  | zero => rfl
  | succ budget =>
    rw [Surroundings.walk, Surroundings.walk, Walk.run, Walk.run, next?_of_seen old]
    cases next : (⟨rest, t.seen, t.edges⟩ : Walk).next? <;> rfl

theorem next?_of_fresh (fresh : path ∉ t.seen) :
    (⟨path :: rest, t.seen, t.edges⟩ : Walk).next? = some (path, ⟨rest, t.seen, t.edges⟩) := by
  simp [Walk.next?, fresh]

/-- A path not seen is visited; what follows depends on the visit alone. -/
theorem Surroundings.walk_of_fresh (fresh : path ∉ t.seen) :
    e.walk extensions (budget + 1) (path :: rest) t =
      e.walkAfter extensions budget rest (e.visit extensions path t) := by
  rw [Surroundings.walk, Walk.run, next?_of_fresh fresh, Surroundings.visit]
  rcases e.leave t.state with ⟨stop | ⟨⟩, s⟩
  · rfl
  · dsimp only
    rcases e.imports extensions path s with ⟨failure | found, s⟩ <;> rfl

/-- If related traces stay related through every visit, and the visits find the same, then so do walks
from the same stack. -/
theorem Surroundings.walk_related {τ : Type} {f : Surroundings τ ε}
    {related : Trace σ → Trace τ → Prop} (seen : ∀ t u, related t u → t.seen = u.seen)
    (visit : ∀ path t u, related t u →
      (e.visit extensions path t).1 = (f.visit extensions path u).1 ∧
        related (e.visit extensions path t).2 (f.visit extensions path u).2)
    (budget : Nat) (stack : List String) {u : Trace τ} (start : related t u) :
    (e.walk extensions budget stack t).1 = (f.walk extensions budget stack u).1 ∧
      related (e.walk extensions budget stack t).2 (f.walk extensions budget stack u).2 := by
  induction budget generalizing stack t u with
  | zero => exact ⟨rfl, start⟩
  | succ budget ih =>
    induction stack with
    | nil => exact ⟨rfl, start⟩
    | cons path rest passed =>
      have same := seen t u start
      by_cases old : path ∈ u.seen
      · rw [walk_of_seen (same ▸ old), walk_of_seen old]
        exact passed
      · rw [walk_of_fresh (same ▸ old), walk_of_fresh old]
        obtain ⟨results, after⟩ := visit path t u start
        generalize e.visit extensions path t = one at results after ⊢
        generalize f.visit extensions path u = other at results after ⊢
        obtain ⟨failure | found, next⟩ := one <;> obtain ⟨failure' | found', next'⟩ := other <;>
          cases results
        · exact ⟨rfl, after⟩
        · exact ih (found ++ rest) after

theorem descend_of_seen (depth : Nat) (old : path ∈ t.seen) :
    descend e extensions (depth + 1) path t = some (.ok (), t) := by
  rw [descend, if_pos old]

theorem descend_of_error (depth : Nat) (fresh : path ∉ t.seen)
    (visited : e.visit extensions path t = (.error failure, after)) :
    descend e extensions (depth + 1) path t = some (.error failure, after) := by
  rw [descend, if_neg fresh, visited]

theorem descend_of_ok (depth : Nat) (fresh : path ∉ t.seen)
    (visited : e.visit extensions path t = (.ok found, after)) :
    descend e extensions (depth + 1) path t = inTurn (descend e extensions depth) found after := by
  rw [descend, if_neg fresh, visited]

section Calls

variable {call deeper : String → Trace σ → Option (Except ε Unit × Trace σ)}
  {paths : List String} {ended : Except ε Unit × Trace σ}

theorem bind_goOn_iff {first : Option (Except ε Unit × Trace σ)}
    {next : Trace σ → Option (Except ε Unit × Trace σ)} : first.bind (goOn next) = some ended ↔
      (∃ failure after, first = some (.error failure, after) ∧ ended = (.error failure, after)) ∨
      ∃ after, first = some (.ok (), after) ∧ next after = some ended := by
  constructor
  · intro ends
    obtain ⟨⟨failure | ⟨⟩, after⟩, first, later⟩ := Option.bind_eq_some_iff.mp ends
    · exact .inl ⟨failure, after, first, (Option.some.inj later).symm⟩
    · exact .inr ⟨after, first, later⟩
  · rintro (⟨failure, after, rfl, rfl⟩ | ⟨after, rfl, later⟩)
    · rfl
    · exact later

theorem inTurn_append : inTurn call (paths ++ rest) t =
    (inTurn call paths t).bind (goOn (inTurn call rest)) := by
  induction paths generalizing t with
  | nil => rfl
  | cons path paths ih =>
    rw [List.cons_append, inTurn, inTurn, Option.bind_assoc]
    refine congrArg (call path t).bind (funext fun ended => ?_)
    rcases ended with ⟨failure | ⟨⟩, after⟩
    · rfl
    · exact ih

theorem inTurn_mono (more : ∀ path t ended, call path t = some ended → deeper path t = some ended)
    (ends : inTurn call paths t = some ended) : inTurn deeper paths t = some ended := by
  induction paths generalizing t with
  | nil => exact ends
  | cons path rest ih =>
    rw [inTurn, bind_goOn_iff] at ends ⊢
    rcases ends with ⟨failure, after, first, same⟩ | ⟨after, first, later⟩
    · exact .inl ⟨failure, after, more _ _ _ first, same⟩
    · exact .inr ⟨after, more _ _ _ first, ih later⟩

/-- What the procedure comes to does not depend on how deep its calls may nest. -/
theorem descend_succ {depth : Nat} (ends : descend e extensions depth path t = some ended) :
    descend e extensions (depth + 1) path t = some ended := by
  induction depth generalizing path t ended with
  | zero => cases ends
  | succ depth ih =>
    by_cases old : path ∈ t.seen
    · rw [descend_of_seen _ old] at ends ⊢
      exact ends
    · rcases visited : e.visit extensions path t with ⟨failure | found, next⟩
      · rw [descend_of_error _ old visited] at ends ⊢
        exact ends
      · rw [descend_of_ok _ old visited] at ends ⊢
        exact inTurn_mono (fun _ _ _ => ih) ends

end Calls

theorem walks_of_walk {stack : List String} {result : Except ε Unit}
    (ends : e.walk extensions budget stack t = (some result, after)) :
    Walks e extensions stack t result after := by
  induction budget generalizing stack t with
  | zero => cases ends
  | succ budget ih =>
    induction stack with
    | nil =>
      cases ends
      exact .nil
    | cons path rest passed =>
      by_cases old : path ∈ t.seen
      · rw [Surroundings.walk_of_seen old] at ends
        exact .seen old (passed ends)
      · rw [Surroundings.walk_of_fresh old] at ends
        rcases visited : e.visit extensions path t with ⟨failure | found, next⟩
        · rw [visited] at ends
          cases ends
          exact .error old visited
        · rw [visited] at ends
          exact .visit old visited (ih ends)

/-- Where the walk ends, the procedure ends in the same way. -/
theorem Walks.inTurn {stack : List String} {result : Except ε Unit}
    (walks : Walks e extensions stack t result after) :
    ∃ depth, inTurn (descend e extensions depth) stack t = some (result, after) := by
  induction walks with
  | nil => exact ⟨0, rfl⟩
  | seen old walks ih =>
    obtain ⟨depth, ends⟩ := ih
    refine ⟨depth + 1, bind_goOn_iff.mpr (.inr ⟨_, descend_of_seen depth old, ?_⟩)⟩
    exact inTurn_mono (fun _ _ _ => descend_succ) ends
  | error fresh visited =>
    exact ⟨1, bind_goOn_iff.mpr (.inl ⟨_, _, descend_of_error 0 fresh visited, rfl⟩)⟩
  | visit fresh visited walks ih =>
    obtain ⟨depth, ends⟩ := ih
    rw [inTurn_append] at ends
    refine ⟨depth + 1, bind_goOn_iff.mpr ?_⟩
    rw [descend_of_ok depth fresh visited]
    rcases bind_goOn_iff.mp ends with ⟨failure, last, calls, same⟩ | ⟨middle, calls, others⟩
    · exact .inl ⟨failure, last, calls, same⟩
    · exact .inr ⟨middle, calls, inTurn_mono (fun _ _ _ => descend_succ) others⟩

/-- With enough visits in hand, the walk does to the top of its stack what the procedure does. -/
def Simulated (e : Surroundings σ ε) (extensions paths : List String) (t : Trace σ)
    (ended : Except ε Unit × Trace σ) : Prop :=
  ∃ visits, ∀ budget rest, e.walk extensions (visits + budget) (paths ++ rest) t =
    e.walkOn extensions budget rest ended

namespace Simulated

variable {ended : Except ε Unit × Trace σ} {paths : List String}

theorem nil : Simulated e extensions [] t (.ok (), t) :=
  ⟨0, fun budget _ => by rw [Nat.zero_add]; rfl⟩

theorem seen (old : path ∈ t.seen) : Simulated e extensions [path] t (.ok (), t) :=
  ⟨0, fun budget rest => by rw [Nat.zero_add]; exact Surroundings.walk_of_seen old⟩

theorem error (fresh : path ∉ t.seen)
    (visited : e.visit extensions path t = (.error failure, after)) :
    Simulated e extensions [path] t (.error failure, after) := by
  refine ⟨1, fun budget rest => ?_⟩
  rw [Nat.add_comm, List.singleton_append, Surroundings.walk_of_fresh fresh, visited]
  rfl

theorem visit (fresh : path ∉ t.seen)
    (visited : e.visit extensions path t = (.ok found, after))
    (calls : Simulated e extensions found after ended) :
    Simulated e extensions [path] t ended := by
  obtain ⟨visits, same⟩ := calls
  refine ⟨visits + 1, fun budget rest => ?_⟩
  rw [Nat.add_right_comm, List.singleton_append, Surroundings.walk_of_fresh fresh, visited]
  exact same budget rest

theorem stop (first : Simulated e extensions [path] t (.error failure, after)) :
    Simulated e extensions (path :: paths) t (.error failure, after) := by
  obtain ⟨visits, same⟩ := first
  exact ⟨visits, fun budget rest => same budget (paths ++ rest)⟩

theorem cons (first : Simulated e extensions [path] t (.ok (), after))
    (others : Simulated e extensions paths after ended) :
    Simulated e extensions (path :: paths) t ended := by
  obtain ⟨visits, same⟩ := first
  obtain ⟨more, sameMore⟩ := others
  refine ⟨visits + more, fun budget rest => ?_⟩
  rw [Nat.add_assoc]
  exact (same (more + budget) (paths ++ rest)).trans (sameMore budget rest)

end Simulated

theorem simulated_inTurn {call : String → Trace σ → Option (Except ε Unit × Trace σ)}
    (simulated : ∀ path t ended, call path t = some ended → Simulated e extensions [path] t ended)
    {paths : List String} {ended : Except ε Unit × Trace σ}
    (ends : inTurn call paths t = some ended) : Simulated e extensions paths t ended := by
  induction paths generalizing t with
  | nil =>
    cases ends
    exact .nil
  | cons path rest ih =>
    rcases bind_goOn_iff.mp ends with ⟨failure, after, first, rfl⟩ | ⟨after, first, others⟩
    · exact .stop (simulated path t _ first)
    · exact .cons (simulated path t _ first) (ih others)

/-- Where the procedure ends, the walk from the same path ends in the same way. -/
theorem simulated_descend {depth : Nat} {ended : Except ε Unit × Trace σ}
    (ends : descend e extensions depth path t = some ended) :
    Simulated e extensions [path] t ended := by
  induction depth generalizing path t ended with
  | zero => cases ends
  | succ depth ih =>
    by_cases old : path ∈ t.seen
    · rw [descend_of_seen depth old] at ends
      cases ends
      exact .seen old
    · rcases visited : e.visit extensions path t with ⟨failure | found, next⟩
      · rw [descend_of_error depth old visited] at ends
        cases ends
        exact .error old visited
      · rw [descend_of_ok depth old visited] at ends
        exact .visit old visited (simulated_inTurn (fun _ _ _ => ih) ends)

/-- The walk from one path ends as the procedure does, as soon as its budget allows. -/
theorem descend_iff_walk (e : Surroundings σ ε) (extensions : List String) (path : String)
    (t : Trace σ) (result : Except ε Unit) (after : Trace σ) :
    (∃ depth, descend e extensions depth path t = some (result, after)) ↔
      ∃ budget, e.walk extensions budget [path] t = (some result, after) := by
  constructor
  · rintro ⟨depth, ends⟩
    obtain ⟨visits, same⟩ := simulated_descend ends
    refine ⟨visits + 1, (same 1 []).trans ?_⟩
    cases result <;> rfl
  · rintro ⟨budget, ends⟩
    obtain ⟨depth, ends⟩ := (walks_of_walk ends).inTurn
    refine ⟨depth, ?_⟩
    rcases bind_goOn_iff.mp ends with ⟨failure, last, call, same⟩ | ⟨last, call, rest⟩
    · rw [call, same]
    · cases rest
      exact call

end Simulation

/-- A visit comes to a refusal to go on, to a file without text, or to one whose imports are found. -/
inductive Visited (e : Surroundings σ ε) (extensions : List String) (path : String)
    (t : Trace σ) : Except ε (List String) × Trace σ → Prop where
  | refused {stop s} : e.leave t.state = (.error stop, s) →
      Visited e extensions path t (.error stop, { t with state := s })
  | unread {failure s last} : e.leave t.state = (.ok (), s) →
      e.read path s = (.error failure, last) →
      Visited e extensions path t (.error failure, ⟨t.seen.insert path, t.edges, last⟩)
  | read {content found s last} : e.leave t.state = (.ok (), s) →
      e.read path s = (.ok content, last) → localImports extensions path content = found →
      Visited e extensions path t (.ok found,
        ⟨t.seen.insert path, t.edges ++ [(path, found)], (e.note path found last).2⟩)

theorem visited_visit (e : Surroundings σ ε) (extensions : List String) (path : String)
    (t : Trace σ) : Visited e extensions path t (e.visit extensions path t) := by
  unfold Surroundings.visit
  rcases leave : e.leave t.state with ⟨stop | ⟨⟩, s⟩
  · exact .refused leave
  · dsimp only
    rw [Surroundings.imports, bind_apply]
    rcases read : e.read path s with ⟨failure | content, last⟩
    · exact .unread leave read
    · exact .read leave read rfl

section Termination

/-- Bounds on what surroundings bring forth: while an invariant of their state holds, a path of a
kind is read only from a list, and only paths of that kind are found in its text. -/
structure Surroundings.Bounded (e : Surroundings σ ε) (extensions : List String)
    (invariant : σ → Prop) (kind : String → Prop) (readable : List String) : Prop where
  leave : ∀ s, invariant s → invariant (e.leave s).2
  read : ∀ path s content last, invariant s → kind path → e.read path s = (.ok content, last) →
    path ∈ readable ∧ invariant last
  note : ∀ path found s, invariant s → invariant (e.note path found s).2
  found : ∀ path content, kind path → ∀ other ∈ localImports extensions path content, kind other

variable {e : Surroundings σ ε} {extensions : List String} {invariant : σ → Prop}
  {kind : String → Prop} {readable : List String}

/-- Every visit that does not end the walk leaves one readable path less to see. -/
theorem Surroundings.Bounded.walk_ends (bounded : e.Bounded extensions invariant kind readable)
    {budget : Nat} {stack : List String} {t : Trace σ} (holds : invariant t.state)
    (kinds : ∀ path ∈ stack, kind path) (enough : t.seen.missing readable < budget) :
    (e.walk extensions budget stack t).1 ≠ none := by
  induction budget generalizing stack t with
  | zero => exact absurd enough (Nat.not_lt_zero _)
  | succ budget ih =>
    induction stack with
    | nil => exact Option.some_ne_none _
    | cons path rest passed =>
      obtain ⟨here, later⟩ := List.forall_mem_cons.mp kinds
      by_cases old : path ∈ t.seen
      · rw [Surroundings.walk_of_seen old]
        exact passed later
      · rw [Surroundings.walk_of_fresh old]
        have visited := visited_visit e extensions path t
        generalize e.visit extensions path t = outcome at visited ⊢
        cases visited with
        | refused leave => exact Option.some_ne_none _
        | unread leave read => exact Option.some_ne_none _
        | @read content found s last leave read same =>
          subst same
          have asked := bounded.leave t.state holds
          rw [leave] at asked
          obtain ⟨member, kept⟩ := bounded.read path s content last asked here read
          refine ih (bounded.note path _ last kept) ?_ ?_
          · intro other pending
            rcases List.mem_append.mp pending with imported | old
            · exact bounded.found path content here other imported
            · exact later other old
          · have fewer := OrderedSet.missing_insert_lt old member
            dsimp only
            omega

end Termination

section Record

/-- What a walk asks of its surroundings. -/
inductive Inquiry where
  | leave
  | read (path : String)

/-- The same surroundings with a record of what was asked of them. -/
def Surroundings.recorded (e : Surroundings σ ε) : Surroundings (σ × List Inquiry) ε where
  leave s := ((e.leave s.1).1, ((e.leave s.1).2, s.2 ++ [.leave]))
  read path s := ((e.read path s.1).1, ((e.read path s.1).2, s.2 ++ [.read path]))
  note path found s := ((), ((e.note path found s.1).2, s.2))

/-- A recorded trace without its record. -/
def Trace.bare (t : Trace (σ × List Inquiry)) : Trace σ := ⟨t.seen, t.edges, t.state.1⟩

def inquiries (files : List String) : List Inquiry := files.flatMap fun path => [.leave, .read path]

/-- What a recorded walk has done so far, from the paths seen before: it has visited some files one
after the other. -/
structure Progress (before : List String) (t : Trace (σ × List Inquiry)) : Prop where
  seen : t.seen.toList = before ++ t.files
  asked : t.state.2 = inquiries t.files

/-- How a recorded walk ends: when all is visited, at a refusal to go on, or at a file that gives no
text, which has been marked by then. -/
inductive Ends (e : Surroundings σ ε) (before : List String) :
    Except ε Unit → Trace (σ × List Inquiry) → Prop where
  | finished {t} : Progress before t → Ends e before (.ok ()) t
  | stopped {t s stop} : e.leave s = (.error stop, t.state.1) →
      t.seen.toList = before ++ t.files →
      t.state.2 = inquiries t.files ++ [.leave] → Ends e before (.error stop) t
  | unread {t path s failure} : e.read path s = (.error failure, t.state.1) →
      t.seen.toList = before ++ t.files ++ [path] →
      t.state.2 = inquiries t.files ++ [.leave, .read path] → Ends e before (.error failure) t

variable {e : Surroundings σ ε} {extensions : List String} {before : List String} {path : String}
  {t next : Trace (σ × List Inquiry)}

theorem leave_of_recorded {answer : Except ε Unit} {s last : σ × List Inquiry}
    (asked : e.recorded.leave s = (answer, last)) :
    e.leave s.1 = (answer, last.1) ∧ last.2 = s.2 ++ [.leave] := by
  cases asked
  exact ⟨rfl, rfl⟩

theorem read_of_recorded {answer : Except ε String} {s last : σ × List Inquiry}
    (asked : e.recorded.read path s = (answer, last)) :
    e.read path s.1 = (answer, last.1) ∧ last.2 = s.2 ++ [.read path] := by
  cases asked
  exact ⟨rfl, rfl⟩

theorem imports_recorded (e : Surroundings σ ε) (extensions : List String) (path : String)
    (s : σ × List Inquiry) :
    e.recorded.imports extensions path s = ((e.imports extensions path s.1).1,
      ((e.imports extensions path s.1).2, s.2 ++ [.read path])) := by
  rw [Surroundings.imports, Surroundings.imports, bind_apply, bind_apply]
  have read : e.recorded.read path s =
      ((e.read path s.1).1, ((e.read path s.1).2, s.2 ++ [.read path])) := rfl
  rw [read]
  cases (e.read path s.1).1 <;> rfl

theorem visit_bare (e : Surroundings σ ε) (extensions : List String) (path : String)
    (t : Trace (σ × List Inquiry)) : e.visit extensions path t.bare =
      ((e.recorded.visit extensions path t).1, (e.recorded.visit extensions path t).2.bare) := by
  have leave : e.recorded.leave t.state =
      ((e.leave t.bare.state).1, ((e.leave t.bare.state).2, t.state.2 ++ [.leave])) := rfl
  rw [Surroundings.visit, Surroundings.visit, leave]
  rcases e.leave t.bare.state with ⟨stop | ⟨⟩, s⟩
  · rfl
  · dsimp only
    rw [imports_recorded]
    rcases e.imports extensions path s with ⟨failure | found, last⟩ <;> rfl

/-- Keeping a record changes nothing else. -/
theorem walk_bare (e : Surroundings σ ε) (extensions : List String) (budget : Nat)
    (stack : List String) (t : Trace (σ × List Inquiry)) :
    e.walk extensions budget stack t.bare =
      ((e.recorded.walk extensions budget stack t).1,
        (e.recorded.walk extensions budget stack t).2.bare) := by
  have visit : ∀ path s t, s = Trace.bare t →
      (e.visit extensions path s).1 = (e.recorded.visit extensions path t).1 ∧
        (e.visit extensions path s).2 = (e.recorded.visit extensions path t).2.bare := by
    rintro path _ t rfl
    rw [visit_bare]
    exact ⟨rfl, rfl⟩
  have seen : ∀ (s : Trace σ) t, s = Trace.bare t → s.seen = t.seen := by
    rintro _ t rfl
    rfl
  obtain ⟨result, after⟩ := Surroundings.walk_related seen visit budget stack rfl
  exact Prod.ext result after

theorem Surroundings.bounded_recorded (e : Surroundings σ ε) (extensions : List String)
    {readable : List String}
    (all : ∀ file s content last, e.read file s = (.ok content, last) → file ∈ readable) :
    e.recorded.Bounded extensions (fun _ => True) (fun _ => True) readable where
  leave _ _ := trivial
  read _ _ _ _ _ _ read := ⟨all _ _ _ _ (read_of_recorded read).1, trivial⟩
  note _ _ _ _ := trivial
  found _ _ _ _ _ := trivial

theorem Progress.marked (progress : Progress before t) (fresh : path ∉ t.seen) :
    (t.seen.insert path).toList = before ++ t.files ++ [path] := by
  rw [OrderedSet.toList_insert_of_not_mem fresh, progress.seen]

theorem Progress.visit {found : List String} (progress : Progress before t) (fresh : path ∉ t.seen)
    (visited : e.recorded.visit extensions path t = (.ok found, next)) : Progress before next := by
  have outcome := visited_visit e.recorded extensions path t
  rw [visited] at outcome
  cases outcome with
  | @read content _ s last leave read same =>
    have asked : last.2 = inquiries t.files ++ [.leave] ++ [.read path] := by
      rw [(read_of_recorded read).2, (leave_of_recorded leave).2, progress.asked]
    constructor
    · rw [progress.marked fresh]
      simp [Trace.files]
    · refine asked.trans ?_
      simp [Trace.files, inquiries]

theorem Progress.ends {failure : ε} (progress : Progress before t) (fresh : path ∉ t.seen)
    (visited : e.recorded.visit extensions path t = (.error failure, next)) :
    Ends e before (.error failure) next := by
  have outcome := visited_visit e.recorded extensions path t
  rw [visited] at outcome
  cases outcome with
  | refused leave =>
    obtain ⟨refused, asked⟩ := leave_of_recorded leave
    rw [progress.asked] at asked
    exact .stopped refused progress.seen asked
  | unread leave read =>
    obtain ⟨unread, asked⟩ := read_of_recorded read
    rw [(leave_of_recorded leave).2, progress.asked, List.append_assoc] at asked
    exact .unread unread (progress.marked fresh) asked

theorem Walks.ends {stack : List String} {result : Except ε Unit} {after : Trace (σ × List Inquiry)}
    (walks : Walks e.recorded extensions stack t result after) (progress : Progress before t) :
    Ends e before result after := by
  induction walks with
  | nil => exact .finished progress
  | seen old walks ih => exact ih progress
  | error fresh visited => exact progress.ends fresh visited
  | visit fresh visited walks ih => exact ih (progress.visit fresh visited)

/-- The paths seen at the end are those seen before, and then the files reached: also the file that
gave no text is among them, and none for which leave was refused. -/
theorem Ends.reached {result : Except ε Unit} (ends : Ends e before result t) :
    ∃ reached, t.seen.toList = before ++ reached ∧
      (result = .ok () → reached = t.files) ∧
      ∀ failure, result = .error failure →
        (∃ s, e.leave s = (.error failure, t.state.1)) ∧ reached = t.files ∨
        ∃ path, (∃ s, e.read path s = (.error failure, t.state.1)) ∧ reached = t.files ++ [path] := by
  cases ends with
  | finished progress => exact ⟨t.files, progress.seen, fun _ => rfl, nofun⟩
  | @stopped _ s _ refused seen =>
    refine ⟨t.files, seen, nofun, ?_⟩
    rintro _ ⟨⟩
    exact .inl ⟨⟨s, refused⟩, rfl⟩
  | @unread _ path s _ unread seen =>
    refine ⟨t.files ++ [path], seen.trans (List.append_assoc _ _ _), nofun, ?_⟩
    rintro _ ⟨⟩
    exact .inr ⟨path, ⟨s, unread⟩, rfl⟩

end Record

namespace Resolver

/-- What a resolver's walks depend on: its reader and a token. -/
def surroundings (r : Resolver) (token : Option Token) : Surroundings Host DiscoveryError where
  leave := leave token
  read path := do return (← r.reader.readText path).mapError .unreadable
  note path found :=
    Host.report (Log.plain .debug part s!"Resolved {found.length} local import(s) in {path}")

variable (r : Resolver) (token : Option Token)

theorem imports_surroundings (path : String) :
    (r.surroundings token).imports r.extensions path = r.readImports path := by
  funext h
  rw [Surroundings.imports, readImports, bind_apply, bind_apply]
  dsimp only [surroundings]
  rw [bind_apply]
  cases (r.reader.readText path h).1 <;> rfl

theorem walkFrom_ending (path : String) (seen : OrderedSet String) (h : Host) :
    (r.walkFrom token (.start path seen) h).ending =
      (r.surroundings token).walk r.extensions (visitBudget h.disk) [path] ⟨seen, [], h⟩ := by
  have same : (r.surroundings token).imports r.extensions = r.readImports :=
    funext (r.imports_surroundings token)
  rw [Surroundings.walk, same]
  rfl

theorem textOn?_of_read {path content : String} {h last : Host}
    (read : (r.surroundings token).read path h = (.ok content, last)) :
    r.reader.textOn? h.disk path = some content ∧ last.disk = h.disk := by
  dsimp only [surroundings] at read
  rw [bind_apply] at read
  cases found : (r.reader.readText path h).1 with
  | error failure =>
    rw [found] at read
    cases read
  | ok text =>
    rw [found] at read
    cases read
    exact ⟨textOn?_of_readText found, (keepsFiles.readText r.reader path h).disk⟩

theorem bounded_surroundings (d : Disk) :
    (r.surroundings token).Bounded r.extensions (fun h => h.disk = d) IsNormal d.paths where
  leave h files := (leave_keepsFiles token h).disk.trans files
  read path h content last files normal read := by
    obtain ⟨readable, kept⟩ := r.textOn?_of_read token read
    exact ⟨files ▸ mem_paths_of_textOn? normal readable, kept.trans files⟩
  note path found h files := files
  found path content normal other := isNormal_of_mem_localImports normal

/-- The files of a disk are too few for a walk over them to use up its budget. -/
theorem exists_walkFrom (entry : String) (seen : OrderedSet String) (h : Host) :
    ∃ result t, (r.walkFrom token (.start (absolute entry) seen) h).ending = (some result, t) := by
  have few : seen.missing h.disk.paths < visitBudget h.disk := by
    have bound : seen.missing h.disk.paths ≤ h.disk.paths.length := List.countP_le_length
    have length : h.disk.paths.length = h.disk.entries.size + h.disk.entries.size := by
      rw [Disk.paths, List.length_append, List.length_map, Table.keys, List.length_map, Table.size]
    rw [visitBudget]
    omega
  have normal : ∀ path ∈ [absolute entry], IsNormal path := by
    intro path member
    rw [List.mem_singleton.mp member]
    exact isNormal_absolute entry
  have ends := (r.bounded_surroundings token h.disk).walk_ends (t := ⟨seen, [], h⟩) rfl normal few
  rw [← walkFrom_ending] at ends
  generalize (r.walkFrom token (.start (absolute entry) seen) h).ending = ending at ends ⊢
  obtain ⟨- | result, t⟩ := ending
  · exact absurd rfl ends
  · exact ⟨result, t, rfl⟩

/-- A resolver answers what the procedure comes to, and hands a shared map back with all it saw. -/
theorem resolveFor_eq (entry : String) (given : SeenPaths) {h : Host}
    {result : Except DiscoveryError Unit} {t : Trace Host}
    (ending : (r.walkFrom token (.start (absolute entry) given.toSet) h).ending =
      (some result, t)) :
    r.resolveFor entry given token h =
      ((⟨t.seen, some (result.map fun _ => t.seen.toList)⟩, given.after t.seen), t.state) := by
  rw [resolveFor, bind_apply]
  by_cases old : absolute entry ∈ given.toSet
  · have passed := walkFrom_ending r token (absolute entry) given.toSet h
    rw [ending, Surroundings.walk_of_seen old] at passed
    cases passed
    rw [resolve]
    dsimp only
    rw [if_pos old]
    rfl
  · rw [resolve]
    dsimp only
    rw [if_neg old]
    dsimp only
    generalize r.walkFrom token (.start (absolute entry) given.toSet) h = run at ending ⊢
    obtain ⟨walk, state, outcome⟩ := run
    cases ending
    rfl

end Resolver

theorem ends_of_descend {e : Surroundings σ ε} {extensions : List String} {depth : Nat}
    {path : String} {seen : OrderedSet String} {s : σ} {result : Except ε Unit}
    {t : Trace (σ × List Inquiry)}
    (ends : descend e.recorded extensions depth path ⟨seen, [], (s, [])⟩ = some (result, t)) :
    Ends e seen.toList result t := by
  obtain ⟨budget, ending⟩ :=
    (descend_iff_walk e.recorded extensions path _ result t).mp ⟨depth, ends⟩
  exact (walks_of_walk ending).ends ⟨(List.append_nil _).symm, rfl⟩

end ModuleBundler.Source
