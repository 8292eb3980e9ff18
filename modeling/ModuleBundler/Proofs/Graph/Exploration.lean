import Mathlib.Data.List.Basic
import ModuleBundler.Proofs.Graph.Reach

/-! Depth-first exploration by its derivation. A derivation says what becomes of the
pending edges of the module at the top of a path: edges back into the path close
cycles, edges to modules entered earlier are passed over, and any other edge leads
into an exploration of its own, whose modules are left before the next edge is looked
at. Both iterative searches follow the derivation of their pending edges, and every
closed graph has one. -/
namespace ModuleBundler.Graph

open Cancellation

/-- The cycle that an edge back to `start` closes on a path, whose top stands first. -/
def cycleTo (start : String) (path : List String) : List String :=
  (path.takeWhile (· ≠ start) ++ [start]).reverse

/-- The cycles closed, the modules left and the modules entered once all pending edges are looked
at, each in order of time. -/
inductive Explores (g : Graph) : (path : List String) → (entered : OrderedSet String) →
    (pending : List String) → (found : List (List String)) → (left : List String) →
    (final : OrderedSet String) → Prop where
  | done {path entered} : Explores g path entered [] [] [] entered
  | back {path entered next pending found left final} : next ∈ path → next ∈ entered →
      Explores g path entered pending found left final →
      Explores g path entered (next :: pending) (cycleTo next path :: found) left final
  | known {path entered next pending found left final} : next ∉ path → next ∈ entered →
      Explores g path entered pending found left final →
      Explores g path entered (next :: pending) found left final
  | enter {path entered next pending targets found left middle found' left' final} :
      next ∉ path → next ∉ entered → g.outgoing.get? next = some targets →
      Explores g (next :: path) (entered.insert next) targets.toList found left middle →
      Explores g path middle pending found' left' final →
      Explores g path entered (next :: pending) (found ++ found') (left ++ next :: left') final

/-- Searches from several modules, one after the other. None starts from a module entered before; the
modules met are those that the others enter along an edge. -/
inductive Searches (g : Graph) : (entered : OrderedSet String) → (starts : List String) →
    (found : List (List String)) → (left met : List String) → (final : OrderedSet String) → Prop where
  | done {entered} : Searches g entered [] [] [] [] entered
  | known {entered start rest found left met final} : start ∈ entered →
      Searches g entered rest found left met final →
      Searches g entered (start :: rest) found left met final
  | root {entered start rest targets found left middle found' left' met final} : start ∉ entered →
      g.outgoing.get? start = some targets →
      Explores g [start] (entered.insert start) targets.toList found left middle →
      Searches g middle rest found' left' met final →
      Searches g entered (start :: rest) (found ++ found') (left ++ start :: left') (left ++ met) final

variable {g : Graph} {path pending left : List String} {entered final : OrderedSet String}
  {found : List (List String)}

namespace Explores

/-- What is entered in the end was entered before or has been left since. -/
theorem mem_final (explores : Explores g path entered pending found left final) (id : String) :
    id ∈ final ↔ id ∈ entered ∨ id ∈ left := by
  induction explores with
  | done => simp
  | back _ _ _ ih | known _ _ _ ih => exact ih
  | enter _ _ _ _ _ inner rest =>
    rw [rest, inner, OrderedSet.mem_insert, List.mem_append, List.mem_cons]
    grind

theorem mem_of_entered (explores : Explores g path entered pending found left final) {id : String}
    (member : id ∈ entered) : id ∈ final := (explores.mem_final id).mpr (.inl member)

/-- A module is left once, and not if it was entered before. -/
theorem nodup_left (explores : Explores g path entered pending found left final) :
    left.Nodup ∧ ∀ id ∈ left, id ∉ entered := by
  induction explores with
  | done => simp
  | back _ _ _ ih | known _ _ _ ih => exact ih
  | @enter path entered next pending targets found left middle found' left' final _ fresh _ inner _
      ih ih' =>
    obtain ⟨distinct, apart⟩ := ih
    obtain ⟨distinct', apart'⟩ := ih'
    have unentered : ∀ id ∈ left', id ∉ entered ∧ id ≠ next ∧ id ∉ left := by
      intro id member
      have outside := apart' id member
      rw [inner.mem_final, OrderedSet.mem_insert, not_or, not_or] at outside
      exact ⟨outside.1.1, outside.1.2, outside.2⟩
    have once : next ∉ left := fun member =>
      apart next member (OrderedSet.mem_insert.mpr (.inr rfl))
    constructor
    · refine distinct.append (List.nodup_cons.mpr ⟨?_, distinct'⟩) ?_
      · exact fun member => (unentered next member).2.1 rfl
      · intro id first later
        rcases List.mem_cons.mp later with rfl | later
        · exact once first
        · exact (unentered id later).2.2 first
    · intro id member
      rcases List.mem_append.mp member with inner | later
      · exact fun old => apart id inner (OrderedSet.mem_insert.mpr (.inl old))
      · rcases List.mem_cons.mp later with rfl | later
        · exact fresh
        · exact (unentered id later).1

/-- Modules are entered one after another. -/
theorem prefix_final (explores : Explores g path entered pending found left final) :
    entered.toList <+: final.toList := by
  induction explores with
  | done => exact List.prefix_refl _
  | back _ _ _ ih | known _ _ _ ih => exact ih
  | enter _ _ _ _ _ ih ih' => exact (OrderedSet.prefix_insert _ _).trans (ih.trans ih')

/-- What is left can be reached from a pending edge. -/
theorem reached (explores : Explores g path entered pending found left final) :
    ∀ id ∈ left, ∃ next ∈ pending, g.Reaches next id := by
  induction explores with
  | done => simp
  | back _ _ _ ih | known _ _ _ ih =>
    intro id member
    obtain ⟨next, later, reaches⟩ := ih id member
    exact ⟨next, List.mem_cons_of_mem _ later, reaches⟩
  | @enter path entered next pending targets found left middle found' left' final _ _ row _ _ ih
      ih' =>
    intro id member
    rcases List.mem_append.mp member with inner | later
    · obtain ⟨target, listed, reaches⟩ := ih id inner
      exact ⟨next, List.mem_cons_self, .head ((dependsOn_iff row).mpr listed) reaches⟩
    · rcases List.mem_cons.mp later with rfl | later
      · exact ⟨id, List.mem_cons_self, .refl⟩
      · obtain ⟨other, pending, reaches⟩ := ih' id later
        exact ⟨other, List.mem_cons_of_mem _ pending, reaches⟩

theorem left_inside (explores : Explores g path entered pending found left final) :
    ∀ id ∈ left, id ∈ g.outgoing.keys := by
  induction explores with
  | done => simp
  | back _ _ _ ih | known _ _ _ ih => exact ih
  | enter _ _ row _ _ ih ih' =>
    intro id member
    rcases List.mem_append.mp member with inner | later
    · exact ih id inner
    · rcases List.mem_cons.mp later with rfl | later
      · exact Table.mem_keys_of_get? row
      · exact ih' id later

/-- Nothing stays unentered behind a pending edge or an edge of a module left. -/
theorem closed (explores : Explores g path entered pending found left final) :
    (∀ next ∈ pending, next ∈ final) ∧ ∀ u ∈ left, ∀ v, g.DependsOn u v → v ∈ final := by
  induction explores with
  | done => simp
  | back _ seen rest ih | known _ seen rest ih =>
    obtain ⟨ahead, behind⟩ := ih
    refine ⟨fun next member => ?_, behind⟩
    rcases List.mem_cons.mp member with rfl | later
    · exact rest.mem_of_entered seen
    · exact ahead next later
  | @enter path entered next pending targets found left middle found' left' final _ _ row inner rest
      ih ih' =>
    obtain ⟨ahead, behind⟩ := ih
    obtain ⟨ahead', behind'⟩ := ih'
    constructor
    · intro id member
      rcases List.mem_cons.mp member with rfl | later
      · exact rest.mem_of_entered (inner.mem_of_entered (OrderedSet.mem_insert.mpr (.inr rfl)))
      · exact ahead' id later
    · intro u member v edge
      rcases List.mem_append.mp member with first | later
      · exact rest.mem_of_entered (behind u first v edge)
      · rcases List.mem_cons.mp later with rfl | later
        · exact rest.mem_of_entered (ahead v ((dependsOn_iff row).mp edge))
        · exact behind' u later v edge

end Explores

/-- In a closed graph every list of modules can be explored. The number of rows not entered goes
down with each module entered, and the pending edges run out in between. -/
theorem exists_explores (closed : g.Closed) (path : List String) (entered : OrderedSet String)
    (pending : List String) (within : ∀ id ∈ path, id ∈ entered)
    (inside : ∀ id ∈ pending, id ∈ g.outgoing.keys) :
    ∃ found left final, Explores g path entered pending found left final := by
  induction measure : entered.missing g.outgoing.keys using Nat.strongRecOn
    generalizing path entered pending with
  | ind n ih =>
    induction pending with
    | nil => exact ⟨[], [], entered, .done⟩
    | cons next rest later =>
      have row := inside next List.mem_cons_self
      have inside' : ∀ id ∈ rest, id ∈ g.outgoing.keys := fun id member =>
        inside id (List.mem_cons_of_mem _ member)
      by_cases seen : next ∈ entered
      · obtain ⟨found, left, final, explores⟩ := later inside'
        by_cases onPath : next ∈ path
        · exact ⟨_, left, final, .back onPath seen explores⟩
        · exact ⟨found, left, final, .known onPath seen explores⟩
      · obtain ⟨targets, found⟩ := row_of_mem row
        have fewer := OrderedSet.missing_insert_lt seen row
        have within' : ∀ id ∈ next :: path, id ∈ entered.insert next := by
          intro id member
          rw [OrderedSet.mem_insert]
          rcases List.mem_cons.mp member with rfl | old
          · exact .inr rfl
          · exact .inl (within id old)
        obtain ⟨_, _, middle, inner⟩ := ih _ (measure ▸ fewer) (next :: path) (entered.insert next)
          targets.toList within' (closed next targets found) rfl
        have less : middle.missing g.outgoing.keys ≤ (entered.insert next).missing g.outgoing.keys :=
          OrderedSet.missing_le_of_subset _ fun _ => inner.mem_of_entered
        have grown : ∀ id ∈ path, id ∈ middle := fun id member =>
          inner.mem_of_entered (within' id (List.mem_cons_of_mem _ member))
        obtain ⟨_, _, final, explores⟩ := ih _ (measure ▸ Nat.lt_of_le_of_lt less fewer) path middle
          rest grown inside' rfl
        exact ⟨_, _, final, .enter (fun onPath => seen (within next onPath)) seen found inner explores⟩

section Searches

variable {σ : Type} (check : Checkpoint σ)

/-- The cycle search looks at the pending edges of its top frame as the derivation says, polling once
for each module that it enters, and goes back to the frame below. -/
theorem Explores.cyclesFrom_eq (explores : Explores g path entered pending found left final)
    {node : String} {frames : List Frame} (same : path = node :: frames.map Frame.node)
    (earlier : List (List String)) :
    cyclesFrom g check ⟨entered, earlier⟩ (⟨node, pending⟩ :: frames) =
      (do
        polls check "cycle detection" left.length
        cyclesFrom g check ⟨final, found.reverse ++ earlier⟩ frames) := by
  induction explores generalizing node frames earlier with
  | done => rw [cyclesFrom, List.length_nil, polls, pure_bind]; rfl
  | @back path entered next pending found left final onPath _ _ ih =>
    rw [same] at onPath
    rw [cyclesFrom]
    dsimp only
    rw [if_pos (by exact onPath), ih same]
    simp [same, cycleTo, pathFrom]
  | known offPath seen _ ih =>
    rw [same] at offPath
    rw [cyclesFrom]
    dsimp only
    rw [if_neg (by exact offPath), dif_pos seen, ih same]
  | @enter path entered next pending targets found left middle found' left' final offPath fresh row
      _ _ ih ih' =>
    rw [same] at offPath
    have count : (left ++ next :: left').length = left.length + left'.length + 1 := by simp; omega
    rw [cyclesFrom_enter (by exact offPath) fresh, row, Option.elim_some, ih (by rw [same]; rfl),
      ih' same, count, polls, polls_add, bind_assoc, bind_assoc]
    simp

/-- The ordering leaves the modules of the derivation, having polled for each of them, and then the
module of its top frame. -/
theorem Explores.orderFrom_eq (explores : Explores g path entered pending found left final)
    (node : String) (frames : List Frame) (earlier : List String) :
    orderFrom g check ⟨entered, earlier⟩ (⟨node, pending⟩ :: frames) =
      (do
        polls check "execution ordering" left.length
        orderFrom g check ⟨final, node :: left.reverse ++ earlier⟩ frames) := by
  induction explores generalizing node frames earlier with
  | done => rw [orderFrom, List.length_nil, polls, pure_bind]; rfl
  | back _ seen _ ih | known _ seen _ ih => rw [orderFrom, dif_pos seen, ih]
  | @enter path entered next pending targets found left middle found' left' final _ fresh row _ _
      ih ih' =>
    have count : (left ++ next :: left').length = left.length + left'.length + 1 := by simp; omega
    rw [orderFrom_enter fresh, row, Option.elim_some, ih, ih', count, polls, polls_add, bind_assoc,
      bind_assoc]
    simp

/-- Searches from several modules are an exploration without a path. -/
theorem Explores.exists_searches {starts : List String}
    (explores : Explores g [] entered starts found left final) :
    ∃ met, Searches g entered starts found left met final := by
  induction starts generalizing entered found left with
  | nil =>
    cases explores
    exact ⟨[], .done⟩
  | cons start rest ih =>
    cases explores with
    | back onPath => cases onPath
    | known _ seen later =>
      obtain ⟨met, searches⟩ := ih later
      exact ⟨met, .known seen searches⟩
    | enter _ fresh row inner later =>
      obtain ⟨met, searches⟩ := ih later
      exact ⟨_, .root fresh row inner searches⟩

section Starts

variable {starts met : List String} (searches : Searches g entered starts found left met final)

include searches

theorem Searches.cyclesFromAll_eq (earlier : List (List String)) :
    cyclesFromAll g check starts ⟨entered, earlier⟩ =
      (do
        polls check "cycle detection" met.length
        pure ⟨final, found.reverse ++ earlier⟩) := by
  induction searches generalizing earlier with
  | done => rfl
  | known seen _ ih => rw [cyclesFromAll, if_pos seen, ih]
  | root fresh row inner _ ih =>
    rw [cyclesFromAll, if_neg fresh, row]
    dsimp only
    rw [inner.cyclesFrom_eq check rfl, cyclesFrom, List.length_append, polls_add, bind_assoc,
      bind_assoc]
    simp only [pure_bind, ih, List.reverse_append, List.append_assoc]

theorem Searches.orderFromAll_eq (earlier : List String) :
    orderFromAll g check starts ⟨entered, earlier⟩ =
      (do
        polls check "execution ordering" met.length
        pure ⟨final, left.reverse ++ earlier⟩) := by
  induction searches generalizing earlier with
  | done => rfl
  | known seen _ ih => rw [orderFromAll, if_pos seen, ih]
  | root fresh row inner _ ih =>
    rw [orderFromAll, if_neg fresh, row]
    dsimp only
    rw [inner.orderFrom_eq check, orderFrom, List.length_append, polls_add, bind_assoc, bind_assoc]
    simp [ih]

end Starts

theorem Explores.cyclesFromAll_eq {starts : List String}
    (explores : Explores g [] entered starts found left final) (earlier : List (List String)) :
    cyclesFromAll g unchecked starts ⟨entered, earlier⟩ =
      (pure ⟨final, found.reverse ++ earlier⟩ : Search σ _) := by
  obtain ⟨met, searches⟩ := explores.exists_searches
  rw [searches.cyclesFromAll_eq, polls_unchecked, pure_bind]

theorem Explores.orderFromAll_eq {starts : List String}
    (explores : Explores g [] entered starts found left final) (earlier : List String) :
    orderFromAll g unchecked starts ⟨entered, earlier⟩ =
      (pure ⟨final, left.reverse ++ earlier⟩ : Search σ _) := by
  obtain ⟨met, searches⟩ := explores.exists_searches
  rw [searches.orderFromAll_eq, polls_unchecked, pure_bind]

end Searches

end ModuleBundler.Graph
