import ModuleBundler.Watch.Watcher

/-! What listeners hear. An accepted change reaches every registered listener once
if it invalidates, and none if it does not; the watcher itself only keeps the time. -/
namespace ModuleBundler.Watch

variable {κ σ : Type} {hear : Hearing κ σ} {me : κ} {path : String}

theorem tell_of_not_mem {listeners : List κ} (away : me ∉ listeners)
    (alone : ∀ k, k ≠ me → ∀ a, (hear k path a).2 = a) (audience : σ) :
    tell hear path listeners audience = audience := by
  unfold tell
  induction listeners with
  | nil => rfl
  | cons first rest ih =>
    rw [List.mem_cons, not_or] at away
    rw [List.foldl_cons, alone first (Ne.symm away.1)]
    exact ih away.2

/-- Among listeners that are all different, where only one acts, it acts once. -/
theorem tell_of_mem {listeners : List κ} (distinct : listeners.Nodup) (present : me ∈ listeners)
    (alone : ∀ k, k ≠ me → ∀ a, (hear k path a).2 = a) (audience : σ) :
    tell hear path listeners audience = (hear me path audience).2 := by
  induction listeners generalizing audience with
  | nil => cases present
  | cons first rest ih =>
    obtain ⟨fresh, distinct⟩ := List.nodup_cons.mp distinct
    change tell hear path rest (hear first path audience).2 = _
    rcases List.mem_cons.mp present with rfl | later
    · exact tell_of_not_mem fresh alone _
    · have other : first ≠ me := by
        rintro rfl
        exact fresh later
      rw [alone first other]
      exact ih distinct later audience

namespace Site

variable {s : Site κ σ}

theorem change_of_accepted (accepted : s.watcher.isAccepted path = true) (invalidates : Bool) :
    (s.change hear path invalidates).2 =
      ⟨s.watcher.record path (Clock.read s.clock).1, (Clock.read s.clock).2,
        if invalidates then tell hear path s.watcher.listeners.toList s.audience
        else s.audience⟩ := by
  rw [change, if_pos accepted]
  rfl

/-- Of a file that is new only the time is kept. -/
theorem handle_created (accepted : s.watcher.isAccepted path = true) (destination : Option String) :
    s.handle hear ⟨.created, path, destination, false⟩ =
      ⟨s.watcher.record path (Clock.read s.clock).1, (Clock.read s.clock).2, s.audience⟩ :=
  change_of_accepted accepted false

/-- A move is a change of both ends, the source first, if it is told where the file went. -/
theorem handle_moved (hear : Hearing κ σ) (path destination : String) (s : Site κ σ) :
    s.handle hear ⟨.moved, path, some destination, false⟩ =
      if destination = "" then (s.change hear path true).2
      else ((s.change hear path true).2.change hear destination true).2 := by
  simp only [handle, Bool.false_eq_true, if_false]
  split
  next nowhere => cases nowhere
  next nowhere =>
    rw [if_pos (Option.some.inj nowhere)]
  next other away told =>
    cases told
    rw [if_neg]
    rintro rfl
    exact away rfl

end Site
end ModuleBundler.Watch
