import ModuleBundler.Proofs.Path.Normal

/-! Relative paths. Seen from one place, a normal absolute path is known by the parent
steps that lead up to what the two share and by the names that lead down from there; so
its names are known, and all that is lost is whether it began with one slash or two. -/
namespace ModuleBundler.Path

section CommonStart

variable {α : Type} [DecidableEq α] (as bs : List α)

theorem commonStart_prefix_left : commonStart as bs <+: as := by
  fun_induction commonStart as bs with
  | case1 a as bs ih => exact List.cons_prefix_cons.mpr ⟨rfl, ih⟩
  | case2 => exact List.nil_prefix
  | case3 => exact List.nil_prefix

theorem commonStart_prefix_right : commonStart as bs <+: bs := by
  fun_induction commonStart as bs with
  | case1 a as bs ih => exact List.cons_prefix_cons.mpr ⟨rfl, ih⟩
  | case2 => exact List.nil_prefix
  | case3 => exact List.nil_prefix

end CommonStart

section Steps

/-- The way from one place to another: parent steps up to what they share, then names down. -/
def steps (source target : List Component) : List Component :=
  let shared := (commonStart source target).length
  List.replicate (source.length - shared) parent ++ target.drop shared

variable {source target other : List Component}

theorem takeWhile_steps (proper : ∀ name ∈ target, Proper name) :
    (steps source target).takeWhile (· = parent) =
      List.replicate (source.length - (commonStart source target).length) parent := by
  have down : (target.drop (commonStart source target).length).takeWhile (· = parent) = [] := by
    cases rest : target.drop (commonStart source target).length with
    | nil => rfl
    | cons name names =>
      have member : name ∈ target := List.mem_of_mem_drop (rest ▸ List.mem_cons_self)
      simp [(proper name member).notParent]
  rw [steps, List.takeWhile_append_of_pos (by simp), down, List.append_nil]

/-- The way tells the place it leads to. -/
theorem steps_injective (proper : ∀ name ∈ target, Proper name)
    (proper' : ∀ name ∈ other, Proper name) (same : steps source target = steps source other) :
    target = other := by
  have up := congrArg (List.length ∘ List.takeWhile (· = parent)) same
  simp only [Function.comp_apply, takeWhile_steps proper, takeWhile_steps proper',
    List.length_replicate] at up
  have first := commonStart_prefix_left source target
  have second := commonStart_prefix_left source other
  have shared : (commonStart source target).length = (commonStart source other).length := by
    have := first.length_le
    have := second.length_le
    omega
  have start : commonStart source target = commonStart source other := by
    rw [List.prefix_iff_eq_take.mp first, List.prefix_iff_eq_take.mp second, shared]
  have down : target.drop (commonStart source target).length =
      other.drop (commonStart source other).length := by
    rw [steps, steps, shared] at same
    rw [shared]
    exact List.append_cancel_left same
  rw [← List.prefix_iff_eq_append.mp (commonStart_prefix_right source target),
    ← List.prefix_iff_eq_append.mp (commonStart_prefix_right source other), down, start]

/-- No step stands for the place itself or holds a slash. -/
theorem mem_steps (proper : ∀ name ∈ target, Proper name) {name : Component}
    (step : name ∈ steps source target) : '/' ∉ name ∧ name ≠ here := by
  rcases List.mem_append.mp step with up | down
  · rw [List.eq_of_mem_replicate up]
    decide
  · have known := proper name (List.mem_of_mem_drop down)
    exact ⟨known.whole, known.notHere⟩

/-- The spelling of a way; one without steps is a dot. -/
def spell (steps : List Component) : List Char :=
  match steps with
  | [] => here
  | steps => joinWith steps

theorem spell_injective {these those : List Component}
    (each : ∀ name ∈ these, '/' ∉ name ∧ name ≠ here)
    (each' : ∀ name ∈ those, '/' ∉ name ∧ name ≠ here) (same : spell these = spell those) :
    these = those := by
  have split_spell : ∀ {names : List Component}, (∀ name ∈ names, '/' ∉ name ∧ name ≠ here) →
      split (spell names) = if names = [] then [here] else names := by
    intro names each
    cases names with
    | nil => rfl
    | cons first rest =>
      rw [if_neg (List.cons_ne_nil _ _)]
      exact split_joinWith (List.cons_ne_nil _ _) fun name member => (each name member).1
  have pieces := split_spell each
  rw [same, split_spell each'] at pieces
  split at pieces
  next nothing =>
    split at pieces
    next nothing' => rw [nothing, nothing']
    next => exact absurd rfl (each here (pieces ▸ List.mem_cons_self)).2
  next =>
    split at pieces
    next => exact absurd rfl (each' here (pieces ▸ List.mem_cons_self)).2
    next => exact pieces.symm

end Steps

section Relative

variable {path other : String} {components : List Component}

theorem names_slashes_append (n : Nat) (rest : List Char) :
    names (List.replicate n '/' ++ rest) = names rest := by
  rw [names, names, split_replicate_append, List.filter_append,
    List.filter_eq_nil_iff.mpr (by simp), List.nil_append]

theorem names_joinWith (proper : ∀ name ∈ components, Proper name) :
    names (joinWith components) = components := by
  cases components with
  | nil => rfl
  | cons first rest =>
    rw [names, split_joinWith (List.cons_ne_nil _ _) fun name member => (proper name member).whole]
    exact List.filter_eq_self.mpr fun name member => by simpa using (proper name member).some

theorem relative_eq (path start : String) : relative path start =
    String.ofList (spell (steps (names (absolute start).toList) (names (absolute path).toList))) := by
  unfold relative steps
  dsimp only
  generalize List.replicate _ parent ++ List.drop _ _ = way
  cases way <;> rfl

/-- The slashes and names of a normal absolute path. -/
theorem IsNormal.exists_names (normal : IsNormal path) : ∃ n components, (n = 1 ∨ n = 2) ∧
    (∀ name ∈ components, Proper name) ∧
      path.toList = List.replicate n '/' ++ joinWith components := by
  have slashes := isAbsolute_iff.mp normal.absolute
  have few := leadingSlashes_le_two path.toList
  have same : normalChars path.toList = path.toList := by
    rw [← String.toList_ofList (l := normalChars path.toList)]
    exact congrArg String.toList normal.same
  exact ⟨_, _, by omega, normalComponents_proper path.toList,
    same.symm.trans (normalChars_of_slash slashes)⟩

theorem IsNormal.names_proper (normal : IsNormal path) :
    ∀ name ∈ names path.toList, Proper name := by
  obtain ⟨n, components, -, proper, form⟩ := normal.exists_names
  rw [form, names_slashes_append, names_joinWith proper]
  exact proper

/-- Two normal absolute paths of the same names are the same, but for a second leading slash. -/
theorem IsNormal.eq_of_names (normal : IsNormal path) (normal' : IsNormal other)
    (same : names path.toList = names other.toList) :
    path = other ∨ other = "/" ++ path ∨ path = "/" ++ other := by
  obtain ⟨n, components, few, proper, form⟩ := normal.exists_names
  obtain ⟨m, others, few', proper', form'⟩ := normal'.exists_names
  rw [form, form', names_slashes_append, names_slashes_append, names_joinWith proper,
    names_joinWith proper'] at same
  subst same
  simp only [← String.toList_inj, String.toList_append, form, form']
  rcases few with rfl | rfl <;> rcases few' with rfl | rfl <;> simp [List.replicate_succ]

/-- From one place, paths look the same just if they differ in a second leading slash at most. -/
theorem relative_eq_iff (normal : IsNormal path) (normal' : IsNormal other) (start : String) :
    relative path start = relative other start ↔
      path = other ∨ other = "/" ++ path ∨ path = "/" ++ other := by
  have doubled : ∀ {p : String}, names ("/" ++ p).toList = names p.toList := fun {p} => by
    rw [String.toList_append]
    exact names_slashes_append 1 p.toList
  rw [relative_eq, relative_eq, absolute_of_isNormal normal, absolute_of_isNormal normal']
  constructor
  · intro same
    have spelt := String.ofList_injective same
    have way := spell_injective (fun _ => mem_steps normal.names_proper)
      (fun _ => mem_steps normal'.names_proper) spelt
    exact normal.eq_of_names normal' (steps_injective normal.names_proper normal'.names_proper way)
  · rintro (rfl | rfl | rfl)
    · rfl
    · rw [doubled]
    · rw [doubled]

end Relative

end ModuleBundler.Path
