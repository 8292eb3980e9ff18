import ModuleBundler.Path.Parts
import ModuleBundler.Proofs.Path.Relative

/-! Paths by their parts. A normal absolute path is spelt by its parts as it was, and it
ends in a slash and its last name. The suffix of a name is what stands from its last dot
on, with something before the dot and something behind it. -/
namespace ModuleBundler.Path

variable {path : String} {components : List Component}

/-- Behind the slashes it begins with, a normal path does not go on with a slash. -/
theorem takeWhile_slashes (proper : ∀ name ∈ components, Proper name) (n : Nat) :
    (List.replicate n '/' ++ joinWith components).takeWhile (· = '/') = List.replicate n '/' := by
  have down : (joinWith components).takeWhile (· = '/') = [] := by
    cases joined : joinWith components with
    | nil => rfl
    | cons c rest =>
      have ne : c ≠ '/' := fun slash => joinWith_ne_slash proper rest (slash ▸ joined)
      simp [ne]
  rw [List.takeWhile_append_of_pos (by simp), down, List.append_nil]

/-- A normal path has the parts that it is spelt with. -/
theorem ofChars_normal (proper : ∀ name ∈ components, Proper name) {n : Nat} (few : n = 1 ∨ n = 2) :
    Parts.ofChars (List.replicate n '/' ++ joinWith components) = ⟨n, components⟩ := by
  have kept : components.filter (· ≠ here) = components :=
    List.filter_eq_self.mpr fun name member => by simpa using (proper name member).notHere
  rw [Parts.ofChars, takeWhile_slashes proper, names_slashes_append, names_joinWith proper, kept,
    List.length_replicate]
  rcases few with rfl | rfl <;> rfl

theorem IsNormal.exists_parts (normal : IsNormal path) :
    ∃ n components, (n = 1 ∨ n = 2) ∧ (∀ name ∈ components, Proper name) ∧
      path.toList = List.replicate n '/' ++ joinWith components ∧
      Parts.ofString path = ⟨n, components⟩ := by
  obtain ⟨n, components, few, proper, form⟩ := normal.exists_names
  refine ⟨n, components, few, proper, form, ?_⟩
  rw [Parts.ofString, form, ofChars_normal proper few]

theorem IsNormal.toString_parts (normal : IsNormal path) :
    (Parts.ofString path).toString = path := by
  obtain ⟨n, components, few, -, form, parts⟩ := normal.exists_parts
  have spelt : (Parts.mk n components).toChars = path.toList := by
    rw [form, Parts.toChars]
    rcases few with rfl | rfl <;> rfl
  rw [parts, Parts.toString, spelt, String.ofList_toList]

section Name

theorem exists_joinWith_concat (init : List Component) (last : Component) :
    ∃ front, '/' :: joinWith (init ++ [last]) = front ++ '/' :: last := by
  induction init with
  | nil => exact ⟨[], rfl⟩
  | cons first rest ih =>
    obtain ⟨front, joined⟩ := ih
    refine ⟨'/' :: first ++ front, ?_⟩
    cases rest with
    | nil => simpa [joinWith] using joined
    | cons second others => simpa [joinWith] using joined

/-- A normal path ends in a slash and its last name; a root has no name, and nothing follows. -/
theorem IsNormal.exists_front (normal : IsNormal path) :
    ∃ front, path.toList = front ++ '/' :: (Parts.ofString path).name ∧
      '/' ∉ (Parts.ofString path).name := by
  obtain ⟨n, components, few, proper, form, parts⟩ := normal.exists_parts
  obtain ⟨before, slashes⟩ : ∃ before, List.replicate n '/' = before ++ ['/'] := by
    rcases few with rfl | rfl
    · exact ⟨[], rfl⟩
    · exact ⟨['/'], rfl⟩
  rw [parts, form, slashes, List.append_assoc, List.singleton_append, Parts.name]
  rcases List.eq_nil_or_concat components with rfl | ⟨init, last, rfl⟩
  · exact ⟨before, rfl, List.not_mem_nil⟩
  · obtain ⟨front, joined⟩ := exists_joinWith_concat init last
    refine ⟨before ++ front, ?_, ?_⟩
    · simpa using joined
    · simpa using (proper last (by simp)).whole

end Name

section Suffix

variable {name ending stem tail : Component}

theorem suffixOf_append (some : stem ≠ []) (more : tail ≠ []) (single : '.' ∉ tail) :
    Parts.suffixOf (stem ++ '.' :: tail) = '.' :: tail := by
  have cut : (stem ++ '.' :: tail).reverse.takeWhile (· ≠ '.') = tail.reverse := by
    have before : ∀ c ∈ tail.reverse, (decide (c ≠ '.')) = true := fun c member =>
      decide_eq_true fun same => single (same ▸ List.mem_reverse.mp member)
    rw [List.reverse_append, List.reverse_cons, List.append_assoc,
      List.takeWhile_append_of_pos before]
    simp
  have longer : 0 < stem.length := List.length_pos_iff.mpr some
  rw [Parts.suffixOf, cut, if_pos, List.reverse_reverse]
  refine ⟨?_, fun none => more (List.reverse_eq_nil_iff.mp none)⟩
  simp only [List.length_reverse, List.length_append, List.length_cons]
  omega

/-- What is not empty stands behind a stem and has no dot but the one it begins with. -/
theorem exists_stem_of_suffixOf (suffix : Parts.suffixOf name = ending) (some : ending ≠ []) :
    ∃ stem tail, stem ≠ [] ∧ tail ≠ [] ∧ '.' ∉ tail ∧ ending = '.' :: tail ∧
      name = stem ++ ending := by
  have whole := List.takeWhile_append_dropWhile (p := fun c => decide (c ≠ '.')) (l := name.reverse)
  have stops := List.head?_dropWhile_not (fun c => decide (c ≠ '.')) name.reverse
  have single : '.' ∉ name.reverse.takeWhile (· ≠ '.') := fun member => by
    simpa using List.mem_takeWhile_imp member
  have length := congrArg List.length whole
  unfold Parts.suffixOf at suffix
  generalize name.reverse.takeWhile (· ≠ '.') = back at whole single suffix length
  generalize name.reverse.dropWhile (· ≠ '.') = rest at whole stops length
  rw [List.length_append, List.length_reverse] at length
  dsimp only at suffix
  split at suffix
  next long =>
    obtain ⟨longer, more⟩ := long
    cases rest with
    | nil =>
      rw [List.length_nil] at length
      omega
    | cons dot before =>
      obtain rfl : dot = '.' := by simpa using stops
      rw [List.length_cons] at length
      refine ⟨before.reverse, back.reverse, ?_, ?_, ?_, suffix.symm, ?_⟩
      · rintro none
        rw [List.reverse_eq_nil_iff.mp none, List.length_nil] at length
        omega
      · exact fun none => more (List.reverse_eq_nil_iff.mp none)
      · exact fun member => single (List.mem_reverse.mp member)
      · rw [← suffix, ← List.reverse_reverse name, ← whole]
        simp
  next => exact absurd suffix.symm some

end Suffix

end ModuleBundler.Path
