import Mathlib.Data.List.TakeWhile
import ModuleBundler.Path.Normal

/-! Normal absolute paths. The components of a normal form are proper: each is a
name, without slashes and other than the two kinds of dots. Taking the normal form
of such a path gives it back, so that a path in normal form has one spelling for
each number of leading slashes. -/
namespace ModuleBundler.Path

section Split

theorem split_slash (rest : List Char) : split ('/' :: rest) = [] :: split rest := by
  rw [split]

theorem split_ne_nil (path : List Char) : split path ≠ [] := by
  fun_cases split path <;> simp

theorem split_cons_of_ne {c : Char} (ne : c ≠ '/') {rest : List Char} {first : Component}
    {others : List Component} (pieces : split rest = first :: others) :
    split (c :: rest) = (c :: first) :: others := by
  rw [split, pieces]
  exact ne

theorem split_of_no_slash {name : Component} (whole : '/' ∉ name) : split name = [name] := by
  induction name with
  | nil => rfl
  | cons c rest ih =>
    simp only [List.mem_cons, not_or] at whole
    exact split_cons_of_ne (Ne.symm whole.1) (ih whole.2)

theorem split_append_slash {name : Component} (whole : '/' ∉ name) (rest : List Char) :
    split (name ++ '/' :: rest) = name :: split rest := by
  induction name with
  | nil => exact split_slash rest
  | cons c more ih =>
    simp only [List.mem_cons, not_or] at whole
    exact split_cons_of_ne (Ne.symm whole.1) (ih whole.2)

theorem not_mem_of_mem_split {path : List Char} {name : Component} (piece : name ∈ split path) :
    '/' ∉ name := by
  induction path generalizing name with
  | nil =>
    cases List.mem_singleton.mp piece
    exact List.not_mem_nil
  | cons c rest ih =>
    by_cases slash : c = '/'
    · subst slash
      rw [split_slash] at piece
      rcases List.mem_cons.mp piece with rfl | later
      · exact List.not_mem_nil
      · exact ih later
    · cases pieces : split rest with
      | nil => exact absurd pieces (split_ne_nil rest)
      | cons first others =>
        rw [split_cons_of_ne slash pieces] at piece
        rw [pieces] at ih
        rcases List.mem_cons.mp piece with rfl | later
        · have whole := ih List.mem_cons_self
          simp [whole, Ne.symm slash]
        · exact ih (List.mem_cons_of_mem _ later)

theorem split_joinWith {names : List Component} (some : names ≠ [])
    (whole : ∀ name ∈ names, '/' ∉ name) : split (joinWith names) = names := by
  induction names with
  | nil => exact absurd rfl some
  | cons first rest ih =>
    have here := whole first List.mem_cons_self
    cases rest with
    | nil => exact split_of_no_slash here
    | cons second others =>
      have later := ih (List.cons_ne_nil _ _) fun name member =>
        whole name (List.mem_cons_of_mem _ member)
      rw [joinWith, split_append_slash here, later]
      exact List.cons_ne_nil _ _

end Split

section Proper

/-- What the normal form of an absolute path is made of. -/
structure Proper (name : Component) : Prop where
  whole : '/' ∉ name
  some : name ≠ []
  notHere : name ≠ here
  notParent : name ≠ parent

theorem descend_proper {reversed : List Component} (proper : ∀ name ∈ reversed, Proper name)
    {next : Component} (whole : '/' ∉ next) :
    ∀ name ∈ descend true reversed next, Proper name := by
  unfold descend
  split
  next => exact proper
  next kept =>
    simp only [not_or] at kept
    split
    next =>
      cases reversed with
      | nil => exact proper
      | cons last before =>
        dsimp only
        rw [if_neg (proper last List.mem_cons_self).notParent]
        exact fun name member => proper name (List.mem_cons_of_mem _ member)
    next other =>
      intro name member
      rcases List.mem_cons.mp member with rfl | old
      · exact ⟨whole, kept.1, kept.2, other⟩
      · exact proper name old

theorem foldl_descend_proper {components reversed : List Component}
    (proper : ∀ name ∈ reversed, Proper name) (whole : ∀ name ∈ components, '/' ∉ name) :
    ∀ name ∈ components.foldl (descend true) reversed, Proper name := by
  induction components generalizing reversed with
  | nil => exact proper
  | cons next rest ih =>
    have first := descend_proper proper (whole next List.mem_cons_self)
    exact ih first fun name member => whole name (List.mem_cons_of_mem _ member)

theorem normalComponents_proper (path : List Char) :
    ∀ name ∈ normalComponents true (split path), Proper name := by
  intro name member
  rw [normalComponents, List.mem_reverse] at member
  exact foldl_descend_proper (fun _ none => absurd none List.not_mem_nil)
    (fun _ piece => not_mem_of_mem_split piece) name member

/-- Proper components are all kept. -/
theorem foldl_descend_of_proper {components : List Component}
    (proper : ∀ name ∈ components, Proper name) (reversed : List Component) :
    components.foldl (descend true) reversed = components.reverse ++ reversed := by
  induction components generalizing reversed with
  | nil => rfl
  | cons next rest ih =>
    have first := proper next List.mem_cons_self
    have step : descend true reversed next = next :: reversed := by
      unfold descend
      rw [if_neg (not_or.mpr ⟨first.some, first.notHere⟩), if_neg first.notParent]
    rw [List.foldl_cons, step, ih fun name member => proper name (List.mem_cons_of_mem _ member)]
    simp

theorem normalComponents_skip (rooted : Bool) (n : Nat) (components : List Component) :
    normalComponents rooted (List.replicate n [] ++ components) =
      normalComponents rooted components := by
  induction n with
  | zero => rfl
  | succ n ih =>
    have step : descend rooted [] [] = [] := by simp [descend]
    rw [← ih]
    simp [normalComponents, List.replicate_succ, step]

theorem normalComponents_split_joinWith {names : List Component}
    (proper : ∀ name ∈ names, Proper name) :
    normalComponents true (split (joinWith names)) = names := by
  cases names with
  | nil => rfl
  | cons first rest =>
    rw [split_joinWith (List.cons_ne_nil _ _) fun name member => (proper name member).whole,
      normalComponents, foldl_descend_of_proper proper]
    simp

end Proper

section Normal

theorem split_replicate_append (n : Nat) (rest : List Char) :
    split (List.replicate n '/' ++ rest) = List.replicate n [] ++ split rest := by
  induction n with
  | zero => rfl
  | succ n ih => rw [List.replicate_succ, List.cons_append, split_slash, ih]; rfl

theorem leadingSlashes_le_two (path : List Char) : leadingSlashes path ≤ 2 := by
  fun_cases leadingSlashes path <;> simp

theorem joinWith_of_proper {first : Component} (proper : Proper first) (rest : List Component) :
    ∃ c more, joinWith (first :: rest) = c :: more ∧ c ≠ '/' := by
  cases first with
  | nil => exact absurd rfl proper.some
  | cons c name =>
    have ne : c ≠ '/' := fun same => proper.whole (same ▸ List.mem_cons_self)
    cases rest with
    | nil => exact ⟨c, name, rfl, ne⟩
    | cons second others => exact ⟨c, _, rfl, ne⟩

theorem joinWith_ne_slash {names : List Component} (proper : ∀ name ∈ names, Proper name)
    (rest : List Char) : joinWith names ≠ '/' :: rest := by
  intro slash
  cases names with
  | nil => cases slash
  | cons first others =>
    obtain ⟨c, more, joined, ne⟩ := joinWith_of_proper (proper first List.mem_cons_self) others
    rw [joined] at slash
    exact ne (List.cons.inj slash).1

/-- The number of leading slashes is that of a normal form, which has no further one. -/
theorem leadingSlashes_normal {names : List Component} (proper : ∀ name ∈ names, Proper name)
    {n : Nat} (few : n ≤ 2) :
    leadingSlashes (List.replicate n '/' ++ joinWith names) = n := by
  have none : n = 0 ∨ n = 1 ∨ n = 2 := by omega
  cases names with
  | nil => rcases none with rfl | rfl | rfl <;> rfl
  | cons first rest =>
    obtain ⟨c, more, joined, ne⟩ := joinWith_of_proper (proper first List.mem_cons_self) rest
    rw [joined]
    rcases none with rfl | rfl | rfl <;> simp [leadingSlashes, ne, List.replicate_succ]

/-- The normal form of an absolute path: its leading slashes, then proper components. -/
theorem normalChars_of_slash {path : List Char} (absolute : leadingSlashes path ≠ 0) :
    normalChars path = List.replicate (leadingSlashes path) '/' ++
      joinWith (normalComponents true (split path)) := by
  have rooted : decide (leadingSlashes path ≠ 0) = true := decide_eq_true absolute
  unfold normalChars
  simp only [rooted]
  split
  next nothing =>
    obtain ⟨n, slashes⟩ := Nat.exists_eq_succ_of_ne_zero absolute
    rw [slashes] at nothing
    cases nothing
  next => rfl

theorem normalChars_idem {path : List Char} (absolute : leadingSlashes path ≠ 0) :
    normalChars (normalChars path) = normalChars path := by
  have proper := normalComponents_proper path
  have form := normalChars_of_slash absolute
  have slashes : leadingSlashes (normalChars path) = leadingSlashes path := by
    rw [form]
    exact leadingSlashes_normal proper (leadingSlashes_le_two path)
  have components : normalComponents true (split (normalChars path)) =
      normalComponents true (split path) := by
    rw [form, split_replicate_append, normalComponents_skip, normalComponents_split_joinWith proper]
  rw [normalChars_of_slash (slashes ▸ absolute), slashes, components, ← form]

theorem isAbsolute_iff {path : String} :
    isAbsolute path = true ↔ leadingSlashes path.toList ≠ 0 := by
  unfold isAbsolute
  cases path.toList with
  | nil => simp [leadingSlashes]
  | cons c rest =>
    by_cases slash : c = '/'
    · subst slash
      have some : leadingSlashes ('/' :: rest) ≠ 0 := by
        unfold leadingSlashes
        split <;> simp_all
      simpa using some
    · simp [leadingSlashes, slash]

/-- An absolute path in normal form. -/
structure IsNormal (path : String) : Prop where
  absolute : isAbsolute path = true
  same : normalize path = path

theorem isNormal_normalize {path : String} (absolute : isAbsolute path = true) :
    IsNormal (normalize path) := by
  have slashes := isAbsolute_iff.mp absolute
  have form := normalChars_of_slash slashes
  constructor
  · rw [isAbsolute_iff, normalize, String.toList_ofList, form,
      leadingSlashes_normal (normalComponents_proper _) (leadingSlashes_le_two _)]
    exact slashes
  · rw [normalize, normalize, String.toList_ofList, normalChars_idem slashes]

theorem isAbsolute_append {base rest : String} (absolute : isAbsolute base = true) :
    isAbsolute (base ++ rest) = true := by
  unfold isAbsolute at absolute ⊢
  rw [String.toList_append]
  cases chars : base.toList with
  | nil => simp [chars] at absolute
  | cons c more => simpa [chars] using absolute

theorem isAbsolute_join {base path : String} (absolute : isAbsolute base = true) :
    isAbsolute (join base path) = true := by
  unfold join
  split
  next alone => exact alone
  next =>
    split
    · exact isAbsolute_append absolute
    · exact isAbsolute_append (isAbsolute_append absolute)

theorem isNormal_absolute (path : String) : IsNormal (Path.absolute path) :=
  isNormal_normalize (isAbsolute_join rfl)

theorem absolute_of_isNormal {path : String} (normal : IsNormal path) :
    Path.absolute path = path := by
  rw [Path.absolute, join, if_pos normal.absolute, normal.same]

theorem isAbsolute_of_prefix {chars start : List Char} (some : start ≠ [])
    (initial : start <+: chars) (absolute : chars.head? = Option.some '/') :
    isAbsolute (String.ofList start) = true := by
  obtain ⟨rest, rfl⟩ := initial
  cases start with
  | nil => exact absurd rfl some
  | cons c more => simpa [isAbsolute] using absolute

theorem isAbsolute_directory {path : String} (absolute : isAbsolute path = true) :
    isAbsolute (directory path) = true := by
  have first : path.toList.head? = some '/' := by simpa [isAbsolute] using absolute
  have slash : '/' ∈ path.toList.reverse := List.mem_reverse.mpr (List.mem_of_mem_head? first)
  unfold directory
  generalize cut : path.toList.reverse.dropWhile (· ≠ '/') = head
  have nonempty : head ≠ [] := by
    intro none
    rw [none] at cut
    have all := List.dropWhile_eq_nil_iff.mp cut '/' slash
    simp at all
  have suffix : head <:+ path.toList.reverse := cut ▸ List.dropWhile_suffix _
  dsimp only
  split
  next slashes =>
    cases head with
    | nil => exact absurd rfl nonempty
    | cons c more =>
      have same := List.dropWhile_eq_nil_iff.mp slashes c List.mem_cons_self
      simpa [isAbsolute] using same
  next some =>
    have short := (List.dropWhile_suffix (· = '/')).trans suffix
    refine isAbsolute_of_prefix (fun none => some (List.reverse_eq_nil_iff.mp none)) ?_ first
    rw [← List.reverse_suffix, List.reverse_reverse]
    exact short

end Normal

end ModuleBundler.Path
