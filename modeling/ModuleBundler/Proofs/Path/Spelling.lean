import ModuleBundler.Proofs.Path.Normal
import ModuleBundler.Path.Parts

/-! Spellings of one path. Empty pieces and single dots add nothing to a path, so its
normal form is that of its parts; and a relative path behind a base has the parts of the
base and then its own. -/
namespace ModuleBundler.Path

section Pieces

theorem split_append (front rest : List Char) :
    split (front ++ '/' :: rest) = split front ++ split rest := by
  induction front with
  | nil => exact split_slash rest
  | cons c more ih =>
    by_cases slash : c = '/'
    · subst slash
      rw [List.cons_append, split_slash, split_slash, ih, List.cons_append]
    · cases pieces : split more with
      | nil => exact absurd pieces (split_ne_nil more)
      | cons first others =>
        rw [split_cons_of_ne slash pieces, List.cons_append]
        rw [pieces] at ih
        exact split_cons_of_ne slash ih

theorem mem_of_mem_split {path : List Char} {name : Component} (piece : name ∈ split path) {c : Char}
    (member : c ∈ name) : c ∈ path := by
  induction path generalizing name with
  | nil =>
    cases List.mem_singleton.mp piece
    exact member
  | cons d rest ih =>
    by_cases slash : d = '/'
    · subst slash
      rw [split_slash] at piece
      rcases List.mem_cons.mp piece with rfl | later
      · cases member
      · exact List.mem_cons_of_mem _ (ih later member)
    · cases pieces : split rest with
      | nil => exact absurd pieces (split_ne_nil rest)
      | cons first others =>
        rw [split_cons_of_ne slash pieces] at piece
        rw [pieces] at ih
        rcases List.mem_cons.mp piece with rfl | later
        · rcases List.mem_cons.mp member with rfl | inside
          · exact List.mem_cons_self
          · exact List.mem_cons_of_mem _ (ih List.mem_cons_self inside)
        · exact List.mem_cons_of_mem _ (ih (List.mem_cons_of_mem _ later) member)

theorem mem_joinWith {names : List Component} {c : Char} (member : c ∈ joinWith names) :
    c = '/' ∨ ∃ name ∈ names, c ∈ name := by
  induction names with
  | nil => cases member
  | cons first rest ih =>
    cases rest with
    | nil => exact .inr ⟨first, List.mem_cons_self, member⟩
    | cons second others =>
      rw [joinWith, List.mem_append, List.mem_cons] at member
      · rcases member with here | rfl | later
        · exact .inr ⟨first, List.mem_cons_self, here⟩
        · exact .inl rfl
        · refine (ih later).imp id ?_
          rintro ⟨name, known, inside⟩
          exact ⟨name, List.mem_cons_of_mem _ known, inside⟩
      · exact List.cons_ne_nil _ _

/-- A piece that names something: neither empty nor the place itself. -/
def isStep (piece : Component) : Bool := piece ≠ [] && piece ≠ here

theorem Parts.names_ofChars (path : List Char) :
    (Parts.ofChars path).names = (split path).filter isStep := by
  change ((split path).filter (· ≠ [])).filter (· ≠ here) = _
  rw [List.filter_filter]
  exact List.filter_congr fun piece _ => Bool.and_comm _ _

/-- Pieces that name nothing leave a normal sequence as it is. -/
theorem normalComponents_filter (rooted : Bool) (pieces : List Component) :
    normalComponents rooted (pieces.filter isStep) = normalComponents rooted pieces := by
  have folded : ∀ reversed, (pieces.filter isStep).foldl (descend rooted) reversed =
      pieces.foldl (descend rooted) reversed := by
    induction pieces with
    | nil => exact fun _ => rfl
    | cons piece rest ih =>
      intro reversed
      by_cases names : isStep piece = true
      · rw [List.filter_cons_of_pos names, List.foldl_cons, List.foldl_cons, ih]
      · have nothing : piece = [] ∨ piece = here := by
          simpa [isStep, or_iff_not_imp_left] using names
        have same : descend rooted reversed piece = reversed := by
          unfold descend
          rw [if_pos nothing]
        rw [List.filter_cons_of_neg names, List.foldl_cons, same, ih]
  rw [normalComponents, normalComponents, folded]

end Pieces

section Spelling

variable {path : String}

theorem whole_of_mem_names {path : List Char} {name : Component}
    (member : name ∈ (Parts.ofChars path).names) : '/' ∉ name := by
  rw [Parts.names_ofChars] at member
  exact not_mem_of_mem_split (List.mem_filter.mp member).1

/-- A path as its parts spell it has the pieces of its parts, and pieces that name nothing. -/
theorem filter_split_toChars (p : Parts) (whole : ∀ name ∈ p.names, '/' ∉ name) :
    (split p.toChars).filter isStep = p.names.filter isStep := by
  have slashes : (List.replicate p.slashes ([] : Component)).filter isStep = [] :=
    List.filter_eq_nil_iff.mpr fun piece member => by
      rw [List.eq_of_mem_replicate member]
      decide
  have spelt : (split (List.replicate p.slashes '/' ++ joinWith p.names)).filter isStep =
      p.names.filter isStep := by
    rw [split_replicate_append, List.filter_append, slashes, List.nil_append]
    cases names : p.names with
    | nil => rfl
    | cons first rest =>
      rw [split_joinWith (List.cons_ne_nil _ _) (names ▸ whole)]
  unfold Parts.toChars
  split
  next nothing =>
    rw [nothing] at spelt
    exact spelt
  next => exact spelt

theorem normalComponents_split_toChars (rooted : Bool) (path : List Char) :
    normalComponents rooted (split (Parts.ofChars path).toChars) =
      normalComponents rooted (split path) := by
  rw [← normalComponents_filter, filter_split_toChars _ fun _ => whole_of_mem_names,
    Parts.names_ofChars, List.filter_filter, ← normalComponents_filter rooted (split path)]
  simp

theorem mem_toChars {path : List Char} {c : Char} (member : c ∈ (Parts.ofChars path).toChars) :
    c = '/' ∨ c = '.' ∨ c ∈ path := by
  have spelt : c ∈ List.replicate (Parts.ofChars path).slashes '/' ++
      joinWith (Parts.ofChars path).names → c = '/' ∨ c ∈ path := by
    intro member
    rcases List.mem_append.mp member with slash | inside
    · exact .inl (List.eq_of_mem_replicate slash)
    · refine (mem_joinWith inside).imp id ?_
      rintro ⟨name, known, inside⟩
      rw [Parts.names_ofChars] at known
      exact mem_of_mem_split (List.mem_filter.mp known).1 inside
  unfold Parts.toChars at member
  split at member
  next => exact .inr (.inl (List.mem_singleton.mp member))
  next => exact (spelt member).imp id .inr

end Spelling

end ModuleBundler.Path
