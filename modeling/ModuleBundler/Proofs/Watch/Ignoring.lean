import ModuleBundler.Proofs.Path.Parts
import ModuleBundler.Proofs.Source.Files
import ModuleBundler.Watch.Watcher

/-! Which paths are left out. The rules see a path by its parts below the project, and its
last name; so of a path behind the folder of a project only what stands behind it counts,
and it counts as it does on its own. The folder is where the system finds it, while a path
is taken as it is written: behind a root that is written in another way than it is found,
all parts of a path may count. Each pattern counts for itself. -/
namespace ModuleBundler.Watch

open Source ModuleBundler.Path

section Joined

variable {root path : String}

theorem takeWhile_slash_of_relative (relative : isAbsolute path = false) :
    path.toList.takeWhile (· = '/') = [] := by
  unfold isAbsolute at relative
  cases chars : path.toList with
  | nil => rfl
  | cons c rest =>
    rw [chars] at relative
    simpa using relative

theorem slashes_of_relative (relative : isAbsolute path = false) :
    (Parts.ofString path).slashes = 0 := by
  rw [Parts.ofString, Parts.ofChars, takeWhile_slash_of_relative relative]
  rfl

theorem takeWhile_append_of_stop {p : Char → Bool} (front : List Char) {rest : List Char}
    (stop : rest.takeWhile p = []) : (front ++ rest).takeWhile p = front.takeWhile p := by
  rw [List.takeWhile_append, stop, List.append_nil]
  split
  next whole => exact (List.IsPrefix.eq_of_length (List.takeWhile_prefix p) whole).symm
  next => rfl

theorem filter_split_append (front rest : List Char) :
    (split (front ++ '/' :: rest)).filter isStep =
      (split front).filter isStep ++ (split rest).filter isStep := by
  rw [split_append, List.filter_append]

/-- A slash behind a text that does not end in one begins nothing. -/
theorem takeWhile_append_slash {front : List Char} (some : front ≠ [])
    (open' : front.getLast? ≠ .some '/') (rest : List Char) :
    (front ++ '/' :: rest).takeWhile (· = '/') = front.takeWhile (· = '/') := by
  rw [List.takeWhile_append]
  split
  next whole =>
    -- A text of slashes alone would end in one.
    have all := List.takeWhile_eq_self_iff.mp
      (List.IsPrefix.eq_of_length (List.takeWhile_prefix (· = '/')) whole)
    refine absurd ?_ open'
    rw [List.getLast?_eq_some_getLast some, of_decide_eq_true (all _ (List.getLast_mem some))]
  next => rfl

/-- A relative path behind a root begins like the root and has its names and then its own. -/
theorem parts_join (relative : isAbsolute path = false) (root : String) :
    Parts.ofString (join root path) =
      ⟨(Parts.ofString root).slashes, (Parts.ofString root).names ++ (Parts.ofString path).names⟩ := by
  have stop := takeWhile_slash_of_relative relative
  have built : ∀ chars : List Char,
      chars.takeWhile (· = '/') = root.toList.takeWhile (· = '/') →
      (split chars).filter isStep =
        (split root.toList).filter isStep ++ (split path.toList).filter isStep →
      Parts.ofChars chars = ⟨(Parts.ofString root).slashes,
        (Parts.ofString root).names ++ (Parts.ofString path).names⟩ := by
    intro chars slashes names
    simp only [Parts.ofString, Parts.names_ofChars, ← names]
    rw [← Parts.names_ofChars, Parts.ofChars, Parts.ofChars, slashes]
  rw [join, if_neg (by simp [relative]), Parts.ofString]
  split
  next ends =>
    rw [String.toList_append]
    refine built _ (takeWhile_append_of_stop _ stop) ?_
    rcases Bool.or_eq_true_iff.mp ends with empty | slash
    · rw [String.isEmpty_iff.mp empty]
      rfl
    · obtain ⟨front, form⟩ := List.getLast?_eq_some_iff.mp (beq_iff_eq.mp slash)
      have whole : split (front ++ ['/']) = split front ++ [[]] := split_append front []
      rw [form, List.append_assoc, List.singleton_append, filter_split_append, whole,
        List.filter_append]
      simp [isStep]
  next open' =>
    rw [String.toList_append, String.toList_append, List.append_assoc]
    obtain ⟨some, unslashed⟩ : root ≠ "" ∧ root.toList.getLast? ≠ .some '/' := by
      simpa [String.isEmpty_iff] using open'
    exact built _ (takeWhile_append_slash (mt String.toList_eq_nil_iff.mp some) unslashed _)
      (filter_split_append _ _)

end Joined

section Root

/-- A place as the system tells it: absolute with a single root, and made of names only. -/
structure IsFound (place : Parts) : Prop where
  absolute : place.slashes = 1
  proper : ∀ name ∈ place.names, Proper name

/-- The text of a place has the parts of the place. -/
theorem IsFound.spelt {place : Parts} (found : IsFound place) :
    Parts.ofString place.toString = place := by
  obtain ⟨slashes, names⟩ := place
  obtain rfl : slashes = 1 := found.absolute
  rw [Parts.toString, Parts.ofString, String.toList_ofList]
  exact ofChars_normal found.proper (.inl rfl)

/-- A root that is written as the system finds it, or without any name. -/
def FoundAsWritten (locate : Watcher.Locate) (root : String) : Prop :=
  Parts.ofString root = locate root ∨ Parts.ofString root = ⟨0, []⟩

/-- Without links, the place of a root has the components of the normal form. -/
theorem rootOf_eq (root : String) :
    Watcher.rootOf root = ⟨1, normalComponents true (split root.toList)⟩ := by
  rw [Watcher.rootOf, Parts.ofString, toList_key]
  exact ofChars_normal (normalComponents_proper root.toList) (.inl rfl)

theorem isFound_rootOf (root : String) : IsFound (Watcher.rootOf root) := by
  rw [rootOf_eq]
  exact ⟨rfl, normalComponents_proper root.toList⟩

/-- A root without detours: absolute, with a single root, and no step to a parent. -/
structure IsStraight (root : String) : Prop where
  absolute : (Parts.ofString root).slashes = 1
  onward : parent ∉ (Parts.ofString root).names

/-- Without links, a root without detours is written as it is found. -/
theorem IsStraight.foundAsWritten {root : String} (straight : IsStraight root) :
    FoundAsWritten Watcher.rootOf root := by
  have proper : ∀ name ∈ (Parts.ofString root).names, Proper name := by
    intro name member
    have step : name ∈ (split root.toList).filter isStep := by
      rw [← Parts.names_ofChars]
      exact member
    obtain ⟨some, away⟩ : name ≠ [] ∧ name ≠ here := by
      simpa [isStep] using (List.mem_filter.mp step).2
    exact ⟨whole_of_mem_names member, some, away, fun same => straight.onward (same ▸ member)⟩
  have components : normalComponents true (split root.toList) = (Parts.ofString root).names := by
    rw [← normalComponents_filter, ← Parts.names_ofChars, normalComponents]
    exact (congrArg List.reverse (foldl_descend_of_proper proper [])).trans (by simp)
  left
  rw [rootOf_eq, components, ← straight.absolute]

end Root

section Rules

variable {root other : Parts} {patterns : List String} {path : String}

/-- The rules see the parts behind the root. -/
theorem within_behind (root : Parts) (names : List Component) :
    within root ⟨root.slashes, root.names ++ names⟩ = ⟨0, names⟩ := by
  have below : root.names.isPrefixOf (root.names ++ names) = true :=
    List.isPrefixOf_iff_prefix.mpr (List.prefix_append _ _)
  rw [within, Parts.below?, if_pos ⟨rfl, below⟩]
  simp

/-- A relative path lies below no project. -/
theorem within_relative {place : Parts} (absolute : root.slashes = 1) (relative : place.slashes = 0) :
    within root place = place := by
  rw [within, Parts.below?, if_neg]
  · rfl
  · rintro ⟨same, -⟩
    omega

/-- What the rules say of a path depends on its parts alone. -/
theorem isIgnored_congr {path other : String} (same : Parts.ofString path = Parts.ofString other)
    (project : Parts) (patterns : List String) :
    isIgnored project patterns path = isIgnored project patterns other := by
  rw [isIgnored, isIgnored, same]

/-- A path behind its root is left out just if it is on its own. -/
theorem isIgnored_join {root : String} {project : Parts} (spelt : Parts.ofString root = project)
    (absolute : project.slashes = 1) (patterns : List String) (relative : isAbsolute path = false)
    (some : (Parts.ofString path).names ≠ []) :
    isIgnored project patterns (join root path) = isIgnored project patterns path := by
  have alone : Parts.ofString path = ⟨0, (Parts.ofString path).names⟩ := by
    rw [← slashes_of_relative relative]
  have place : within project (Parts.ofString (join root path)) =
      within project (Parts.ofString path) := by
    rw [parts_join relative, spelt, within_behind,
      within_relative absolute (slashes_of_relative relative)]
    exact alone.symm
  have name : (Parts.ofString (join root path)).name = (Parts.ofString path).name := by
    rw [parts_join relative, Parts.name, Parts.name, List.getLastD_eq_getLast?,
      List.getLastD_eq_getLast?, List.getLast?_append, List.getLast?_eq_some_getLast some]
    rfl
  rw [isIgnored, isIgnored, place, name]

/-- So is a path behind a root that is written as it is found. -/
theorem isIgnored_join_of_foundAsWritten {locate : Watcher.Locate} {root : String}
    (found : FoundAsWritten locate root) (absolute : (locate root).slashes = 1)
    (patterns : List String) (relative : isAbsolute path = false)
    (some : (Parts.ofString path).names ≠ []) :
    isIgnored (locate root) patterns (join root path) = isIgnored (locate root) patterns path := by
  rcases found with written | nowhere
  · exact isIgnored_join written absolute patterns relative some
  · refine isIgnored_congr ?_ _ patterns
    rw [parts_join relative, nowhere, ← slashes_of_relative relative]
    rfl

theorem any_of_mem_iff {α : Type} {these those : List α} (same : ∀ a, a ∈ these ↔ a ∈ those)
    (test : α → Bool) : these.any test = those.any test := by
  rw [Bool.eq_iff_iff, List.any_eq_true, List.any_eq_true]
  exact exists_congr fun a => and_congr_left fun _ => same a

/-- On its own, a relative path is left out by the patterns, whatever the project. -/
theorem isIgnored_relative {project other : Parts} {patterns others : List String}
    (absolute : project.slashes = 1) (absolute' : other.slashes = 1)
    (same : ∀ p, p ∈ patterns ↔ p ∈ others) (relative : isAbsolute path = false) :
    isIgnored project patterns path = isIgnored other others path := by
  rw [isIgnored, isIgnored, within_relative absolute (slashes_of_relative relative),
    within_relative absolute' (slashes_of_relative relative)]
  exact congrArg _ (any_of_mem_iff same _)

/-- Patterns leave out what each of them leaves out. -/
theorem isIgnored_union {project : Parts} {these those both : List String}
    (union : ∀ p, p ∈ both ↔ p ∈ these ∨ p ∈ those) (path : String) :
    isIgnored project both path =
      (isIgnored project these path || isIgnored project those path) := by
  have appended : ∀ p, p ∈ both ↔ p ∈ these ++ those := fun p => by rw [union p, List.mem_append]
  rw [isIgnored, isIgnored, isIgnored, any_of_mem_iff appended, List.any_append]
  grind

end Rules

section Detour

/-- The pattern of all texts of two characters or more. -/
def twoOrMore : String := "??*"

theorem orShorter_replicate (n : Nat) :
    Glob.orShorter (List.replicate n false ++ [true]) = List.replicate (n + 1) true := by
  induction n with
  | zero => rfl
  | succ n ih =>
    rw [List.replicate_succ, List.cons_append, Glob.orShorter, ih]
    rfl

theorem accepts_twoOrMore {text : String} (long : 2 ≤ text.toList.length) :
    (Glob.ofString twoOrMore).accepts text = true := by
  have pieces : Glob.ofString twoOrMore = [.anyChar, .anyChar, .anyText] := by decide
  obtain ⟨c, d, rest, chars⟩ : ∃ c d rest, text.toList = c :: d :: rest := by
    cases chars : text.toList with
    | nil => simp [chars] at long
    | cons c rest =>
      cases rest with
      | nil => simp [chars] at long
      | cons d rest => exact ⟨c, d, rest, rfl⟩
  rw [pieces, Glob.accepts, chars]
  simp only [Glob.acceptedEnds, orShorter_replicate]
  rfl

theorem length_joinWith_concat (front : List Component) (c : Char) :
    front.length + 1 ≤ (joinWith (front ++ [[c]])).length := by
  induction front with
  | nil => exact Nat.le_refl 1
  | cons first rest ih =>
    have down : joinWith (first :: rest ++ [[c]]) = first ++ '/' :: joinWith (rest ++ [[c]]) := by
      cases rest <;> rfl
    rw [down, List.length_append, List.length_cons, List.length_cons]
    omega

/-- A place with something before a name of one letter is spelt with two characters or more. -/
theorem two_le_length_toChars {place : Parts} {front : List Component} {c : Char}
    (names : place.names = front ++ [[c]]) (more : place.slashes ≠ 0 ∨ front ≠ []) :
    2 ≤ place.toChars.length := by
  have long : 2 ≤ (List.replicate place.slashes '/' ++ joinWith place.names).length := by
    have below := length_joinWith_concat front c
    rw [List.length_append, List.length_replicate, names]
    rcases more with slashes | some
    · omega
    · have := List.length_pos_iff.mpr some
      omega
  rw [Parts.toChars]
  split
  next empty =>
    rw [empty] at long
    exact absurd long (by decide)
  next => exact long

/-- Behind a root that is written in another way than it is found, something of the root is left
before a name: all of the root, or what lies below the place of the project. -/
theorem exists_front {project parts : Parts} {c : Char} (away : parts ≠ project)
    (somewhere : parts ≠ ⟨0, []⟩) (other : project.names ≠ parts.names ++ [[c]]) :
    ∃ front, (within project ⟨parts.slashes, parts.names ++ [[c]]⟩).names = front ++ [[c]] ∧
      ((within project ⟨parts.slashes, parts.names ++ [[c]]⟩).slashes ≠ 0 ∨ front ≠ []) := by
  rw [within, Parts.below?]
  split
  next below =>
    obtain ⟨slashes, start⟩ := below
    -- The names of the project come before the letter, and are not all that does.
    obtain ⟨rest, whole⟩ := List.isPrefixOf_iff_prefix.mp start
    rcases List.eq_nil_or_concat rest with rfl | ⟨front, last, rfl⟩
    · exact absurd ((List.append_nil _).symm.trans whole) other
    · rw [List.concat_eq_append, ← List.append_assoc] at whole
      obtain ⟨names, letter⟩ := List.append_inj' whole rfl
      refine ⟨front, ?_, .inr fun none => away ?_⟩
      · have behind : parts.names ++ [[c]] = project.names ++ (front ++ [[c]]) := by
          rw [← names, List.append_assoc]
        rw [Option.getD_some, behind, List.drop_left]
      · rw [none, List.append_nil] at names
        exact congrArg₂ Parts.mk slashes names.symm
  next =>
    refine ⟨parts.names, rfl, ?_⟩
    by_contra nothing
    obtain ⟨relative, nameless⟩ := not_or.mp nothing
    exact somewhere (congrArg₂ Parts.mk (not_not.mp relative) (not_not.mp nameless))

/-- Behind a root that is written in another way than it is found, a path may be left out that is
not left out on its own. -/
theorem exists_detour {project : Parts} {root : String} (absolute : project.slashes = 1)
    (away : Parts.ofString root ≠ project) (somewhere : Parts.ofString root ≠ ⟨0, []⟩) :
    ∃ path, isAbsolute path = false ∧ (Parts.ofString path).names ≠ [] ∧
      isIgnored project [twoOrMore] (join root path) = true ∧
      isIgnored project [twoOrMore] path = false := by
  obtain ⟨c, letter, other⟩ : ∃ c : Char, (c = 'x' ∨ c = 'y') ∧
      project.names ≠ (Parts.ofString root).names ++ [[c]] := by
    by_cases next : project.names = (Parts.ofString root).names ++ [['x']]
    · exact ⟨'y', .inr rfl, by simp [next]⟩
    · exact ⟨'x', .inl rfl, next⟩
  obtain ⟨relative, parts, kept⟩ : isAbsolute (String.singleton c) = false ∧
      Parts.ofString (String.singleton c) = ⟨0, [[c]]⟩ ∧
      isIgnored ⟨1, []⟩ [twoOrMore] (String.singleton c) = false := by
    rcases letter with rfl | rfl <;> decide +kernel
  refine ⟨String.singleton c, relative, by simp [parts], ?_, ?_⟩
  · obtain ⟨front, names, more⟩ := exists_front away somewhere other
    rw [isIgnored, parts_join relative, parts]
    have long := two_le_length_toChars names more
    generalize within project _ = place at long ⊢
    have accepted : (Glob.ofString twoOrMore).accepts place.toString = true :=
      accepts_twoOrMore (by rwa [Parts.toString, String.toList_ofList])
    simp [Watch.names, accepted]
  · rw [← kept, isIgnored, isIgnored, parts, within_relative absolute rfl, within_relative rfl rfl]

end Detour

section Watchers

variable {κ : Type} {locate : Watcher.Locate} {root₁ root₂ : String}
  {extensions₁ extensions₂ : List String} {file₁ file₂ : Option String}
  {user₁ user₂ : List String} {h₁ h₂ : Host} {w₁ w₂ : Watcher κ}

theorem root_of_start
    (started : (Watcher.start locate root₁ extensions₁ file₁ user₁ h₁).1 = .ok w₁) :
    w₁.root = locate root₁ := by
  rw [Watcher.start, bind_apply] at started
  cases read : (readPatterns (Watcher.patternPlace (locate root₁) file₁).toString h₁).1 with
  | error e =>
    rw [read] at started
    cases started
  | ok patterns =>
    rw [read] at started
    rw [← Except.ok.inj started]

theorem ignores_of_start
    (started : (Watcher.start locate root₁ extensions₁ file₁ user₁ h₁).1 = .ok w₁) (path : String) :
    w₁.ignores path = isIgnored (locate root₁) w₁.patterns path := by
  rw [Watcher.ignores, root_of_start started]

/-- Wherever the system finds their projects, watchers with the same patterns leave out the same
relative paths, and of the paths behind the place of a project, and behind a root that is written as
it is found, those that they leave out on their own. Behind any other root some pattern leaves out
a path that it does not leave out on its own. A union of patterns leaves out what either part
does. -/
theorem ignores_below_root (found₁ : IsFound (locate root₁)) (found₂ : IsFound (locate root₂))
    (started₁ : (Watcher.start locate root₁ extensions₁ file₁ user₁ h₁).1 = .ok w₁)
    (started₂ : (Watcher.start locate root₂ extensions₂ file₂ user₂ h₂).1 = .ok w₂)
    (same : ∀ p, p ∈ w₁.patterns ↔ p ∈ w₂.patterns) :
    (∀ path, isAbsolute path = false → (Parts.ofString path).names ≠ [] →
      w₂.ignores path = w₁.ignores path ∧
      w₁.ignores (join (locate root₁).toString path) = w₁.ignores path ∧
      w₂.ignores (join (locate root₂).toString path) = w₁.ignores path ∧
      (FoundAsWritten locate root₁ → w₁.ignores (join root₁ path) = w₁.ignores path) ∧
      (FoundAsWritten locate root₂ → w₂.ignores (join root₂ path) = w₁.ignores path)) ∧
    (¬ FoundAsWritten locate root₁ → ∃ pattern path, isAbsolute path = false ∧
      (Parts.ofString path).names ≠ [] ∧
      isIgnored w₁.root [pattern] (join root₁ path) = true ∧
      isIgnored w₁.root [pattern] path = false) ∧
    ∀ these those both : List String, (∀ p, p ∈ both ↔ p ∈ these ∨ p ∈ those) → ∀ path,
      isIgnored w₁.root both path =
        (isIgnored w₁.root these path || isIgnored w₁.root those path) := by
  have first := ignores_of_start started₁
  have second := ignores_of_start started₂
  refine ⟨fun path relative some => ?_, fun detour => ?_, fun _ _ _ union => isIgnored_union union⟩
  · have alike : w₂.ignores path = w₁.ignores path := by
      rw [first, second]
      exact isIgnored_relative found₂.absolute found₁.absolute (fun p => (same p).symm) relative
    refine ⟨alike, ?_, Eq.trans ?_ alike, fun written => ?_, fun written => Eq.trans ?_ alike⟩
    · rw [first, first]
      exact isIgnored_join found₁.spelt found₁.absolute _ relative some
    · rw [second, second]
      exact isIgnored_join found₂.spelt found₂.absolute _ relative some
    · rw [first, first]
      exact isIgnored_join_of_foundAsWritten written found₁.absolute _ relative some
    · rw [second, second]
      exact isIgnored_join_of_foundAsWritten written found₂.absolute _ relative some
  · obtain ⟨away, somewhere⟩ := not_or.mp detour
    obtain ⟨path, relative, some, out, kept⟩ := exists_detour found₁.absolute away somewhere
    rw [root_of_start started₁]
    exact ⟨twoOrMore, path, relative, some, out, kept⟩

/-- One root is a link to a folder below one on the idle list, which counts for nothing behind the
place that the link leads to; nor do a doubled separator and a step on the spot in the other root.
Behind the link itself more may count. -/
theorem ignores_below_root_linked :
    let locate : Watcher.Locate := fun root =>
      if root = "/www/app" then ⟨1, ["build".toList, "app".toList]⟩ else Watcher.rootOf root
    IsFound (locate "/www/app") ∧ IsFound (locate "/srv//./p") ∧ ∃ w₁ w₂ : Watcher Unit,
      (Watcher.start locate "/www/app" [] none ["*.min.js"] (Host.ofDisk .empty)).1 = .ok w₁ ∧
      (Watcher.start locate "/srv//./p" [] none ["*.min.js"] (Host.ofDisk .empty)).1 = .ok w₂ ∧
      (∀ p, p ∈ w₁.patterns ↔ p ∈ w₂.patterns) ∧
      w₁.ignores (join "/build/app" "../src//main.js") = false ∧
      w₂.ignores (join "/srv//./p" "../src//main.js") = false ∧
      w₁.ignores (join "/build/app" "src/./a.min.js") = true ∧
      w₂.ignores (join "/srv//./p" "src/./a.min.js") = true ∧
      ∃ pattern path, isIgnored w₁.root [pattern] (join "/www/app" path) ≠
        isIgnored w₁.root [pattern] path := by
  intro locate
  have linked : locate "/www/app" = Watcher.rootOf "/build/app" := by decide +kernel
  have plain : locate "/srv//./p" = Watcher.rootOf "/srv//./p" := by decide +kernel
  let w₁ : Watcher Unit :=
    ⟨Watcher.rootOf "/build/app", .ofList [".js"], ∅, .ofList ["*.min.js"], ∅, ∅⟩
  let w₂ : Watcher Unit :=
    ⟨Watcher.rootOf "/srv//./p", .ofList [".js"], ∅, .ofList ["*.min.js"], ∅, ∅⟩
  have started₁ : (Watcher.start locate "/www/app" [] none ["*.min.js"]
      (Host.ofDisk .empty)).1 = .ok w₁ := by
    rw [Watcher.start, linked]
    rfl
  have started₂ : (Watcher.start locate "/srv//./p" [] none ["*.min.js"]
      (Host.ofDisk .empty)).1 = .ok w₂ := by
    rw [Watcher.start, plain]
    rfl
  have found₁ : IsFound (locate "/www/app") := linked ▸ isFound_rootOf "/build/app"
  have found₂ : IsFound (locate "/srv//./p") := plain ▸ isFound_rootOf "/srv//./p"
  have same : ∀ p, p ∈ w₁.patterns ↔ p ∈ w₂.patterns := fun p => by
    simp only [Watcher.patterns, w₁, w₂]
  have straight : IsStraight "/srv//./p" := ⟨by decide, by decide⟩
  have written : FoundAsWritten locate "/srv//./p" := by
    rw [FoundAsWritten, plain]
    exact straight.foundAsWritten
  have detour : ¬ FoundAsWritten locate "/www/app" := by
    rw [FoundAsWritten, linked]
    decide +kernel
  have kept : w₁.ignores "../src//main.js" = false := by decide +kernel
  have left : w₁.ignores "src/./a.min.js" = true := by decide +kernel
  have relative : isAbsolute "../src//main.js" = false ∧ isAbsolute "src/./a.min.js" = false := by
    decide
  obtain ⟨alike, differ, -⟩ := ignores_below_root found₁ found₂ started₁ started₂ same
  obtain ⟨-, first, -, -, second⟩ := alike "../src//main.js" relative.1 (by decide)
  obtain ⟨-, first', -, -, second'⟩ := alike "src/./a.min.js" relative.2 (by decide)
  obtain ⟨pattern, path, -, -, out, within⟩ := differ detour
  have place : (locate "/www/app").toString = "/build/app" := by decide +kernel
  rw [place] at first first'
  exact ⟨found₁, found₂, w₁, w₂, started₁, started₂, same, first.trans kept,
    (second written).trans kept, first'.trans left, (second' written).trans left, pattern, path,
    fun equal => Bool.noConfusion (within.symm.trans (equal.symm.trans out))⟩

/-- The law that a path behind any root is left out just if it is on its own is false: a root that
climbs is not a beginning of the project's name, so the whole path counts. -/
theorem climbing_root_counts :
    ¬ ∀ (root : String) (user : List String) (h : Host) (w : Watcher Unit) (path : String),
      (Watcher.start Watcher.rootOf root [] none user h).1 = .ok w → isAbsolute path = false →
      (Parts.ofString path).names ≠ [] → w.ignores (join root path) = w.ignores path := by
  intro law
  obtain ⟨w, started⟩ : ∃ w, (Watcher.start (κ := Unit) Watcher.rootOf "/build/../p" [] none []
      (Host.ofDisk .empty)).1 = .ok w := ⟨_, rfl⟩
  have same := law _ _ _ w "main.js" started (by decide) (by decide)
  cases started
  exact absurd same (by decide +kernel)

end Watchers

end ModuleBundler.Watch
