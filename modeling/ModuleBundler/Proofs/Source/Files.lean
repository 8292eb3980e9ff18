import ModuleBundler.Proofs.Path.Spelling
import ModuleBundler.Proofs.Source.Attempt

/-! Which files a disk can show. Paths in normal form that lead to a text are few:
there are two spellings for each key. And a disk on which a new path is put shows
all that it showed before. -/
namespace ModuleBundler.Source

open ModuleBundler.Path

section Paths

/-- The paths in normal form that may lead to a file, and some more. -/
def Disk.paths (d : Disk) : List String := d.entries.keys ++ d.entries.keys.map ("/" ++ ·)

/-- A key is a path in normal form without its second leading slash. -/
theorem eq_key_of_isNormal {path : String} (normal : IsNormal path) :
    path = Disk.key path ∨ path = "/" ++ Disk.key path := by
  unfold Disk.key
  rw [absolute_of_isNormal normal]
  split
  next rest chars =>
    right
    apply String.toList_injective
    simp [chars]
  next =>
    left
    rw [String.ofList_toList]

theorem mem_keys_of_find {d : Disk} {path : String} {content : ByteArray}
    (found : d.find path = .ok (.file content)) : Disk.key path ∈ d.entries.keys := by
  unfold Disk.find at found
  dsimp only at found
  split at found
  next entry present => exact Table.mem_keys_of_get? present
  next =>
    split at found
    next => cases found
    next => split at found <;> cases found

theorem mem_paths_of_textOn? {r : Reader} {d : Disk} {path text : String} (normal : IsNormal path)
    (readable : r.textOn? d path = some text) : path ∈ d.paths := by
  have found : ∃ content, d.find path = .ok (.file content) := by
    unfold Reader.textOn? at readable
    split at readable
    next entry content _ looked =>
      unfold Disk.look at looked
      split at looked
      next => cases looked
      next =>
        cases found : d.find path with
        | error e =>
          rw [found] at looked
          cases looked
        | ok entry =>
          rw [found] at looked
          cases looked
          exact ⟨content, rfl⟩
    next => cases readable
  obtain ⟨content, found⟩ := found
  have known := mem_keys_of_find found
  rw [Disk.paths, List.mem_append, List.mem_map]
  rcases eq_key_of_isNormal normal with same | same
  · left
    rw [same]
    exact known
  · exact .inr ⟨_, known, same.symm⟩

theorem isNormal_of_mem_localImports {extensions : List String} {path content target : String}
    (normal : IsNormal path) (imported : target ∈ localImports extensions path content) :
    IsNormal target := by
  simp only [localImports, List.mem_filter, List.mem_map] at imported
  obtain ⟨⟨specifier, -, rfl⟩, -⟩ := imported
  exact isNormal_normalize (isAbsolute_join (isAbsolute_directory normal.absolute))

end Paths

section Spelling

/-- A key is a single slash and the proper components of the path. -/
theorem toList_key (path : String) : (Disk.key path).toList =
    '/' :: joinWith (normalComponents true (split path.toList)) := by
  have rooted : ∃ slashes ≠ 0, slashes ≤ 2 ∧ (Path.absolute path).toList =
      List.replicate slashes '/' ++ joinWith (normalComponents true (split path.toList)) := by
    rw [Path.absolute, Path.normalize, String.toList_ofList, Path.join]
    by_cases absolute : isAbsolute path = true
    · rw [if_pos absolute]
      exact ⟨_, isAbsolute_iff.mp absolute, leadingSlashes_le_two _,
        normalChars_of_slash (isAbsolute_iff.mp absolute)⟩
    · have behind : ("/" ++ path).toList = '/' :: path.toList := String.toList_append
      have rooted : isAbsolute ("/" ++ path) = true := isAbsolute_append rfl
      have some := isAbsolute_iff.mp rooted
      rw [if_neg absolute, if_pos (by decide), normalChars_of_slash some]
      refine ⟨_, some, leadingSlashes_le_two _, ?_⟩
      rw [behind, split_slash]
      exact congrArg _ (congrArg _ (normalComponents_skip true 1 (split path.toList)))
  obtain ⟨slashes, some, few, form⟩ := rooted
  have down := joinWith_ne_slash (normalComponents_proper path.toList)
  unfold Disk.key
  rw [form]
  generalize joinWith (normalComponents true (split path.toList)) = rest at down
  obtain rfl | rfl : slashes = 1 ∨ slashes = 2 := by omega
  · split
    next more doubled => exact absurd (List.cons.inj doubled).2 (down more)
    next => exact String.toList_ofList
  · exact String.toList_ofList

/-- A path and the spelling of its parts have one key. -/
theorem key_toString (path : String) : Disk.key (Parts.ofString path).toString = Disk.key path := by
  apply String.toList_injective
  rw [toList_key, toList_key, Parts.toString, String.toList_ofList, Parts.ofString,
    normalComponents_split_toChars]

end Spelling

section Growth

/-- A disk that shows all that another shows. -/
def Disk.Extends (d e : Disk) : Prop :=
  ∀ path entry, d.find path = .ok entry → e.find path = .ok entry

variable {d e : Disk}

/-- What stands at a path depends on its key alone. -/
theorem find_of_key {path other : String} {entry : Entry} (same : Disk.key other = Disk.key path)
    (found : d.find path = .ok entry) : d.find other = .ok entry := by
  unfold Disk.find at found ⊢
  rw [same]
  dsimp only at found ⊢
  split at found
  next shown present => exact found
  next =>
    split at found
    next above =>
      rw [if_pos above]
      exact found
    next => split at found <;> cases found

/-- What a look shows is shown under the spelling of the parts too. -/
theorem look_toString {path : String} {entry : Entry} (seen : d.look path = .ok entry) :
    d.look (Parts.ofString path).toString = .ok entry := by
  unfold Disk.look at seen ⊢
  split at seen
  next => cases seen
  next clean =>
    have still : (Parts.ofString path).toString.toList.contains '\x00' ≠ true := by
      intro null
      rw [Parts.toString, String.toList_ofList, List.contains_iff_mem] at null
      rcases mem_toChars null with slash | dot | inside
      · cases slash
      · cases dot
      · exact clean (List.contains_iff_mem.mpr inside)
    rw [if_neg still]
    cases found : d.find path with
    | error e =>
      rw [found] at seen
      cases seen
    | ok shown =>
      rw [found] at seen
      rw [find_of_key (key_toString path) found]
      exact seen

/-- What is put where nothing was hides nothing. -/
theorem extends_put {path : String} {error : SystemError} (absent : d.find path = .error error)
    (entry : Entry) : d.Extends (d.put path entry) := by
  intro other shown found
  have apart : Disk.key other ≠ Disk.key path := by
    intro same
    rw [find_of_key same.symm found] at absent
    cases absent
  have kept : (d.put path entry).entries.get? (Disk.key other) =
      d.entries.get? (Disk.key other) := Table.get?_insert_of_ne apart entry
  unfold Disk.find at found ⊢
  dsimp only at found ⊢
  rw [kept]
  split at found
  next => exact found
  next =>
    split at found
    next above =>
      rw [if_pos]
      · exact found
      · rw [Bool.or_eq_true, List.any_eq_true] at above ⊢
        refine above.imp id ?_
        rintro ⟨key, member, below⟩
        exact ⟨key, Table.mem_keys_insert member, below⟩
    next => split at found <;> cases found

theorem look_of_extends (grown : d.Extends e) {path : String} {entry : Entry}
    (looked : d.look path = .ok entry) : e.look path = .ok entry := by
  unfold Disk.look at looked ⊢
  split at looked
  next => cases looked
  next clean =>
    rw [if_neg clean]
    cases found : d.find path with
    | error e =>
      rw [found] at looked
      cases looked
    | ok shown =>
      rw [found] at looked
      cases looked
      rw [grown _ _ found]
      rfl

theorem textOn?_of_extends {r : Reader} {path text : String} (grown : d.Extends e)
    (readable : r.textOn? d path = some text) : r.textOn? e path = some text := by
  unfold Reader.textOn? at readable
  split at readable
  next entry content size looked =>
    unfold Reader.textOn?
    rw [look_of_extends grown size, look_of_extends grown looked]
    exact readable
  next => cases readable

end Growth
end ModuleBundler.Source
