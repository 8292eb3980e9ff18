import ModuleBundler.Proofs.Path.Parts
import ModuleBundler.Proofs.Settings.Merge
import ModuleBundler.Proofs.Source.Attempt
import ModuleBundler.Source.Walk
import ModuleBundler.Watch.Watcher

/-! Which files count as sources. The walk over imports follows a path that ends in a
configured extension, whatever stands before it; a watcher looks the suffix of the last
name up among the extensions. The suffix begins at the last dot and leaves a stem, so a
file may be followed that is not watched. -/
namespace ModuleBundler.Watch

open Source ModuleBundler.Path

/-- A path ends in an extension whose only dot is the one it begins with, and the extension leaves
a stem of the last name. -/
structure EndsPlainly (path extension : String) : Prop where
  ends : extension.toList <:+ path.toList
  stemmed : extension.toList ≠ (Parts.ofString path).name
  single : '.' ∉ extension.toList.tail
  whole : '/' ∉ extension.toList

variable {path e : String} {rest : List Char}

/-- What a path ends in without a slash its last name ends in. -/
theorem suffix_name (normal : IsNormal path) (ends : e.toList <:+ path.toList)
    (whole : '/' ∉ e.toList) : e.toList <:+ (Parts.ofString path).name := by
  obtain ⟨front, form, -⟩ := normal.exists_front
  rcases List.suffix_or_suffix_of_suffix ends ⟨front, form.symm⟩ with within | beyond
  · rcases List.suffix_cons_iff.mp within with same | inner
    · exact absurd (same ▸ List.mem_cons_self) whole
    · exact inner
  · exact absurd (beyond.subset List.mem_cons_self) whole

theorem suffix_eq_iff (normal : IsNormal path) (dotted : e.toList = '.' :: rest)
    (more : rest ≠ []) : (Parts.ofString path).suffix = e.toList ↔ EndsPlainly path e := by
  constructor
  · intro suffix
    obtain ⟨front, form, slashless⟩ := normal.exists_front
    obtain ⟨stem, tail, some, -, single, dotted', split⟩ :=
      exists_stem_of_suffixOf suffix (by simp [dotted])
    refine ⟨⟨front ++ '/' :: stem, ?_⟩, fun same => ?_, ?_, fun slash => slashless ?_⟩
    · rw [form, split]
      simp
    · rw [← same] at split
      exact some (List.self_eq_append_left.mp split)
    · rwa [dotted', List.tail_cons]
    · rw [split]
      exact List.mem_append_right _ slash
  · rintro ⟨ends, stemmed, single, whole⟩
    obtain ⟨stem, split⟩ := suffix_name normal ends whole
    have some : stem ≠ [] := by
      rintro rfl
      exact stemmed split
    rw [dotted, List.tail_cons] at single
    rw [Parts.suffix, ← split, dotted]
    exact suffixOf_append some more single

section Watcher

variable {κ : Type} {entries : List (Settings.Value × Settings.Value)}
  {s : Settings} {locate : Watcher.Locate} {root : String} {h : Host} {w : Watcher κ}

theorem extensions_of_ofSettings (started : (Watcher.ofSettings locate root s h).1 = .ok w)
    (some : s.sourceExtensions ≠ []) : w.extensions = .ofList s.sourceExtensions := by
  rw [Watcher.ofSettings, Watcher.start, bind_apply] at started
  cases read : (readPatterns (Watcher.patternPlace (locate root) none).toString h).1 with
  | error e =>
    rw [read] at started
    cases started
  | ok patterns =>
    rw [read] at started
    have same : w.extensions = .ofList (if s.sourceExtensions.isEmpty then [".js"] else
        s.sourceExtensions) := congrArg Watcher.extensions (Except.ok.inj started).symm
    rw [same, if_neg (by simpa using some)]

theorem isSource_iff (normal : IsNormal path) (same : w.extensions = .ofList s.sourceExtensions)
    (dotted : ∀ e ∈ s.sourceExtensions, ∃ rest, rest ≠ [] ∧ e.toList = '.' :: rest) :
    w.isSource path = true ↔ ∃ e ∈ s.sourceExtensions, EndsPlainly path e := by
  have found : w.isSource path = true ↔
      ∃ e ∈ s.sourceExtensions, (Parts.ofString path).suffix = e.toList := by
    rw [Watcher.isSource, decide_eq_true_eq, same, OrderedSet.ofList, OrderedSet.mem_insertAll,
      or_iff_right (OrderedSet.not_mem_empty _)]
    constructor
    · exact fun member => ⟨_, member, String.toList_ofList.symm⟩
    · rintro ⟨e, member, suffix⟩
      rwa [suffix, String.ofList_toList]
  rw [found]
  refine exists_congr fun e => and_congr_right fun member => ?_
  obtain ⟨rest, more, chars⟩ := dotted e member
  exact suffix_eq_iff normal chars more

/-- A watcher and the walk over imports, under settings made from any document: a file that is
watched is followed, and the two agree on a file just if it is not followed or ends plainly in a
configured extension. -/
theorem agree_iff_ends_plainly (taken : (Settings.ofValue (.mapping entries)).1 = .ok s)
    (started : (Watcher.ofSettings locate root s h).1 = .ok w) (normal : IsNormal path) :
    (w.isSource path = true → isSourceFile s.sourceExtensions path = true) ∧
    (w.isSource path = isSourceFile s.sourceExtensions path ↔
      (isSourceFile s.sourceExtensions path = true →
        ∃ e ∈ s.sourceExtensions, EndsPlainly path e)) := by
  obtain ⟨value, read⟩ := Settings.exists_extensions? taken
  obtain ⟨some, dotted⟩ := Settings.extensions?_spec read
  have watched := isSource_iff normal (extensions_of_ofSettings started some) dotted
  have followed : w.isSource path = true → isSourceFile s.sourceExtensions path = true := by
    rw [watched]
    rintro ⟨e, member, plainly⟩
    exact List.any_eq_true.mpr ⟨e, member, List.isSuffixOf_iff_suffix.mpr plainly.ends⟩
  refine ⟨followed, ?_⟩
  rw [← watched, Bool.eq_iff_iff]
  exact ⟨Iff.mpr, fun back => ⟨followed, back⟩⟩

/-- Of two files that are followed, the one that ends in no extension at its last dot is not
watched. -/
theorem agree_iff_ends_plainly_doubled :
    let entries : List (Settings.Value × Settings.Value) :=
      [(.text "source_extensions", .list [.text ".d.ts", .text ".js"])]
    ∃ s w, (Settings.ofValue (.mapping entries)).1 = .ok s ∧
      (Watcher.ofSettings (κ := Unit) Watcher.rootOf "/p" s (Host.ofDisk .empty)).1 = .ok w ∧
      IsNormal "/p/a.d.ts" ∧ w.isSource "/p/a.d.ts" ≠ isSourceFile s.sourceExtensions "/p/a.d.ts" ∧
      IsNormal "/p/a.min.js" ∧
      w.isSource "/p/a.min.js" = isSourceFile s.sourceExtensions "/p/a.min.js" := by
  intro entries
  let s : Settings := { Settings.default with sourceExtensions := [".d.ts", ".js"] }
  have taken : (Settings.ofValue (.mapping entries)).1 = .ok s := by rfl
  obtain ⟨w, started⟩ : ∃ w, (Watcher.ofSettings (κ := Unit) Watcher.rootOf "/p" s
      (Host.ofDisk .empty)).1 = .ok w := ⟨_, rfl⟩
  have normal : ∀ path ∈ ["/p/a.d.ts", "/p/a.min.js"], IsNormal path := by
    simp only [List.forall_mem_cons]
    refine ⟨⟨by decide, by decide +kernel⟩, ⟨by decide, by decide +kernel⟩, by simp⟩
  refine ⟨s, w, taken, started, normal _ (by simp), fun same => ?_, normal _ (by simp), ?_⟩
  · obtain ⟨e, member, plainly⟩ :=
      (agree_iff_ends_plainly taken started (normal "/p/a.d.ts" (by simp))).2.mp same (by decide +kernel)
    rcases List.mem_cons.mp member with rfl | member
    · exact plainly.single (by decide)
    · rw [List.mem_singleton.mp member] at plainly
      exact absurd plainly.ends (by decide)
  · refine (agree_iff_ends_plainly taken started (normal "/p/a.min.js" (by simp))).2.mpr fun _ =>
      ⟨".js", by decide, ⟨⟨"/p/a.min".toList, by decide⟩, by decide +kernel, by decide, by decide⟩⟩

/-- The law that a watcher and the walk over imports agree on every file is false: an extension may
have a dot inside. -/
theorem followed_file_unwatched :
    ¬ ∀ (entries : List (Settings.Value × Settings.Value)) (s : Settings) (root path : String)
      (h : Host) (w : Watcher Unit), (Settings.ofValue (.mapping entries)).1 = .ok s →
      (Watcher.ofSettings Watcher.rootOf root s h).1 = .ok w → IsNormal path →
      w.isSource path = isSourceFile s.sourceExtensions path := by
  intro law
  let s : Settings := { Settings.default with sourceExtensions := [".min.js"] }
  have same := law [(.text "source_extensions", .list [.text ".min.js"])] s "/p" "/p/a.min.js"
    (Host.ofDisk .empty) _ rfl rfl ⟨by decide, by decide +kernel⟩
  exact absurd same (by decide +kernel)

end Watcher

end ModuleBundler.Watch
