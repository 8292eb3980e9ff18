import Mathlib.Data.Option.Basic
import ModuleBundler.Settings.Basic

/-! Settings made from a document. Entries are taken over one by one, and each changes at
most the setting that it names. So whatever the defaults have and every accepted value
keeps is had by all settings that come out. -/
namespace ModuleBundler.Settings

variable {entries : List (Value × Value)} {s : Settings}

/-- What the defaults have and no accepted value takes away. -/
theorem merge_induction {P : Settings → Prop} (start : P default)
    (kept : ∀ s field value next, P s → s.set? field value = some next → P next)
    (entries : List (Value × Value)) : P (merge entries).settings := by
  have taken : ∀ m : Merged, P m.settings → P (entries.foldl Merged.take m).settings := by
    induction entries with
    | nil => exact fun _ holds => holds
    | cons entry rest ih =>
      refine fun m holds => ih (m.take entry) ?_
      unfold Merged.take
      split
      · exact holds
      · split
        next next accepted => exact kept _ _ _ _ holds accepted
        next => exact holds
  exact taken ⟨default, []⟩ start

theorem merge_of_ofValue (taken : (ofValue (.mapping entries)).1 = .ok s) :
    (merge entries).settings = s := by
  unfold ofValue at taken
  dsimp only at taken
  split at taken
  · exact Except.ok.inj taken
  · cases taken

section Fields

variable {f g : Field} {value : Value} {next : Settings}

/-- A value that is taken over leaves the other settings as they are. -/
theorem get_set?_of_ne (accepted : s.set? f value = some next) (other : g ≠ f) :
    next.get g = s.get g := by
  cases f with
  | minify =>
    cases value <;> cases accepted
    cases g <;> first | exact absurd rfl other | rfl
  | fingerprintAlgorithm =>
    cases value with
    | text name =>
      obtain ⟨_, -, rfl⟩ := Option.map_eq_some_iff.mp accepted
      cases g <;> first | exact absurd rfl other | rfl
    | _ => cases accepted
  | _ =>
    obtain ⟨_, -, rfl⟩ := Option.map_eq_some_iff.mp accepted
    cases g <;> first | exact absurd rfl other | rfl

theorem map_text_injective {texts others : List String}
    (same : texts.map Value.text = others.map Value.text) : texts = others :=
  (List.map_inj_right fun _ _ => Value.text.inj).mp same

theorem sourceExtensions_of_set? (accepted : s.set? f value = some next) :
    next.sourceExtensions = s.sourceExtensions ∨
      extensions? value = some next.sourceExtensions := by
  by_cases named : f = .sourceExtensions
  · subst named
    obtain ⟨found, read, rfl⟩ := Option.map_eq_some_iff.mp accepted
    exact .inr read
  · exact .inl (map_text_injective (Value.list.inj (get_set?_of_ne accepted (Ne.symm named))))

/-- The extensions that settings have are those of a value that was accepted. -/
theorem exists_extensions? (taken : (ofValue (.mapping entries)).1 = .ok s) :
    ∃ value, extensions? value = some s.sourceExtensions := by
  rw [← merge_of_ofValue taken]
  refine merge_induction (P := fun s => ∃ value, extensions? value = some s.sourceExtensions)
    ⟨.list [.text ".js"], by decide⟩ ?_ entries
  rintro s field value next ⟨before, read⟩ accepted
  rcases sourceExtensions_of_set? accepted with same | read'
  · exact ⟨before, same ▸ read⟩
  · exact ⟨value, read'⟩

/-- Accepted extensions are some, and each is a dot with more behind it. -/
theorem extensions?_spec {value : Value} {found : List String}
    (read : extensions? value = some found) :
    found ≠ [] ∧ ∀ e ∈ found, ∃ rest, rest ≠ [] ∧ e.toList = '.' :: rest := by
  unfold extensions? at read
  obtain ⟨texts, -, guarded⟩ := Option.bind_eq_some_iff.mp read
  obtain ⟨_, passed, same⟩ := Option.bind_eq_some_iff.mp guarded
  cases same
  rw [Option.guard_eq_some', Bool.and_eq_true, Bool.not_eq_true', List.isEmpty_eq_false_iff,
    List.all_eq_true] at passed
  refine ⟨passed.1, fun e member => ?_⟩
  have extension := passed.2 e member
  simp only [isExtension, Bool.and_eq_true, beq_iff_eq, decide_eq_true_eq] at extension
  obtain ⟨rest, chars⟩ := List.head?_eq_some_iff.mp extension.1
  refine ⟨rest, ?_, chars⟩
  rintro rfl
  have length := extension.2
  rw [← String.length_toList, chars] at length
  exact absurd length (by decide)

end Fields

end ModuleBundler.Settings
