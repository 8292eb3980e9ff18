import ModuleBundler.Proofs.Settings.Constraints
import ModuleBundler.Proofs.Source.Attempt
import ModuleBundler.Proofs.Yaml.Value

/-! Settings from a file that is there, whatever loads documents. A document that is a mapping
gives the settings that its entries give, and any other document and any malformed text
gives the defaults. What a loader is told of bytes that are no text is no flaw of a
document, and stops the reading: of a file in UTF-8 a loader is told no such thing, but
of any other file it may be. -/
namespace ModuleBundler.Settings

open Source

variable {ε : Type} {loader : Loader ε} {path : String} {h : Host} {entry : Entry}
  {content : ByteArray} {entries : List (Value × Value)}

theorem load_of_open (loader : Loader ε) (seen : (Host.look path h).1 = .ok entry)
    (opened : (Host.openFile path (Host.look path h).2).1 = .ok content) :
    ∃ k, (load loader path h).1 = (ofContent loader path content k).1 := by
  have exist : fileExists path h = (.ok true, (Host.look path h).2) := by
    rw [fileExists, bind_apply, seen]
    rfl
  refine ⟨(Host.openFile path (Host.look path h).2).2, ?_⟩
  rw [load, bind_apply, exist]
  dsimp only
  rw [bind_apply, opened]

/-- What is made of a file that is read, by what its loader comes to. -/
def answerTo : Except (LoadFailure ε) Value → Except (FileError ε) Settings
  | .ok (.mapping entries) => (ofValue (.mapping entries)).1.mapError .refused
  | .ok _ => .ok default
  | .error (.malformed _) => .ok default
  | .error .undecodable => .error .undecodable
  | .error (.other e) => .error (.loader e)

theorem answerTo_document {v : Value} (other : ∀ entries, v ≠ .mapping entries) :
    answerTo (.ok v : Except (LoadFailure ε) Value) = .ok default := by
  cases v with
  | mapping entries => exact absurd rfl (other entries)
  | _ => rfl

theorem ofDocument_answer (v : Value) (h : Host) :
    (ofDocument v h).1 = answerTo (.ok v : Except (LoadFailure ε) Value) := by
  cases v <;> rfl

theorem ofContent_answer (loader : Loader ε) (path : String) (content : ByteArray) (h : Host) :
    (ofContent loader path content h).1 = answerTo (loader content) := by
  unfold ofContent
  rcases loader content with (reason | - | e) | v
  · rfl
  · rfl
  · rfl
  · exact ofDocument_answer v h

/-- The surroundings decide on nothing but the content of the file. -/
theorem load_answer (loader : Loader ε) (seen : (Host.look path h).1 = .ok entry)
    (opened : (Host.openFile path (Host.look path h).2).1 = .ok content) :
    (load loader path h).1 = answerTo (loader content) := by
  obtain ⟨k, read⟩ := load_of_open loader seen opened
  exact read.trans (ofContent_answer loader path content k)

/-- Entries without a number too long to be shown give settings. -/
theorem exists_ofValue (short : (Value.mapping entries).hasHuge = false) :
    ∃ s, (ofValue (.mapping entries)).1 = .ok s := by
  obtain ⟨drawn, draws, complaints⟩ := foldl_take_draws entries ⟨default, []⟩
  exact ⟨_, congrArg Prod.fst (ofValue_of_short complaints (short_of_draws draws short))⟩

theorem answerTo_eq_undecodable {found : Except (LoadFailure ε) Value} :
    answerTo found = .error .undecodable ↔ found = .error .undecodable := by
  rcases found with (reason | - | e) | v
  · exact iff_of_false nofun nofun
  · exact iff_of_true rfl rfl
  · exact iff_of_false nofun nofun
  · refine iff_of_false (fun same => ?_) nofun
    by_cases mapping : ∃ entries, v = .mapping entries
    · obtain ⟨entries, rfl⟩ := mapping
      rw [answerTo] at same
      cases made : (ofValue (.mapping entries)).1 <;> rw [made] at same <;> cases same
    · rw [answerTo_document (not_exists.mp mapping)] at same
      cases same

/-- With the loader of the program, a file in UTF-8 never fails as no text, and any other file gives
no settings but the defaults. -/
theorem load_yaml (seen : (Host.look path h).1 = .ok entry)
    (opened : (Host.openFile path (Host.look path h).2).1 = .ok content) :
    (content.IsValidUTF8 → (load Yaml.loader path h).1 ≠ .error .undecodable) ∧
      (¬ content.IsValidUTF8 → ∀ s, (load Yaml.loader path h).1 = .ok s → s = default) := by
  rw [load_answer Yaml.loader seen opened]
  refine ⟨fun valid => mt answerTo_eq_undecodable.mp (Yaml.loader_of_valid valid),
    fun invalid s read => ?_⟩
  have valueless := Yaml.loader_of_invalid invalid
  generalize Yaml.loader content = found at read valueless
  rcases found with (reason | - | e) | v
  · exact (Except.ok.inj read).symm
  · cases read
  · cases read
  · exact absurd rfl (valueless v)

/-- What becomes of a settings file that is there and can be opened, whatever loads documents. A
mapping gives what its entries give, which is settings unless a number in it is too long to be
shown; any other value and a malformed text give the defaults. What the loader is told of bytes that
are no text, and whatever else it may raise, is passed on. So if it makes a value of every text
or finds it malformed, a file in UTF-8 is a mapping or gives the defaults. -/
theorem load_outcome (loader : Loader ε) (seen : (Host.look path h).1 = .ok entry)
    (opened : (Host.openFile path (Host.look path h).2).1 = .ok content)
    (usual : content.IsValidUTF8 →
      (∃ v, loader content = .ok v) ∨ ∃ reason, loader content = .error (.malformed reason)) :
    let answer := (load loader path h).1
    (∀ entries, loader content = .ok (.mapping entries) →
      answer = (ofValue (.mapping entries)).1.mapError .refused ∧
      ((Value.mapping entries).hasHuge = false → ∃ s, answer = .ok s)) ∧
    (∀ v, loader content = .ok v → (∀ entries, v ≠ .mapping entries) → answer = .ok default) ∧
    (∀ reason, loader content = .error (.malformed reason) → answer = .ok default) ∧
    (answer = .error .undecodable ↔ loader content = .error .undecodable) ∧
    (∀ e, loader content = .error (.other e) → answer = .error (.loader e)) ∧
    (content.IsValidUTF8 →
      (∃ entries, loader content = .ok (.mapping entries)) ∨ answer = .ok default) := by
  intro answer
  have told : answer = answerTo (loader content) := load_answer loader seen opened
  clear_value answer
  subst told
  refine ⟨?_, ?_, ?_, answerTo_eq_undecodable, ?_, fun valid => ?_⟩
  · intro entries made
    rw [made]
    refine ⟨rfl, fun short => ?_⟩
    obtain ⟨s, taken⟩ := exists_ofValue short
    exact ⟨s, congrArg (Except.mapError FileError.refused) taken⟩
  · intro v made other
    rw [made, answerTo_document other]
  · intro reason malformed
    rw [malformed, answerTo]
  · intro e raised
    rw [raised, answerTo]
  · rcases usual valid with ⟨v, made⟩ | ⟨reason, malformed⟩
    · by_cases mapping : ∃ entries, v = .mapping entries
      · obtain ⟨entries, rfl⟩ := mapping
        exact .inl ⟨entries, made⟩
      · exact .inr (made ▸ answerTo_document (not_exists.mp mapping))
    · exact .inr (malformed ▸ rfl)

/-- A file with one entry gives the settings of this entry. -/
theorem load_outcome_entry :
    let content := "minify: no".toUTF8
    let h := Host.ofDisk (Disk.empty.put "/a.yml" (.file content))
    (Host.look "/a.yml" h).1 = .ok (.file content) ∧
      (Host.openFile "/a.yml" (Host.look "/a.yml" h).2).1 = .ok content ∧
      (content.IsValidUTF8 → (∃ v, Yaml.loader content = .ok v) ∨
        ∃ reason, Yaml.loader content = .error (.malformed reason)) ∧
      ∃ entries s, Yaml.loader content = .ok (.mapping entries) ∧
        (ofValue (.mapping entries)).1 = .ok s ∧ (load Yaml.loader "/a.yml" h).1 = .ok s ∧
        s.minify = false := by
  intro content h
  have seen : (Host.look "/a.yml" h).1 = .ok (.file content) := rfl
  have opened : (Host.openFile "/a.yml" (Host.look "/a.yml" h).2).1 = .ok content := rfl
  have whole : (Yaml.loader content).isOk = true := by decide +kernel
  have read : (load Yaml.loader "/a.yml" h).1.toOption.map (·.minify) = some false := by
    decide +kernel
  have usual : content.IsValidUTF8 → (∃ v, Yaml.loader content = .ok v) ∨
      ∃ reason, Yaml.loader content = .error (.malformed reason) := by
    intro _
    cases made : Yaml.loader content with
    | ok v => exact .inl ⟨v, rfl⟩
    | error cause =>
      rw [made] at whole
      cases whole
  obtain ⟨mapped, -, -, -, -, outcome⟩ := load_outcome Yaml.loader seen opened usual
  rcases outcome (Text.isValid_toUTF8 _) with ⟨entries, found⟩ | fallen
  · obtain ⟨answer, -⟩ := mapped entries found
    cases made : (ofValue (.mapping entries)).1 with
    | ok s =>
      rw [made] at answer
      rw [answer] at read
      exact ⟨seen, opened, usual, entries, s, found, made, answer, Option.some.inj read⟩
    | error r =>
      rw [made] at answer
      rw [answer] at read
      cases read
  · rw [fallen] at read
    cases read

/-- The law that a settings file that is there always gives settings is false: a byte of no
character makes the reading fail. -/
theorem load_fails_at_stray_byte :
    ¬ ∀ (path : String) (h : Host) (entry : Entry) (content : ByteArray),
      (Host.look path h).1 = .ok entry →
      (Host.openFile path (Host.look path h).2).1 = .ok content →
      (content.IsValidUTF8 → (∃ v, Yaml.loader content = .ok v) ∨
        ∃ reason, Yaml.loader content = .error (.malformed reason)) →
      ∃ s, (load Yaml.loader path h).1 = .ok s := by
  intro law
  let content : ByteArray := ⟨#[0xFF]⟩
  have portions : Text.readPortions Yaml.Input.portionSize content = ([], false) := by
    decide +kernel
  have failed : Yaml.loader content = .error .undecodable := by
    unfold Yaml.loader Yaml.Input.ofContent
    rw [portions]
    rfl
  have stray : ¬ content.IsValidUTF8 := fun valid => Yaml.loader_of_valid valid failed
  let h := Host.ofDisk (Disk.empty.put "/a.yml" (.file content))
  have seen : (Host.look "/a.yml" h).1 = .ok (.file content) := rfl
  have opened : (Host.openFile "/a.yml" (Host.look "/a.yml" h).2).1 = .ok content := rfl
  obtain ⟨s, read⟩ := law "/a.yml" h _ content seen opened fun valid => absurd valid stray
  rw [load_answer Yaml.loader seen opened, failed] at read
  cases read

end ModuleBundler.Settings
