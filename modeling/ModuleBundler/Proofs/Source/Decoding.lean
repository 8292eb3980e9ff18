import ModuleBundler.Proofs.Source.Backoff
import ModuleBundler.Proofs.Source.Files
import ModuleBundler.Proofs.Text.Encoding

/-! The text of a file. The bytes alone decide it: those that encode some text in UTF-8
give this text, and all others give one character each. Either way the whole content is
read in one way and its line ends become line feeds. A file within the size limit is read
at the first attempt, and one beyond it is refused at the first. -/
namespace ModuleBundler.Source

section Text

open Text

variable {content : ByteArray} {s : String}

/-- Strict UTF-8 accepts what some text is encoded as, and no other bytes. -/
theorem fromUTF8?_eq_none (none : ∀ s : String, content ≠ s.toUTF8) :
    String.fromUTF8? content = .none :=
  Option.eq_none_iff_forall_ne_some.mpr fun s found => none s (fromUTF8?_eq_some_iff.mp found)

theorem decodeUtf8?_toUTF8 (s : String) :
    decodeUtf8? s.toUTF8 = some (String.ofList (unifyLineEnds s.toList)) := by
  rw [decodeUtf8?, fromUTF8?_eq_some_iff.mpr rfl]
  rfl

theorem decode_toUTF8 (s : String) : decode s.toUTF8 = String.ofList (unifyLineEnds s.toList) := by
  rw [decode, decodeUtf8?_toUTF8]
  rfl

theorem decode_of_invalid (none : ∀ s : String, content ≠ s.toUTF8) :
    decode content =
      String.ofList (unifyLineEnds (content.toList.map fun b => Char.ofNat b.toNat)) := by
  rw [decode, decodeUtf8?, fromUTF8?_eq_none none]
  rfl

theorem not_mem_decode (content : ByteArray) : '\r' ∉ (decode content).toList := by
  by_cases valid : ∃ s : String, content = s.toUTF8
  · obtain ⟨s, rfl⟩ := valid
    rw [decode_toUTF8, String.toList_ofList]
    exact not_mem_unifyLineEnds _
  · rw [decode_of_invalid (not_exists.mp valid), String.toList_ofList]
    exact not_mem_unifyLineEnds _

end Text

variable {r : Reader} {path : String} {content : ByteArray} {h : Host}

theorem lookAmid_calm (d : Disk) (path : String) : d.lookAmid path [] = d.look path := rfl

theorem openAmid_calm {d : Disk} (stands : d.look path = .ok (.file content)) :
    d.openAmid path [] = .ok content := by
  rw [Disk.openAmid, lookAmid_calm, stands]

/-- Without faults an attempt within the limit comes to the text of the content. -/
theorem attempt_within {d : Disk} (stands : d.look path = .ok (.file content))
    (fits : (content.size : Int) ≤ r.sizeLimit) :
    Attempt r d path [] (.ok (Text.decode content)) [] := by
  have size : d.lookAmid (place path) [] = .ok (.file content) := look_toString stands
  have opened := openAmid_calm stands
  rw [Text.decode]
  cases decoded : Text.decodeUtf8? content with
  | some text => exact .strict size fits opened decoded
  | none => exact .single size fits opened decoded opened

/-- An attempt that is not transient is the only one. -/
theorem readText_of_decided {outcome : Except ReadError String} (calm : h.faults = [])
    (attempt : Attempt r h.disk path [] outcome []) (decided : ¬ Transient outcome) :
    ∃ journal, r.readText path h = (outcome, h.tried path 1 [] [] journal) := by
  let begun : Host := { h with visits := h.visits ++ [place path] }
  have here : Attempt r begun.disk path begun.faults outcome [] := by
    rw [show begun.faults = [] from calm]
    exact attempt
  let reading : Reading := ⟨path, 0, r.attempts - 1⟩
  obtain ⟨journal, ended⟩ : ∃ journal, reading.finish r begun =
      (outcome, { begun with faults := [], journal := journal }) :=
    finish_of_decided here fun again => absurd again decided
  refine ⟨journal, (Eq.trans rfl ended).trans ?_⟩
  simp [Host.tried, begun]

/-- A file that stands where nothing goes wrong is read at the first attempt, whatever its bytes, if
it is within the limit. Bytes that encode a text give this text and all others give a character
for each byte, with unified line ends in both cases; so a text without carriage returns is
read as it was written. A file beyond the limit is refused at the first attempt. -/
theorem readText_decodes (calm : h.faults = []) (stands : h.disk.look path = .ok (.file content)) :
    ((content.size : Int) ≤ r.sizeLimit → ∃ text journal,
      r.readText path h = (.ok text, h.tried path 1 [] [] journal) ∧
      (∀ s : String, content = s.toUTF8 → text.toList = Text.unifyLineEnds s.toList) ∧
      ((∀ s : String, content ≠ s.toUTF8) →
        text.toList = Text.unifyLineEnds (content.toList.map fun b => Char.ofNat b.toNat)) ∧
      '\r' ∉ text.toList ∧
      ∀ s : String, content = s.toUTF8 → '\r' ∉ s.toList → text = s) ∧
    (r.sizeLimit < content.size → ∃ journal, r.readText path h =
      (.error (.tooLarge path content.size r.sizeLimit), h.tried path 1 [] [] journal)) := by
  refine ⟨fun fits => ?_, fun large => ?_⟩
  · obtain ⟨journal, read⟩ := readText_of_decided calm (attempt_within stands fits) id
    refine ⟨Text.decode content, journal, read, ?_, ?_, not_mem_decode content, ?_⟩
    · rintro s rfl
      rw [decode_toUTF8, String.toList_ofList]
    · intro none
      rw [decode_of_invalid none, String.toList_ofList]
    · rintro s rfl clean
      rw [decode_toUTF8, Text.unifyLineEnds_of_not_mem clean, String.ofList_toList]
  · have size : h.disk.lookAmid (place path) [] = .ok (.file content) := look_toString stands
    have refused : Attempt r h.disk path []
        (.error (.tooLarge path content.size r.sizeLimit)) [] := .tooLarge size large
    refine readText_of_decided calm refused fun again => ?_
    rw [transient_error] at again
    cases again

/-- A text that breaks off within a character is read byte by byte, its line ends and all. -/
theorem readText_decodes_truncated :
    let content : ByteArray := ⟨#[0x61, 0x0D, 0x0A, 0xC3, 0xA9, 0x0D, 0xE2, 0x82]⟩
    let r := Reader.withLimits 3 8
    let h := Host.ofDisk (Disk.empty.put "/p/a.js" (.file content))
    (content.size : Int) ≤ r.sizeLimit ∧ (∀ s : String, content ≠ s.toUTF8) ∧
      ∃ text journal, r.readText "/p//./a.js" h = (.ok text, h.tried "/p/a.js" 1 [] [] journal) ∧
        text = "a\nÃ©\nâ\x82" := by
  intro content r h
  have invalid : ∀ s : String, content ≠ s.toUTF8 := by
    intro s same
    have decoded := Text.fromUTF8?_eq_some_iff.mpr same
    have refused : (String.fromUTF8? content).isNone = true := by decide +kernel
    rw [decoded] at refused
    cases refused
  have stands : h.disk.look "/p//./a.js" = .ok (.file content) := by
    have present : h.disk.entries.get? (Disk.key "/p/a.js") = some (.file content) :=
      Table.get?_insert_self _ _ _
    have found : h.disk.find "/p/a.js" = .ok (.file content) := by
      rw [Disk.find, present]
    have key : Disk.key "/p//./a.js" = Disk.key "/p/a.js" := by decide +kernel
    rw [Disk.look, if_neg (by decide +kernel), find_of_key key found]
    rfl
  have fits : (content.size : Int) ≤ r.sizeLimit := by decide
  obtain ⟨text, journal, read, -, bytes, -⟩ := (readText_decodes (r := r) rfl stands).1 fits
  have here : place "/p//./a.js" = place "/p/a.js" := by decide +kernel
  refine ⟨fits, invalid, text, journal, ?_, ?_⟩
  · rw [read, Host.tried, here]
    rfl
  · apply String.toList_injective
    rw [bytes invalid]
    decide +kernel

end ModuleBundler.Source
