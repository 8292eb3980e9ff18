import ModuleBundler.Proofs.Source.Steps

/-! What a single attempt to read finds. With or without faults, an attempt that
succeeds finds the text that the files give under the limit of the reader; without
faults it succeeds whenever they give one. -/
namespace ModuleBundler.Source

theorem bind_apply {σ α β : Type} (x : StateM σ α) (f : α → StateM σ β) (s : σ) :
    (x >>= f) s = f (x s).1 (x s).2 := rfl

/-- What stands at a path, as a look without faults shows it. -/
def Disk.look (d : Disk) (path : String) : Except LookError Entry :=
  if path.toList.contains '\x00' then .error .nullByte else (d.find path).mapError .system

/-- The text of a file under the limit of a reader. -/
def Reader.textOn? (r : Reader) (d : Disk) (path : String) : Option String :=
  match d.look (Path.Parts.ofString path).toString, d.look path with
  | .ok entry, .ok (.file content) =>
    if r.sizeLimit < entry.size then none else some (Text.decode content)
  | _, _ => none

variable {h : Host} {r : Reader} {path text : String}

theorem look_of_ok {entry : Entry} (seen : (Host.look path h).1 = .ok entry) :
    h.disk.look path = .ok entry := by
  obtain ⟨disk, faults, clock, wallClock, visits, pauses, journal⟩ := h
  rcases faults with - | ⟨- | fault, rest⟩
  · exact seen
  · exact seen
  · cases seen

theorem look_of_calm (calm : h.faults = []) : Host.look path h = (h.disk.look path, h) := by
  cases h
  cases calm
  rfl

theorem disk_look (path : String) (h : Host) : (Host.look path h).2.disk = h.disk :=
  (look_keepsFiles path h).disk

theorem openFile_of_ok {content : ByteArray} (opened : (Host.openFile path h).1 = .ok content) :
    h.disk.look path = .ok (.file content) := by
  rw [Host.openFile, bind_apply] at opened
  cases seen : (Host.look path h).1 with
  | error e =>
    rw [seen] at opened
    cases opened
  | ok entry =>
    rw [seen] at opened
    cases entry with
    | folder => cases opened
    | file found =>
      cases opened
      exact look_of_ok seen

theorem openFile_of_calm (calm : h.faults = []) {content : ByteArray}
    (present : h.disk.look path = .ok (.file content)) : Host.openFile path h = (.ok content, h) := by
  rw [Host.openFile, bind_apply, look_of_calm calm, present]
  rfl

/-- An attempt that succeeds has met no fault. -/
theorem textOn?_of_readOnce (read : (r.readOnce path h).1 = .ok text) :
    r.textOn? h.disk path = some text := by
  rw [Reader.readOnce, bind_apply] at read
  cases seen : (Host.look (Path.Parts.ofString path).toString h).1 with
  | error e =>
    rw [seen] at read
    cases read
  | ok entry =>
    rw [seen] at read
    dsimp only at read
    have size := look_of_ok seen
    split at read
    next => cases read
    next fits =>
      rw [bind_apply] at read
      cases opened : (Host.openFile path
          (Host.look (Path.Parts.ofString path).toString h).2).1 with
      | error e =>
        rw [opened] at read
        cases read
      | ok content =>
        rw [opened] at read
        dsimp only at read
        have found := openFile_of_ok opened
        rw [disk_look] at found
        rw [Reader.textOn?, size, found]
        dsimp only
        rw [if_neg fits]
        cases decoded : Text.decodeUtf8? content with
        | some valid =>
          rw [decoded] at read
          cases read
          simp [Text.decode, decoded]
        | none =>
          rw [decoded] at read
          dsimp only at read
          rw [bind_apply, bind_apply] at read
          generalize reported : (Host.report _ _).2 = k at read
          have files : k.disk = h.disk := by
            rw [← reported]
            exact (keepsFiles.openFile path _).disk.trans (disk_look _ h)
          cases reopened : (Host.openFile path k).1 with
          | error e =>
            rw [reopened] at read
            cases read
          | ok again =>
            rw [reopened] at read
            cases read
            -- The second look meets the same file.
            have same := openFile_of_ok reopened
            rw [files, found] at same
            cases same
            simp [Text.decode, decoded]

/-- Without faults an attempt succeeds where there is a text. -/
theorem readOnce_of_calm (calm : h.faults = []) (readable : r.textOn? h.disk path = some text) :
    (r.readOnce path h).1 = .ok text := by
  unfold Reader.textOn? at readable
  split at readable
  next entry content size found =>
    split at readable
    next => cases readable
    next fits =>
      rw [Reader.readOnce, bind_apply, look_of_calm calm, size]
      dsimp only
      rw [if_neg fits, bind_apply, openFile_of_calm calm found]
      dsimp only
      cases decoded : Text.decodeUtf8? content with
      | some valid =>
        simp only [Text.decode, decoded, Option.getD_some, Option.some.injEq] at readable
        rw [← readable]
        rfl
      | none =>
        simp only [Text.decode, decoded, Option.getD_none, Option.some.injEq] at readable
        dsimp only
        rw [bind_apply, bind_apply]
        generalize reported : (Host.report _ h).2 = k
        have same : k.faults = h.faults ∧ k.disk = h.disk := by
          rw [← reported]
          exact ⟨rfl, rfl⟩
        rw [openFile_of_calm (same.1.trans calm) (same.2 ▸ found), ← readable]
        rfl
  next => cases readable

section Perform

variable {reading : Reading}

/-- A reading that is done has found the text of its file. -/
theorem textOn?_of_perform (done : (reading.perform r h).1 = .done text) :
    r.textOn? h.disk reading.path = some text := by
  rw [Reading.perform, bind_apply] at done
  cases read : (r.readOnce reading.path h).1 with
  | ok found =>
    rw [read] at done
    cases done
    exact textOn?_of_readOnce read
  | error e =>
    rw [read] at done
    dsimp only at done
    split at done
    next => cases done
    next =>
      split at done
      next =>
        rw [bind_apply] at done
        split at done <;> cases done
      next => cases done

theorem perform_of_calm (calm : h.faults = []) (readable : r.textOn? h.disk reading.path = some text) :
    (reading.perform r h).1 = .done text := by
  rw [Reading.perform, bind_apply, readOnce_of_calm calm readable]
  rfl

/-- A further attempt is made on the same path. -/
theorem path_of_perform {next : Reading} {fewer : next.left < reading.left}
    (again : (reading.perform r h).1 = .again next fewer) : next.path = reading.path := by
  rw [Reading.perform, bind_apply] at again
  cases read : (r.readOnce reading.path h).1 with
  | ok found =>
    rw [read] at again
    cases again
  | error e =>
    rw [read] at again
    dsimp only at again
    split at again
    next => cases again
    next =>
      split at again
      next =>
        rw [bind_apply] at again
        split at again
        next =>
          cases again
          rfl
        next => cases again
      next => cases again

theorem textOn?_of_finish (done : (reading.finish r h).1 = .ok text) :
    r.textOn? h.disk reading.path = some text := by
  induction left : reading.left using Nat.strongRecOn generalizing reading h with
  | ind n ih =>
    rw [Reading.finish, bind_apply] at done
    cases outcome : (reading.perform r h).1 with
    | done found =>
      rw [outcome] at done
      cases done
      exact textOn?_of_perform outcome
    | failed e =>
      rw [outcome] at done
      cases done
    | again next fewer =>
      rw [outcome] at done
      have found := ih next.left (left ▸ fewer) done rfl
      rwa [path_of_perform outcome, (keepsFiles.perform r reading h).disk] at found

end Perform

/-- A reading that succeeds, after however many attempts, finds the text of its file. -/
theorem textOn?_of_readText (read : (r.readText path h).1 = .ok text) :
    r.textOn? h.disk path = some text := by
  rw [Reader.readText, bind_apply] at read
  have found := textOn?_of_finish read
  exact found

theorem readText_of_calm (calm : h.faults = []) (readable : r.textOn? h.disk path = some text) :
    (r.readText path h).1 = .ok text := by
  rw [Reader.readText, bind_apply, Reading.finish, bind_apply]
  have done : ((Reading.begin r path h).1.perform r (Reading.begin r path h).2).1 = .done text :=
    perform_of_calm calm readable
  rw [done]
  rfl
end ModuleBundler.Source
