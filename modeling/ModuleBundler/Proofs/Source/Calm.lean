import ModuleBundler.Proofs.Path.Parts
import ModuleBundler.Proofs.Source.Attempt

/-! Steps on a host without faults. The files alone decide what such a step answers and
which attempts to read it begins; these are put behind those begun before. So a step
can be tried on a host that has the files and nothing else. -/
namespace ModuleBundler.Source

open ModuleBundler.Path

/-- On hosts without faults that have these files, a step answers the same and begins the same
attempts to read. -/
structure Settles {α : Type} (step : StateM Host α) (d : Disk) (answer : α) (visits : List String) :
    Prop where
  answer : ∀ h : Host, h.faults = [] → h.disk = d → (step h).1 = answer
  visits : ∀ h : Host, h.faults = [] → h.disk = d → (step h).2.visits = h.visits ++ visits

/-- A step that changes no file and, without faults, has everything from the files. -/
structure Settled {α : Type} (step : StateM Host α) : Prop where
  keeps : KeepsFiles step
  settles : ∀ d, ∃ answer visits, Settles step d answer visits

theorem settled : Compositional Settled where
  pure a := ⟨keepsFiles.pure a, fun _ => ⟨a, [], fun _ _ _ => rfl, fun h _ _ => by simp; rfl⟩⟩
  look path := by
    refine ⟨look_keepsFiles path, fun d => ⟨d.look path, [], ?_, ?_⟩⟩ <;> rintro h calm rfl
    · rw [look_of_calm calm]
    · rw [look_of_calm calm, List.append_nil]
  report entry := ⟨keepsFiles.report entry, fun _ =>
    ⟨(), [], fun _ _ _ => rfl, fun h _ _ => (List.append_nil h.visits).symm⟩⟩
  visit path := ⟨keepsFiles.visit path, fun _ =>
    ⟨(), [path], fun _ _ _ => rfl, fun _ _ _ => rfl⟩⟩
  pause seconds := ⟨keepsFiles.pause seconds, fun _ =>
    ⟨(), [], fun _ _ _ => rfl, fun h _ _ => (List.append_nil h.visits).symm⟩⟩
  bind {α β x f} first rest := by
    refine ⟨keepsFiles.bind first.keeps fun a => (rest a).keeps, fun d => ?_⟩
    obtain ⟨a, begun, here⟩ := first.settles d
    obtain ⟨b, later, there⟩ := (rest a).settles d
    refine ⟨b, begun ++ later, ?_, ?_⟩ <;> intro h calm files <;>
      rw [bind_apply, here.answer h calm files]
    · exact there.answer _ ((first.keeps h).calm calm) ((first.keeps h).disk.trans files)
    · rw [there.visits _ ((first.keeps h).calm calm) ((first.keeps h).disk.trans files),
        here.visits h calm files, List.append_assoc]

section Trial

variable {α : Type} {step : StateM Host α} {h : Host} {d : Disk} {r : Reader} {path text : String}

theorem Settled.answer (settled : Settled step) (calm : h.faults = []) :
    (step h).1 = (step (Host.ofDisk h.disk)).1 := by
  obtain ⟨answer, visits, settles⟩ := settled.settles h.disk
  rw [settles.answer h calm rfl, settles.answer (Host.ofDisk h.disk) rfl rfl]

theorem Settled.visits (settled : Settled step) (calm : h.faults = []) :
    (step h).2.visits = h.visits ++ (step (Host.ofDisk h.disk)).2.visits := by
  obtain ⟨answer, visits, settles⟩ := settled.settles h.disk
  rw [settles.visits h calm rfl, settles.visits (Host.ofDisk h.disk) rfl rfl]
  rfl

theorem readText_settled (r : Reader) (path : String) : Settled (r.readText path) :=
  settled.readText r path

theorem visits_openFile (path : String) (h : Host) :
    (Host.openFile path h).2.visits = h.visits := by
  rw [Host.openFile, bind_apply]
  rcases (Host.look path h).1 with e | (content | ⟨⟩) <;> rfl

/-- One attempt begins no other. -/
theorem visits_readOnce (r : Reader) (path : String) (h : Host) :
    (r.readOnce path h).2.visits = h.visits := by
  rw [Reader.readOnce, bind_apply]
  cases (Host.look (Parts.ofString path).toString h).1 with
  | error e => rfl
  | ok entry =>
    dsimp only
    split
    next => rfl
    next =>
      rw [bind_apply]
      cases (Host.openFile path (Host.look (Parts.ofString path).toString h).2).1 with
      | error e => exact visits_openFile path _
      | ok content =>
        dsimp only
        cases Text.decodeUtf8? content with
        | some valid => exact visits_openFile path _
        | none =>
          dsimp only
          rw [bind_apply, bind_apply]
          generalize reported : (Host.report _ _).2 = k
          have same : k.visits = h.visits := by
            rw [← reported]
            exact visits_openFile path _
          cases (Host.openFile path k).1 with
          | error e => exact (visits_openFile path k).trans same
          | ok again => exact (visits_openFile path k).trans same

/-- Without faults, a file that has a text is read at the first attempt. -/
theorem visits_readText (normal : IsNormal path) (calm : h.faults = [])
    (readable : r.textOn? h.disk path = some text) :
    (r.readText path h).2.visits = h.visits ++ [path] := by
  have begun : (Reading.begin r path h).2.visits = h.visits ++ [path] := by
    rw [← congrArg (h.visits ++ [·]) normal.toString_parts]
    rfl
  have attempt : ((Reading.begin r path h).1.perform r (Reading.begin r path h).2).2.visits =
      h.visits ++ [path] := by
    rw [Reading.perform, bind_apply]
    have read := readOnce_of_calm (h := (Reading.begin r path h).2) calm readable
    have same : (Reading.begin r path h).1.path = path := rfl
    rw [same, read]
    exact (visits_readOnce r path _).trans begun
  have done : ((Reading.begin r path h).1.perform r (Reading.begin r path h).2).1 = .done text :=
    perform_of_calm calm readable
  rw [Reader.readText, bind_apply, Reading.finish, bind_apply, done]
  exact attempt

/-- Without faults, reading a file that has no text fails as it does on its own. -/
theorem exists_error_of_readText (absent : r.textOn? d path = none) :
    ∃ e, (r.readText path (Host.ofDisk d)).1 = .error e := by
  cases read : (r.readText path (Host.ofDisk d)).1 with
  | error e => exact ⟨e, rfl⟩
  | ok text =>
    have files : (Host.ofDisk d).disk = d := rfl
    have found := textOn?_of_readText read
    rw [files, absent] at found
    cases found

end Trial

section Attempts

variable {h : Host} {r : Reader}

theorem visits_backOff (path : String) (attempt : Nat) (e : ReadError) (h : Host) :
    (Reader.backOff path attempt e h).2.visits = h.visits := by
  unfold Reader.backOff
  cases Reader.delay? attempt <;> rfl

/-- An attempt begins at most one further attempt, on the same path. -/
theorem visits_perform (r : Reader) (reading : Reading) (h : Host) :
    ∃ n, (reading.perform r h).2.visits =
      h.visits ++ List.replicate n (Parts.ofString reading.path).toString := by
  have read := visits_readOnce r reading.path h
  rw [Reading.perform, bind_apply]
  cases (r.readOnce reading.path h).1 with
  | ok text => exact ⟨0, read.trans (List.append_nil _).symm⟩
  | error e =>
    dsimp only
    split
    next => exact ⟨0, read.trans (List.append_nil _).symm⟩
    next =>
      split
      next =>
        have waited := visits_backOff reading.path reading.attempt e (r.readOnce reading.path h).2
        rw [bind_apply]
        split
        next => exact ⟨1, by rw [← read, ← waited]; rfl⟩
        next => exact ⟨0, (waited.trans read).trans (List.append_nil _).symm⟩
      next => exact ⟨0, read.trans (List.append_nil _).symm⟩

theorem visits_finish (r : Reader) (reading : Reading) (h : Host) :
    ∃ n, (reading.finish r h).2.visits =
      h.visits ++ List.replicate n (Parts.ofString reading.path).toString := by
  induction left : reading.left using Nat.strongRecOn generalizing reading h with
  | ind n ih =>
    obtain ⟨begun, visits⟩ := visits_perform r reading h
    rw [Reading.finish, bind_apply]
    cases outcome : (reading.perform r h).1 with
    | done text => exact ⟨begun, visits⟩
    | failed e => exact ⟨begun, visits⟩
    | again next fewer =>
      obtain ⟨more, later⟩ := ih next.left (left ▸ fewer) next (reading.perform r h).2 rfl
      refine ⟨begun + more, later.trans ?_⟩
      rw [visits, path_of_perform outcome, List.append_assoc, List.replicate_append_replicate]

/-- A reading begins attempts on its own path and on no other, whatever comes of it. -/
theorem exists_visits_readText (r : Reader) {path : String} (normal : IsNormal path) (h : Host) :
    ∃ n, (r.readText path h).2.visits = h.visits ++ List.replicate (n + 1) path := by
  obtain ⟨n, visits⟩ := visits_finish r (Reading.begin r path h).1 (Reading.begin r path h).2
  have begun : (Reading.begin r path h).2.visits = h.visits ++ [path] := by
    rw [← congrArg (h.visits ++ [·]) normal.toString_parts]
    rfl
  have same : (Parts.ofString (Reading.begin r path h).1.path).toString = path :=
    normal.toString_parts
  refine ⟨n, ?_⟩
  rw [Reader.readText, bind_apply, visits, begun, same, List.append_assoc, List.replicate_succ,
    List.singleton_append]

end Attempts
end ModuleBundler.Source
