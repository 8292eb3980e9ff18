import Mathlib.Logic.Function.Iterate
import Mathlib.Tactic.Choose
import ModuleBundler.Proofs.Decimal.Nearest
import ModuleBundler.Proofs.Source.Attempt

/-! Attempts to read one file. The files and the faults that lie in wait decide what each
attempt comes to: it looks at the size first, and at the content once or twice. From
the outcomes of the attempts, taken one after the other, follows where a reading stops,
what it answers, and how long it waits in between. -/
namespace ModuleBundler.Source

/-- What stands at a path, as a look shows it that meets the first of some faults. -/
def Disk.lookAmid (d : Disk) (path : String) : List (Option Fault) → Except LookError Entry
  | some f :: _ => .error (.system ⟨f.number, f.reason, path⟩)
  | _ => d.look path

/-- The content of a file, as a look shows it that meets the first of some faults. -/
def Disk.openAmid (d : Disk) (path : String) (faults : List (Option Fault)) :
    Except LookError ByteArray :=
  match d.lookAmid path faults with
  | .error e => .error e
  | .ok .folder => .error (.system (.isFolder path))
  | .ok (.file content) => .ok content

/-- Where a path is looked at for its size. -/
def place (path : String) : String := (Path.Parts.ofString path).toString

/-- An attempt: what it comes to, and the faults that its looks leave. Its first look is at the
size; further ones are at the content, a second one if that is no strict text. -/
inductive Attempt (r : Reader) (d : Disk) (path : String) (faults : List (Option Fault)) :
    Except ReadError String → List (Option Fault) → Prop where
  | unsized {e} : d.lookAmid (place path) faults = .error e →
      Attempt r d path faults (.error (.look e)) faults.tail
  | tooLarge {entry} : d.lookAmid (place path) faults = .ok entry → r.sizeLimit < entry.size →
      Attempt r d path faults (.error (.tooLarge path entry.size r.sizeLimit)) faults.tail
  | unopened {entry e} : d.lookAmid (place path) faults = .ok entry → entry.size ≤ r.sizeLimit →
      d.openAmid path faults.tail = .error e →
      Attempt r d path faults (.error (.look e)) faults.tail.tail
  | strict {entry content text} : d.lookAmid (place path) faults = .ok entry →
      entry.size ≤ r.sizeLimit → d.openAmid path faults.tail = .ok content →
      Text.decodeUtf8? content = some text → Attempt r d path faults (.ok text) faults.tail.tail
  | unreopened {entry content e} : d.lookAmid (place path) faults = .ok entry →
      entry.size ≤ r.sizeLimit → d.openAmid path faults.tail = .ok content →
      Text.decodeUtf8? content = none → d.openAmid path faults.tail.tail = .error e →
      Attempt r d path faults (.error (.look e)) faults.tail.tail.tail
  | single {entry content again} : d.lookAmid (place path) faults = .ok entry →
      entry.size ≤ r.sizeLimit → d.openAmid path faults.tail = .ok content →
      Text.decodeUtf8? content = none → d.openAmid path faults.tail.tail = .ok again →
      Attempt r d path faults (.ok (Text.decodeSingleByte again)) faults.tail.tail.tail

section Attempt

variable {r : Reader} {d : Disk} {path : String} {faults rest : List (Option Fault)}
  {outcome : Except ReadError String} {h : Host}

theorem look_eq (path : String) (h : Host) :
    Host.look path h = (h.disk.lookAmid path h.faults, { h with faults := h.faults.tail }) := by
  obtain ⟨disk, faults, clock, wallClock, visits, pauses, journal⟩ := h
  rcases faults with - | ⟨- | fault, rest⟩ <;> rfl

theorem openFile_eq (path : String) (h : Host) :
    Host.openFile path h = (h.disk.openAmid path h.faults, { h with faults := h.faults.tail }) := by
  rw [Host.openFile, bind_apply, look_eq, Disk.openAmid]
  rcases h.disk.lookAmid path h.faults with e | (content | ⟨⟩) <;> rfl

theorem exists_attempt (r : Reader) (d : Disk) (path : String) (faults : List (Option Fault)) :
    ∃ outcome rest, Attempt r d path faults outcome rest := by
  cases size : d.lookAmid (place path) faults with
  | error e => exact ⟨_, _, .unsized size⟩
  | ok entry =>
    by_cases large : r.sizeLimit < entry.size
    · exact ⟨_, _, .tooLarge size large⟩
    · have fits := Int.not_lt.mp large
      cases opened : d.openAmid path faults.tail with
      | error e => exact ⟨_, _, .unopened size fits opened⟩
      | ok content =>
        cases decoded : Text.decodeUtf8? content with
        | some text => exact ⟨_, _, .strict size fits opened decoded⟩
        | none =>
          cases reopened : d.openAmid path faults.tail.tail with
          | error e => exact ⟨_, _, .unreopened size fits opened decoded reopened⟩
          | ok again => exact ⟨_, _, .single size fits opened decoded reopened⟩

/-- Either the size allows the content to be looked at, or the first look was the last. -/
theorem Attempt.size_first (attempt : Attempt r d path faults outcome rest) :
    (∃ entry, d.lookAmid (place path) faults = .ok entry ∧ entry.size ≤ r.sizeLimit) ∨
      (∃ e, outcome = .error e) ∧ rest = faults.tail := by
  cases attempt with
  | unsized => exact .inr ⟨⟨_, rfl⟩, rfl⟩
  | tooLarge => exact .inr ⟨⟨_, rfl⟩, rfl⟩
  | unopened size fits => exact .inl ⟨_, size, fits⟩
  | strict size fits => exact .inl ⟨_, size, fits⟩
  | unreopened size fits => exact .inl ⟨_, size, fits⟩
  | single size fits => exact .inl ⟨_, size, fits⟩

theorem report_apply (entry : Log.Entry) (h : Host) :
    Host.report entry h = ((), { h with journal := h.journal ++ [entry] }) := rfl

/-- A content that is no strict text is looked at once more, and then every byte is a character. -/
theorem readOnce_of_undecoded {entry : Entry} {content : ByteArray}
    (size : h.disk.lookAmid (place path) h.faults = .ok entry) (fits : entry.size ≤ r.sizeLimit)
    (opened : h.disk.openAmid path h.faults.tail = .ok content)
    (decoded : Text.decodeUtf8? content = none) :
    ∃ journal, r.readOnce path h =
      (((h.disk.openAmid path h.faults.tail.tail).map Text.decodeSingleByte).mapError .look,
        { h with faults := h.faults.tail.tail.tail, journal := journal }) := by
  rw [Reader.readOnce, ← place, bind_apply, look_eq, size]
  dsimp only
  rw [if_neg (Int.not_lt.mpr fits), bind_apply, openFile_eq, opened]
  dsimp only
  rw [decoded]
  dsimp only
  rw [bind_apply, report_apply, bind_apply, openFile_eq]
  cases h.disk.openAmid path h.faults.tail.tail with
  | error e => exact ⟨_, rfl⟩
  | ok again => exact ⟨_, rfl⟩

/-- An attempt as the reader makes it; besides, it may report. -/
theorem Attempt.readOnce_eq (attempt : Attempt r h.disk path h.faults outcome rest) :
    ∃ journal, r.readOnce path h = (outcome, { h with faults := rest, journal := journal }) := by
  cases attempt with
  | unsized size =>
    refine ⟨h.journal, ?_⟩
    rw [Reader.readOnce, ← place, bind_apply, look_eq, size]
    rfl
  | tooLarge size large =>
    refine ⟨h.journal, ?_⟩
    rw [Reader.readOnce, ← place, bind_apply, look_eq, size]
    dsimp only
    rw [if_pos large]
    rfl
  | unopened size fits opened =>
    refine ⟨h.journal, ?_⟩
    rw [Reader.readOnce, ← place, bind_apply, look_eq, size]
    dsimp only
    rw [if_neg (Int.not_lt.mpr fits), bind_apply, openFile_eq, opened]
    rfl
  | strict size fits opened decoded =>
    refine ⟨h.journal, ?_⟩
    rw [Reader.readOnce, ← place, bind_apply, look_eq, size]
    dsimp only
    rw [if_neg (Int.not_lt.mpr fits), bind_apply, openFile_eq, opened]
    dsimp only
    rw [decoded]
    rfl
  | unreopened size fits opened decoded reopened =>
    obtain ⟨journal, read⟩ := readOnce_of_undecoded size fits opened decoded
    rw [reopened] at read
    exact ⟨journal, read⟩
  | single size fits opened decoded reopened =>
    obtain ⟨journal, read⟩ := readOnce_of_undecoded size fits opened decoded
    rw [reopened] at read
    exact ⟨journal, read⟩

end Attempt

/-- Failures that a refusal of the file system, an oversized file among them, can be. -/
def ReadError.IsRefusal : ReadError → Prop
  | .look (.system _) => True
  | .tooLarge .. => True
  | _ => False

/-- The kinds of refusal that end a reading at once. -/
def fatalKinds : List String := ["FileNotFoundError", "IsADirectoryError", "SourceTooLargeError"]

/-- Whether an attempt came to a refusal of a kind that the next may not meet. -/
def Transient : Except ReadError String → Prop
  | .ok _ => False
  | .error e => e.IsRefusal ∧ e.kind ∉ fatalKinds

theorem kind_mem_fatalKinds (e : SystemError) :
    e.kind ∈ fatalKinds ↔ e.number = SystemError.absentNumber ∨ e.number = SystemError.folderNumber := by
  constructor
  · intro fatal
    have named : SystemError.kinds.all fun k => k.2 ∉ fatalKinds ∨
        k.1 = SystemError.absentNumber ∨ k.1 = SystemError.folderNumber := by decide
    rw [SystemError.kind] at fatal
    cases found : SystemError.kinds.find? fun k => k.1 == e.number with
    | none =>
      rw [found] at fatal
      exact absurd fatal (by decide)
    | some k =>
      rw [found] at fatal
      have number : k.1 = e.number := by simpa using List.find?_some found
      have either := List.all_eq_true.mp named k (List.mem_of_find?_eq_some found)
      rw [← number]
      exact (of_decide_eq_true either).resolve_left (not_not_intro fatal)
  · intro number
    obtain ⟨number, reason, path⟩ := e
    obtain rfl | rfl := number
    · exact List.mem_cons_self
    · exact List.mem_cons_of_mem _ List.mem_cons_self

theorem transient_error (e : ReadError) : Transient (.error e) ↔ e.isTransient = true := by
  cases e with
  | look e =>
    cases e with
    | system e =>
      have named : (ReadError.look (.system e)).kind = e.kind := rfl
      simp [Transient, ReadError.IsRefusal, ReadError.isTransient, named, kind_mem_fatalKinds]
    | nullByte => simp [Transient, ReadError.IsRefusal, ReadError.isTransient]
  | tooLarge path size limit =>
    simp [Transient, ReadError.isTransient, ReadError.kind, fatalKinds]
  | pauseTooLong => simp [Transient, ReadError.IsRefusal, ReadError.isTransient]

/-- Seconds to wait after the attempt of a number, the first being zero. -/
def pauseAfter (attempt : Nat) : Float := 0.1 * Float.ofNat (Nat.pow 2 attempt)

theorem delay?_eq {attempt : Nat} (low : attempt < 1024) :
    Reader.delay? attempt = some (pauseAfter attempt) := by
  rw [Reader.delay?, Nat.min_eq_left (Nat.le_of_lt low), Decimal.floatOfInt?_pow low]
  rfl

/-- Attempts one after the other, each with the faults that the one before it has left. -/
structure Attempts (r : Reader) (d : Disk) (path : String) (faults : List (Option Fault))
    (outcomes : Nat → Except ReadError String) (waiting : Nat → List (Option Fault)) : Prop where
  start : waiting 0 = faults
  step : ∀ i, Attempt r d path (waiting i) (outcomes i) (waiting (i + 1))

theorem exists_attempts (r : Reader) (d : Disk) (path : String) (faults : List (Option Fault)) :
    ∃ outcomes waiting, Attempts r d path faults outcomes waiting := by
  choose outcome rest attempt using exists_attempt r d path
  let waiting (i : Nat) := rest^[i] faults
  refine ⟨fun i => outcome (waiting i), waiting, rfl, fun i => ?_⟩
  have next : waiting (i + 1) = rest (waiting i) := Function.iterate_succ_apply' rest i faults
  rw [next]
  exact attempt _

/-- The surroundings after some attempts on a path: those begun are on record, and so is the wait
after each of the numbered ones. -/
def Host.tried (h : Host) (path : String) (begun : Nat) (waits : List Nat)
    (faults : List (Option Fault)) (journal : Log.Journal) : Host :=
  { h with
    faults := faults
    visits := h.visits ++ List.replicate begun (place path)
    pauses := h.pauses ++ waits.map pauseAfter
    journal := journal }

section Run

variable {r : Reader} {d : Disk} {path : String} {faults : List (Option Fault)}
  {outcomes : Nat → Except ReadError String} {waiting : Nat → List (Option Fault)}

theorem backOff_apply {attempt : Nat} (path : String) (low : attempt < 1024) (e : ReadError)
    (h : Host) :
    ∃ journal, Reader.backOff path attempt e h =
      (true, { h with pauses := h.pauses ++ [pauseAfter attempt], journal := journal }) := by
  rw [Reader.backOff, delay?_eq low]
  exact ⟨_, rfl⟩

/-- An attempt that is not transient ends the reading, and so does one with none left after it. -/
theorem finish_of_decided {reading : Reading} {outcome rest} {h : Host}
    (attempt : Attempt r h.disk reading.path h.faults outcome rest)
    (decided : Transient outcome → reading.left = 0) :
    ∃ journal, reading.finish r h = (outcome, { h with faults := rest, journal := journal }) := by
  obtain ⟨journal, read⟩ := attempt.readOnce_eq
  rw [Reading.finish, bind_apply, Reading.perform, bind_apply, read]
  cases outcome with
  | ok text => exact ⟨journal, rfl⟩
  | error e =>
    dsimp only
    by_cases passing : e.isTransient = true
    · have none : ¬ 0 < reading.left :=
        Nat.not_lt.mpr (Nat.le_of_eq (decided ((transient_error e).mpr passing)))
      rw [passing, dif_neg none]
      exact ⟨_, rfl⟩
    · rw [Bool.not_eq_true] at passing
      rw [passing]
      exact ⟨journal, rfl⟩

/-- After a transient attempt comes a wait, and the next one begins. -/
theorem finish_of_transient {attempt : Nat} {outcome rest} {h : Host}
    (made : Attempt r h.disk path h.faults outcome rest) (passing : Transient outcome)
    (low : attempt < 1024) (left : Nat) :
    ∃ journal, Reading.finish r ⟨path, attempt, left + 1⟩ h =
      Reading.finish r ⟨path, attempt + 1, left⟩
        { h with
          faults := rest
          visits := h.visits ++ [place path]
          pauses := h.pauses ++ [pauseAfter attempt]
          journal := journal } := by
  obtain ⟨journal, read⟩ := made.readOnce_eq
  cases outcome with
  | ok text => exact absurd passing id
  | error e =>
    rw [transient_error] at passing
    obtain ⟨journal, waited⟩ := backOff_apply path low e
      { h with faults := rest, journal := journal }
    rw [Reading.finish, bind_apply, Reading.perform, bind_apply, read]
    dsimp only
    rw [passing, dif_pos (Nat.succ_pos left), Bool.not_true, if_neg Bool.false_ne_true, bind_apply,
      waited]
    exact ⟨journal, rfl⟩

/-- A reading goes on to the first attempt that is not transient, or to the last that is left. -/
theorem finish_eq {later first spare : Nat} {h : Host}
    (attempts : Attempts r h.disk path faults outcomes waiting) (here : h.faults = waiting first)
    (low : first + later ≤ 1024) (passing : ∀ i < later, Transient (outcomes (first + i)))
    (last : Transient (outcomes (first + later)) → spare = 0) :
    ∃ journal, Reading.finish r ⟨path, first, later + spare⟩ h =
      (outcomes (first + later),
        h.tried path later (List.range' first later) (waiting (first + later + 1)) journal) := by
  induction later generalizing first h with
  | zero =>
    have attempt := attempts.step first
    rw [← here] at attempt
    let reading : Reading := ⟨path, first, 0 + spare⟩
    have decided : Transient (outcomes first) → reading.left = 0 :=
      fun passing => (Nat.zero_add spare).trans (last passing)
    obtain ⟨journal, ended⟩ := finish_of_decided attempt decided
    refine ⟨journal, ended.trans ?_⟩
    simp [Host.tried]
  | succ later ih =>
    have attempt := attempts.step first
    rw [← here] at attempt
    have soon : first < 1024 := by omega
    obtain ⟨journal, next⟩ := finish_of_transient attempt (passing 0 (Nat.succ_pos later)) soon
      (later + spare)
    have shift : ∀ i, first + (i + 1) = first + 1 + i := fun i => by omega
    have left : later + 1 + spare = later + spare + 1 := by omega
    obtain ⟨journal, ended⟩ := ih
      (h := { h with
        faults := waiting (first + 1)
        visits := h.visits ++ [place path]
        pauses := h.pauses ++ [pauseAfter first]
        journal := journal })
      attempts rfl (by omega) (fun i small => shift i ▸ passing (i + 1) (Nat.succ_lt_succ small))
      (fun later => last (shift _ ▸ later))
    refine ⟨journal, ?_⟩
    rw [left, next, ended, ← shift later]
    simp only [Host.tried, List.replicate_succ, List.range'_succ, List.map_cons, List.append_assoc,
      List.cons_append, List.nil_append]

/-- The reading of a whole file, from its first attempt on. -/
theorem readText_eq {j : Nat} {h : Host} (attempts : Attempts r h.disk path h.faults outcomes waiting)
    (below : j < r.attempts) (low : r.attempts ≤ 1024) (passing : ∀ i < j, Transient (outcomes i))
    (last : Transient (outcomes j) → j + 1 = r.attempts) :
    ∃ journal, r.readText path h =
      (outcomes j, h.tried path (j + 1) (List.range j) (waiting (j + 1)) journal) := by
  have left : r.attempts - 1 = j + (r.attempts - 1 - j) := by omega
  have passing : ∀ i < j, Transient (outcomes (0 + i)) := by simpa only [Nat.zero_add] using passing
  have none : Transient (outcomes (0 + j)) → r.attempts - 1 - j = 0 := by
    rw [Nat.zero_add]
    intro again
    have := last again
    omega
  obtain ⟨journal, ended⟩ := finish_eq (h := { h with visits := h.visits ++ [place path] }) attempts
    attempts.start.symm (by omega) passing none
  refine ⟨journal, ?_⟩
  rw [← left, Nat.zero_add] at ended
  refine (Eq.trans rfl ended).trans ?_
  simp only [Host.tried, List.append_assoc, List.singleton_append, List.replicate_succ,
    List.range_eq_range']

/-- The attempts of the given numbers as one loop, which yields nothing if it gets past the last. -/
def Reader.tryEach (r : Reader) (path : String) :
    List Nat → StateM Host (Option (Except ReadError String))
  | [] => return none
  | attempt :: later => do
    Host.recordVisit (place path)
    match ← r.readOnce path with
    | .ok text => return some (.ok text)
    | .error e =>
      if !e.isTransient then return some (.error e)
      if attempt + 1 < r.attempts then
        if ← Reader.backOff path attempt e then tryEach r path later
        else return some (.error .pauseTooLong)
      else
        Host.report (Log.plain .warning Reader.part
          s!"Failed to read {path} after {r.attempts} attempts: {e.message}")
        return some (.error e)

/-- The loop never gets past the last attempt: it is the reading, which one of them ends. -/
theorem tryEach_eq {attempt left : Nat} (h : Host) (count : attempt + left + 1 = r.attempts) :
    r.tryEach path (List.range' attempt (left + 1)) h =
      (fun ended => (some ended.1, ended.2)) (Reading.finish r ⟨path, attempt, left⟩
        (Host.recordVisit (place path) h).2) := by
  induction left using Nat.strongRecOn generalizing attempt h with
  | ind left ih =>
    rw [List.range'_succ, Reader.tryEach, bind_apply, bind_apply, Reading.finish, bind_apply,
      Reading.perform, bind_apply]
    generalize r.readOnce path (Host.recordVisit (place path) h).2 = read
    obtain ⟨outcome, after⟩ := read
    cases outcome with
    | ok text => rfl
    | error e =>
      dsimp only
      cases passing : e.isTransient with
      | false => rfl
      | true =>
        rw [Bool.not_true, if_neg Bool.false_ne_true, if_neg Bool.false_ne_true]
        cases left with
        | zero =>
          rw [if_neg (by omega), dif_neg (Nat.lt_irrefl 0)]
          rfl
        | succ left =>
          rw [if_pos (by omega), dif_pos (Nat.succ_pos left), bind_apply, bind_apply]
          generalize Reader.backOff path attempt e after = waited
          obtain ⟨able, after⟩ := waited
          cases able with
          | true => exact ih left (Nat.lt_succ_self left) after (by omega)
          | false => rfl

end Run

/-- A reader goes on to the first attempt that is not transient, waiting twice as long after each one,
and to its last if all are transient; that one decides. Each attempt looks at the content only
after the size, and the loop over the attempts is never left without an answer. -/
theorem readText_retries {maxRetries sizeLimit : Int} {r : Reader} {n : Nat}
    (made : r = .withLimits maxRetries sizeLimit) (count : (n : Int) = max 1 maxRetries)
    (few : maxRetries ≤ 1024) (path : String) (h : Host) :
    (∃ outcomes waiting, Attempts r h.disk path h.faults outcomes waiting) ∧
    (∀ outcomes waiting, Attempts r h.disk path h.faults outcomes waiting →
      (∀ j < n, ¬ Transient (outcomes j) → (∀ i < j, Transient (outcomes i)) →
        ∃ journal, r.readText path h =
          (outcomes j, h.tried path (j + 1) (List.range j) (waiting (j + 1)) journal)) ∧
      ((∀ i < n, Transient (outcomes i)) →
        ∃ journal, r.readText path h =
          (outcomes (n - 1), h.tried path n (List.range (n - 1)) (waiting n) journal)) ∧
      ∀ i, (∃ entry, h.disk.lookAmid (place path) (waiting i) = .ok entry ∧
          (entry.size : Int) ≤ sizeLimit) ∨
        (∃ e, outcomes i = .error e) ∧ waiting (i + 1) = (waiting i).tail) ∧
    r.tryEach path (List.range n) h = (some (r.readText path h).1, (r.readText path h).2) := by
  have number : n = (max 1 maxRetries).toNat := by omega
  obtain rfl : r = ⟨n, sizeLimit⟩ := by rw [made, number]; rfl
  have positive : 0 < n := by omega
  have low : n ≤ 1024 := by omega
  refine ⟨exists_attempts _ _ _ _, fun outcomes waiting attempts => ⟨?_, ?_, ?_⟩, ?_⟩
  · intro j below decided passing
    exact readText_eq attempts below low passing (fun again => absurd again decided)
  · intro passing
    have final := readText_eq attempts (Nat.sub_one_lt_of_lt positive) low
      (fun i small => passing i (Nat.lt_of_lt_of_le small (Nat.sub_le n 1)))
      (fun _ => Nat.sub_one_add_one_eq_of_pos positive)
    rwa [Nat.sub_one_add_one_eq_of_pos positive] at final
  · intro i
    exact (attempts.step i).size_first
  · obtain ⟨later, rfl⟩ := Nat.exists_eq_add_one_of_ne_zero (Nat.ne_of_gt positive)
    rw [List.range_eq_range']
    exact tryEach_eq h (by rw [Nat.zero_add])

/-- A busy file is read at the second attempt. -/
theorem readText_retries_busy :
    let r := Reader.withLimits 3 1000
    let busy : Fault := ⟨16, "Device or resource busy"⟩
    let h : Host := { Host.ofDisk (Disk.empty.put "/p/a.js" (.file "a".toUTF8)) with
      faults := [some busy] }
    ∃ journal, r.readText "/p/a.js" h = (.ok "a", h.tried "/p/a.js" 2 [0] [] journal) := by
  intro r busy h
  let refusal : ReadError := .look (.system ⟨busy.number, busy.reason, "/p/a.js"⟩)
  let outcomes (i : Nat) : Except ReadError String := if i = 0 then .error refusal else .ok "a"
  let waiting (i : Nat) : List (Option Fault) := if i = 0 then [some busy] else []
  have attempts : Attempts r h.disk "/p/a.js" h.faults outcomes waiting := by
    refine ⟨rfl, fun i => ?_⟩
    have here : place "/p/a.js" = "/p/a.js" := by decide +kernel
    cases i with
    | zero =>
      have refused : h.disk.lookAmid (place "/p/a.js") (waiting 0) =
          .error (.system ⟨busy.number, busy.reason, "/p/a.js"⟩) := by
        rw [here]
        rfl
      exact .unsized refused
    | succ i =>
      have stands : h.disk.look "/p/a.js" = .ok (.file "a".toUTF8) := by
        have found : h.disk.entries.get? (Disk.key "/p/a.js") = some (.file "a".toUTF8) :=
          Table.get?_insert_self _ _ _
        rw [Disk.look, if_neg (by decide +kernel), Disk.find, found]
        rfl
      have seen : h.disk.lookAmid "/p/a.js" [] = .ok (.file "a".toUTF8) := stands
      have size : h.disk.lookAmid (place "/p/a.js") [] = .ok (.file "a".toUTF8) := by
        rw [here]
        exact seen
      have opened : h.disk.openAmid "/p/a.js" [] = .ok "a".toUTF8 := by
        rw [Disk.openAmid, seen]
      exact .strict size (by decide) opened (by decide +kernel)
  have decided : ¬ Transient (outcomes 1) := id
  have passing : ∀ i < 1, Transient (outcomes i) := by
    intro i first
    obtain rfl : i = 0 := Nat.lt_one_iff.mp first
    exact ⟨trivial, by decide⟩
  obtain ⟨-, law, -⟩ := readText_retries (r := r) (n := 3) rfl rfl (by decide) "/p/a.js" h
  exact (law outcomes waiting attempts).1 1 (by decide) decided passing

end ModuleBundler.Source
