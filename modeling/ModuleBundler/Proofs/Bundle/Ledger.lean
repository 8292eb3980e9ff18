import ModuleBundler.Proofs.Bundle.Concurrency

/-! A ledger of a run, kept beside it and read by nobody in it. It says which build
the text of each key in the cache comes from, and which build each call has its
answer from. It agrees with the results of the builds, so that it cannot be kept
amiss. -/
namespace ModuleBundler.Bundle.Concurrency

open Source Cache

universe u

structure Ledger (ι : Type u) where
  /-- The build whose text the cache holds for a key. -/
  stored : Key → Option Ticket
  /-- The build that a call has its answer from. -/
  source : ι → Option Ticket

variable {ι : Type u}

namespace Ledger

def empty : Ledger ι := ⟨fun _ => none, fun _ => none⟩

variable [DecidableEq ι]

/-- Notes what a call is about to do. -/
def noteStep (l : Ledger ι) (s : State ι) (i : ι) : Ledger ι :=
  let r := s.requests i
  match r.phase with
  | .asking => { l with source := Function.update l.source i (l.stored r.key) }
  | .ending ticket generation result =>
    { l with
      source := Function.update l.source i (some ticket)
      stored :=
        if result.isOk ∧ s.site.cache.generation = generation then
          Function.update l.stored r.key (some ticket)
        else l.stored }
  | .waiting ticket => { l with source := Function.update l.source i (some ticket) }
  | .claiming | .starting .. | .building .. | .finished _ => l

/-- Notes a move that is about to be made. -/
def note (l : Ledger ι) (s : State ι) : Move ι → Ledger ι
  | .advance i => l.noteStep s i
  | .clearCache | .sourceChanged _ => { l with stored := fun _ => none }
  | .change _ | .disturb .. => l

/-- The ledger after some more moves. -/
def continued (l : Ledger ι) (s : State ι) : List (Move ι) → Ledger ι
  | [] => l
  | move :: rest => (l.note s move).continued (step s move) rest

/-- The ledger of a whole run. -/
def ofRun (b : Bundler) (host : Host) (calls : ι → Call) (moves : List (Move ι)) : Ledger ι :=
  empty.continued (initial b host calls) moves

end Ledger

section Notes

variable [DecidableEq ι] {l : Ledger ι} {s t : State ι} {move : Move ι}

theorem continued_append (l : Ledger ι) (s : State ι) (first second : List (Move ι)) :
    l.continued s (first ++ second) = (l.continued s first).continued (runFrom s first) second := by
  induction first generalizing l s with
  | nil => rfl
  | cons move rest ih => exact ih (l.note s move) (step s move)

/-- The build that a text in the cache comes from has stored it before, or stores it now. -/
theorem stored_note {key : Key} {ticket : Ticket}
    (noted : (l.note s move).stored key = some ticket) :
    move.clears = false ∧ (l.stored key = some ticket ∨ ∃ i text, (s.requests i).key = key ∧
      (s.requests i).phase = .ending ticket s.site.cache.generation (.ok text)) := by
  cases move with
  | advance i =>
    refine ⟨rfl, ?_⟩
    simp only [Ledger.note, Ledger.noteStep] at noted
    cases phase : (s.requests i).phase with
    | ending own generation result =>
      simp only [phase] at noted
      split at noted
      next current =>
        by_cases same : key = (s.requests i).key
        · subst same
          rw [Function.update_self] at noted
          cases noted
          obtain ⟨good, rfl⟩ := current
          cases result with
          | ok text => exact .inr ⟨i, text, rfl, phase⟩
          | error e => cases good
        · rw [Function.update_of_ne same] at noted
          exact .inl noted
      next => exact .inl noted
    | asking | claiming | starting | building | waiting | finished =>
      simp only [phase] at noted
      exact .inl noted
  | clearCache | sourceChanged => cases noted
  | change | disturb => exact ⟨rfl, .inl noted⟩

/-- A call has its answer from the build noted before, from the one in the cache, or from the one it
holds or waits for. -/
theorem source_note {i : ι} {ticket : Ticket} (noted : (l.note s move).source i = some ticket) :
    l.source i = some ticket ∨ move = .advance i ∧
      ((s.requests i).phase = .asking ∧ l.stored (s.requests i).key = some ticket ∨
        (∃ generation result, (s.requests i).phase = .ending ticket generation result) ∨
        (s.requests i).phase = .waiting ticket) := by
  cases move with
  | advance j =>
    by_cases same : i = j
    · subst same
      simp only [Ledger.note, Ledger.noteStep] at noted
      cases phase : (s.requests i).phase with
      | asking =>
        simp only [phase, Function.update_self] at noted
        exact .inr ⟨rfl, .inl ⟨rfl, noted⟩⟩
      | ending own generation result =>
        simp only [phase, Function.update_self] at noted
        cases noted
        exact .inr ⟨rfl, .inr (.inl ⟨generation, result, rfl⟩)⟩
      | waiting own =>
        simp only [phase, Function.update_self] at noted
        cases noted
        exact .inr ⟨rfl, .inr (.inr rfl)⟩
      | claiming | starting | building | finished =>
        simp only [phase] at noted
        exact .inl noted
    · refine .inl ?_
      simp only [Ledger.note, Ledger.noteStep] at noted
      cases phase : (s.requests j).phase with
      | asking | ending | waiting =>
        simp only [phase, Function.update_of_ne same] at noted
        exact noted
      | claiming | starting | building | finished =>
        simp only [phase] at noted
        exact noted
  | clearCache | sourceChanged | change | disturb => exact .inl noted

theorem stored_advance_of_ending {i : ι} {ticket : Ticket} {text : String}
    (ending : (s.requests i).phase = .ending ticket s.site.cache.generation (.ok text)) :
    (l.note s (.advance i)).stored = Function.update l.stored (s.requests i).key (some ticket) := by
  simp only [Ledger.note, Ledger.noteStep, ending, Except.isOk, Except.toBool, and_self, if_true]

theorem stored_advance_of_ne {i : ι}
    (other : ∀ ticket text, (s.requests i).phase ≠ .ending ticket s.site.cache.generation (.ok text)) :
    (l.note s (.advance i)).stored = l.stored := by
  funext key
  simp only [Ledger.note, Ledger.noteStep]
  cases phase : (s.requests i).phase with
  | ending ticket generation result =>
    dsimp only
    rw [if_neg]
    rintro ⟨good, rfl⟩
    cases result with
    | ok text => exact other ticket text phase
    | error e => cases good
  | asking | claiming | starting | building | waiting | finished => rfl

theorem source_note_of_ne {i : ι} (other : move ≠ .advance i) :
    (l.note s move).source i = l.source i := by
  cases move with
  | advance j =>
    have ne : i ≠ j := fun same => other (same ▸ rfl)
    simp only [Ledger.note, Ledger.noteStep]
    cases (s.requests j).phase with
    | asking | ending | waiting => exact Function.update_of_ne ne _ _
    | claiming | starting | building | finished => rfl
  | clearCache | sourceChanged | change | disturb => rfl

end Notes

/-- What a ledger says agrees with the results of the builds. -/
structure Recorded (s : State ι) (l : Ledger ι) : Prop where
  coherent : Coherent s.site.cache s.held
  stored : ∀ {key text}, s.site.cache.entries.get? key = some text →
    ∃ ticket, l.stored key = some ticket ∧ s.site.cache.result? ticket = some (.ok text)
  answered : ∀ {i result}, (s.requests i).result? = some result →
    ∃ ticket, l.source i = some ticket ∧ s.site.cache.result? ticket = some result

theorem result?_of_ended {s : State ι} {i : ι} {ticket : Ticket} {generation : Int}
    {result : Except Failure String} (coherent : Coherent s.site.cache s.held)
    (ending : (s.requests i).phase = .ending ticket generation result) :
    (finishBuild (s.requests i).key ticket generation result s.site.cache).2.result? ticket =
      some result := by
  have holds := held_of_ending ending
  rw [result?_finishBuild _ _ _ (coherent.pending holds) (coherent.known holds), if_pos rfl]

theorem initial_recorded (b : Bundler) (host : Host) (calls : ι → Call) :
    Recorded (initial b host calls) .empty where
  coherent := initial_coherent b host calls
  stored present := by cases present
  answered {i result} answered := by
    simp only [initial, Call.request, Request.start, Request.result?] at answered
    cases forced : (calls i).force <;> simp [forced] at answered

section Recorded

variable [DecidableEq ι] {l : Ledger ι} {s t : State ι} {move : Move ι}

theorem Recorded.stored_note (recorded : Recorded s l) (effect : Effect s move t) {key : Key}
    {text : String} (present : t.site.cache.entries.get? key = some text) :
    ∃ ticket, (l.note s move).stored key = some ticket ∧
      t.site.cache.result? ticket = some (.ok text) := by
  have old : ∀ {key text}, s.site.cache.entries.get? key = some text → ∃ ticket,
      l.stored key = some ticket ∧ t.site.cache.result? ticket = some (.ok text) := by
    intro key text present
    obtain ⟨ticket, noted, resolved⟩ := recorded.stored present
    exact ⟨ticket, noted, effect.result? resolved⟩
  cases effect with
  | @advanced i r site turn =>
    change site.cache.entries.get? key = _ at present
    rcases turn.entries with ⟨ticket, new, ending, ended, entries⟩ | ⟨other, entries⟩
    · rw [stored_advance_of_ending ending]
      rw [entries, Table.get?_insert] at present
      by_cases same : key = (s.requests i).key
      · rw [if_pos same] at present
        cases present
        refine ⟨ticket, by rw [same, Function.update_self], ?_⟩
        change site.cache.result? ticket = _
        rw [ended]
        exact result?_of_ended recorded.coherent ending
      · rw [if_neg same] at present
        rw [Function.update_of_ne same]
        exact old present
    · rw [stored_advance_of_ne other]
      rw [entries] at present
      exact old present
  | cleared => cases present
  | changed | disturbed => exact old present

/-- The step in which a call gets its answer notes where that comes from. -/
theorem Recorded.answered_of_turn (recorded : Recorded s l) {i : ι} {r : Request} {site : Site}
    (turn : (s.requests i).Turn s.site r site) {result : Except Failure String}
    (answered : r.result? = some result) :
    ∃ ticket, (l.note s (.advance i)).source i = some ticket ∧
      site.cache.result? ticket = some result := by
  cases turn with
  | found asking present =>
    cases answered
    obtain ⟨ticket, noted, resolved⟩ := recorded.stored present
    refine ⟨ticket, ?_, ?_⟩
    · simp only [Ledger.note, Ledger.noteStep, asking, Function.update_self]
      exact noted
    · rw [Cache.result?, builds_lookUp]
      exact resolved
  | @ended ticket generation own _ ending =>
    cases answered
    refine ⟨ticket, ?_, result?_of_ended recorded.coherent ending⟩
    simp only [Ledger.note, Ledger.noteStep, ending, Function.update_self]
  | @served ticket own waiting resolved =>
    cases answered
    refine ⟨ticket, ?_, resolved⟩
    simp only [Ledger.note, Ledger.noteStep, waiting, Function.update_self]
  | waits waiting =>
    simp only [Request.result?, waiting] at answered
    cases answered
  | rests finished =>
    simp only [Ledger.note, Ledger.noteStep, finished]
    exact recorded.answered answered
  | missed | granted | joined | unstarted | started | went | built | failed => cases answered

theorem Recorded.answered_note (recorded : Recorded s l) (effect : Effect s move t) {i : ι}
    {result : Except Failure String} (answered : (t.requests i).result? = some result) :
    ∃ ticket, (l.note s move).source i = some ticket ∧
      t.site.cache.result? ticket = some result := by
  by_cases mine : move = .advance i
  · subst mine
    exact recorded.answered_of_turn effect.turn answered
  · rw [effect.requests_of_ne mine] at answered
    rw [source_note_of_ne mine]
    obtain ⟨ticket, noted, resolved⟩ := recorded.answered answered
    exact ⟨ticket, noted, effect.result? resolved⟩

theorem Recorded.note (recorded : Recorded s l) (effect : Effect s move t) :
    Recorded t (l.note s move) := by
  have coherent := recorded.coherent
  constructor
  · exact effect.coherent coherent
  · exact recorded.stored_note effect
  · exact recorded.answered_note effect

theorem Recorded.continued (recorded : Recorded s l) (moves : List (Move ι)) :
    Recorded (runFrom s moves) (l.continued s moves) := by
  induction moves generalizing s l with
  | nil => exact recorded
  | cons move rest ih => exact ih (recorded.note (effect_step s move))

/-- A call that has not moved stands where it stood, and has no answer noted. -/
theorem untouched {i : ι} {moves : List (Move ι)} (idle : .advance i ∉ moves) :
    (runFrom s moves).requests i = s.requests i ∧ (l.continued s moves).source i = l.source i := by
  induction moves generalizing s l with
  | nil => exact ⟨rfl, rfl⟩
  | cons move rest ih =>
    have other : move ≠ .advance i := fun same => idle (same ▸ List.mem_cons_self)
    have later : .advance i ∉ rest := fun member => idle (List.mem_cons_of_mem _ member)
    obtain ⟨stands, noted⟩ := ih (s := step s move) (l := l.note s move) later
    exact ⟨stands.trans ((effect_step s move).requests_of_ne other),
      noted.trans (source_note_of_ne other)⟩

end Recorded
end ModuleBundler.Bundle.Concurrency
