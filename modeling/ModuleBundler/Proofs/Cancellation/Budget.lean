import ModuleBundler.Cancellation

/-! Budgets of checkpoints. What a checkpoint answers may change from poll to poll, and with
it the state that it reads; a budget says how many polls in a row it lets pass before it
stops the work. -/
namespace ModuleBundler.Cancellation

variable {σ : Type}

namespace Checkpoint

/-- The state after some polls on behalf of an operation, whatever their answers were. -/
def after (check : Checkpoint σ) (operation : String) (s : σ) : Nat → σ
  | 0 => s
  | polls + 1 => after check operation ((check operation).run.run s).2 polls

/-- The answer to the poll that comes after some others. -/
def answer (check : Checkpoint σ) (operation : String) (s : σ) (polls : Nat) :
    Except Interruption Unit := ((check operation).run.run (check.after operation s polls)).1

/-- Lets as many polls pass as the budget has and not the next; no more is asked of later ones. -/
structure Grants (check : Checkpoint σ) (operation : String) (s : σ) (budget : Nat) : Prop where
  passes : ∀ polls < budget, check.answer operation s polls = .ok ()
  stops : ∃ stop, check.answer operation s budget = .error stop

namespace Grants

variable {check : Checkpoint σ} {operation : String} {s : σ} {budget : Nat}

/-- With nothing left, the next poll stops the work. -/
theorem stop (grants : check.Grants operation s 0) : ∃ stop,
    (check operation).run.run s = (.error stop, check.after operation s 1) := by
  obtain ⟨stop, answered⟩ := grants.stops
  exact ⟨stop, Prod.ext answered rfl⟩

/-- A poll that passes takes one off the budget. -/
theorem pass (grants : check.Grants operation s (budget + 1)) :
    (check operation).run.run s = (.ok (), check.after operation s 1) ∧
      check.Grants operation (check.after operation s 1) budget :=
  ⟨Prod.ext (grants.passes 0 (Nat.succ_pos budget)) rfl,
    fun polls few => grants.passes (polls + 1) (Nat.succ_lt_succ few), grants.stops⟩

end Grants
end Checkpoint

/-- A token that has been cancelled grants nothing. -/
theorem Token.grants_of_cancelled {token : Token} (cancelled : token.cancelled = true)
    (operation : String) (clock : Clock) : Checkpoint.Grants token.check operation clock 0 := by
  refine ⟨fun _ few => absurd few (Nat.not_lt_zero _), ⟨operation, .requested⟩, ?_⟩
  rw [Checkpoint.answer, Token.check, cancelled]
  rfl

/-- A token whose deadline passes with the next look at the clock grants one poll. -/
theorem Token.grants_of_deadline {deadline now tick : Float} (ahead : ¬ deadline ≤ now)
    (behind : deadline ≤ now + tick) (operation : String) :
    Checkpoint.Grants (Token.check ⟨some deadline, false⟩) operation ⟨now, tick⟩ 1 := by
  have answers : ∀ clock : Clock,
      (Token.check ⟨some deadline, false⟩ operation).run.run clock =
        (if deadline ≤ clock.now then .error ⟨operation, .deadlinePassed⟩ else .ok (),
          { clock with now := clock.now + clock.tick }) := by
    intro clock
    have told : (Token.check ⟨some deadline, false⟩ operation).run.run clock =
        ((if decide (deadline ≤ clock.now) then pure (.error ⟨operation, .deadlinePassed⟩)
          else pure (.ok ())) : StateM Clock (Except Interruption Unit))
          { clock with now := clock.now + clock.tick } := rfl
    rw [told]
    by_cases passed : deadline ≤ clock.now
    · rw [decide_eq_true passed, if_pos passed]
      rfl
    · rw [decide_eq_false passed, if_neg passed]
      rfl
  refine ⟨fun polls few => ?_, ⟨operation, .deadlinePassed⟩, ?_⟩
  · obtain rfl : polls = 0 := Nat.lt_one_iff.mp few
    rw [Checkpoint.answer, Checkpoint.after, answers, if_neg ahead]
  · rw [Checkpoint.answer, Checkpoint.after, Checkpoint.after, answers, answers, if_pos behind]

end ModuleBundler.Cancellation
