import ModuleBundler.Decimal.Nearest

/-! Cooperative cancellation. A token is cancelled by request or by its deadline;
work polls it at checkpoints and stops between two steps, never inside one. Only
a token that has a deadline and is not cancelled looks at the clock. -/
namespace ModuleBundler

open Decimal

/-- Seconds that never run backwards; each look may move them on by `tick`. -/
structure Clock where
  now : Float
  tick : Float

def Clock.read : StateM Clock Float := fun clock =>
  (clock.now, { clock with now := clock.now + clock.tick })

namespace Cancellation

/-- Why work had to stop. -/
inductive Reason where
  | requested
  | deadlinePassed
  deriving DecidableEq

/-- Work that was stopped, by the name of what was running. -/
structure Interruption where
  operation : String
  reason : Reason
  deriving DecidableEq

def Interruption.message (stop : Interruption) : String :=
  match stop.reason with
  | .requested => s!"{stop.operation} cancelled"
  | .deadlinePassed => s!"{stop.operation} exceeded its deadline"

/-- Polled between steps of the named operation: lets it go on or stops it. -/
abbrev Checkpoint (σ : Type) := String → ExceptT Interruption (StateM σ) Unit

/-- Never stops anything. -/
def unchecked {σ : Type} : Checkpoint σ := fun _ => pure ()

structure Token where
  deadline : Option Float
  cancelled : Bool

namespace Token

/-- A live token. A timeout of zero means none, as does an absent one; a whole number of seconds
too large for a double has no deadline, and then the answer is `none`. -/
def start (timeout : Option Number) : OptionT (StateM Clock) Token :=
  match timeout with
  | none => pure ⟨none, false⟩
  | some limit =>
    if limit.isZero then pure ⟨none, false⟩
    else do
      let now ← Clock.read
      match limit.toFloat? with
      | none => failure
      | some seconds => pure ⟨some (now + seconds), false⟩

def cancel (t : Token) : Token := { t with cancelled := true }

/-- Whether the deadline lies behind; without one it never does. -/
def expired (t : Token) : StateM Clock Bool :=
  match t.deadline with
  | none => pure false
  | some deadline => return decide (deadline ≤ (← Clock.read))

def isCancelled (t : Token) : StateM Clock Bool :=
  if t.cancelled then pure true else t.expired

/-- Seconds left, never below zero; a token without a deadline has no answer. -/
def remaining (t : Token) : StateM Clock (Option Float) :=
  match t.deadline with
  | none => pure none
  | some deadline => do
    let left := deadline - (← Clock.read)
    return some (if 0.0 < left then left else 0.0)

/-- Stops the operation unless the token is live. -/
def check (t : Token) : Checkpoint Clock := fun operation => ExceptT.mk do
  if t.cancelled then return .error ⟨operation, .requested⟩
  if ← t.expired then return .error ⟨operation, .deadlinePassed⟩
  return .ok ()

end Token

/-- The checkpoint of an optional token. -/
def checkpoint : Option Token → Checkpoint Clock
  | none => unchecked
  | some token => token.check

end Cancellation
end ModuleBundler
