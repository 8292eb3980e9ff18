import ModuleBundler.Proofs.Text.Feed
import ModuleBundler.Yaml.Input

/-! What a reading may come to: an answer, or a failure that is due. That the bytes are no
text is a failure of its own, which only the obstacle to the text brings up. A content
whose bytes are no UTF-8 has an obstacle, and one whose bytes are has not this one. -/
namespace ModuleBundler.Yaml

/-- A failure says of the bytes that they are no text only if that is the obstacle. -/
def Failure.IsDue (obstacle : Option Failure) (cause : Failure) : Prop :=
  cause = .undecodable → obstacle = some .undecodable

section Settles

variable {α β σ : Type} {obstacle : Option Failure} {P : α → Prop} {Q : β → Prop}

/-- An answer with a property, or a failure that is due. -/
inductive Settles (obstacle : Option Failure) (P : α → Prop) : Except Failure α → Prop
  | ok {a : α} (holds : P a) : Settles obstacle P (.ok a)
  | error {cause : Failure} (due : cause.IsDue obstacle) : Settles obstacle P (.error cause)

theorem Failure.isDue_flaw (cause : Flaw) : (Failure.flaw cause).IsDue obstacle :=
  fun same => by cases same

theorem Failure.isDue_scalar (cause : ScalarError) : (Failure.scalar cause).IsDue obstacle :=
  fun same => by cases same

theorem Failure.isDue_nestedTooDeep : Failure.nestedTooDeep.IsDue obstacle :=
  fun same => by cases same

namespace Settles

theorem flaw (cause : Flaw) : Settles obstacle P (.error (.flaw cause)) :=
  .error (Failure.isDue_flaw cause)

theorem scalar (cause : ScalarError) : Settles obstacle P (.error (.scalar cause)) :=
  .error (Failure.isDue_scalar cause)

theorem bind {x : Except Failure α} {f : α → Except Failure β} (first : Settles obstacle P x)
    (next : ∀ a, P a → Settles obstacle Q (f a)) : Settles obstacle Q (x >>= f) := by
  cases first with
  | ok holds => exact next _ holds
  | error due => exact .error due

theorem stateBind {x : StateT σ (Except Failure) α} {f : α → StateT σ (Except Failure) β} {s : σ}
    {P : α × σ → Prop} {Q : β × σ → Prop} (first : Settles obstacle P (x s))
    (next : ∀ a s', P (a, s') → Settles obstacle Q (f a s')) : Settles obstacle Q ((x >>= f) s) :=
  first.bind fun answer holds => next answer.1 answer.2 holds

theorem ite {p : Prop} [Decidable p] {x y : Except Failure α} (yes : Settles obstacle P x)
    (no : Settles obstacle P y) : Settles obstacle P (if p then x else y) := by
  split
  next => exact yes
  next => exact no

theorem imp {P' : α → Prop} {x : Except Failure α} (settles : Settles obstacle P x)
    (weaker : ∀ a, P a → P' a) : Settles obstacle P' x := by
  cases settles with
  | ok holds => exact .ok (weaker _ holds)
  | error due => exact .error due

/-- A reading that meets no obstacle of its own may meet any. -/
theorem amid {x : Except Failure α} (settles : Settles none P x) : Settles obstacle P x := by
  cases settles with
  | ok holds => exact .ok holds
  | error due => exact .error fun same => by cases due same

theorem of_ok {x : Except Failure α} {a : α} (settles : Settles obstacle P x) (ok : x = .ok a) :
    P a := by
  subst ok
  cases settles with
  | ok holds => exact holds

theorem of_error {x : Except Failure α} {cause : Failure} (settles : Settles obstacle P x)
    (failed : x = .error cause) : cause.IsDue obstacle := by
  subst failed
  cases settles with
  | error due => exact due

end Settles

end Settles

namespace Input

theorem obstacle_ofPortions (whole : Bool) (portions : List (List Char)) :
    ((ofPortions whole portions).obstacle = none → whole = true) ∧
      ((ofPortions whole portions).obstacle = some .undecodable → whole = false) := by
  induction portions with
  | nil => cases whole <;> simp [ofPortions]
  | cons portion rest ih =>
    rw [ofPortions]
    split
    next => exact ⟨fun none => (by cases none), fun some => (by cases some)⟩
    next => exact ih

theorem portionSize_pos : 0 < portionSize := by decide

theorem exists_ofContent (content : ByteArray) : ∃ portions, ofContent content =
    ofPortions (Text.readPortions portionSize content).2 portions := by
  unfold ofContent
  generalize Text.readPortions portionSize content = read
  obtain ⟨portions, whole⟩ := read
  cases portions with
  | nil => exact ⟨_, rfl⟩
  | cons first rest =>
    cases rest with
    | nil => cases whole <;> exact ⟨_, rfl⟩
    | cons second rest => exact ⟨_, rfl⟩

variable {content : ByteArray}

/-- Bytes that are no UTF-8 are an obstacle, unless another one stands before them. -/
theorem obstacle_of_invalid (invalid : ¬ content.IsValidUTF8) :
    (ofContent content).obstacle ≠ none := by
  obtain ⟨portions, form⟩ := exists_ofContent content
  rw [form]
  exact fun none => invalid <| (Text.readPortions_whole portionSize_pos content).mp
    ((obstacle_ofPortions _ _).1 none)

theorem obstacle_of_valid (valid : content.IsValidUTF8) :
    (ofContent content).obstacle ≠ some .undecodable := by
  obtain ⟨portions, form⟩ := exists_ofContent content
  have whole := (Text.readPortions_whole portionSize_pos content).mpr valid
  rw [form]
  intro some
  rw [(obstacle_ofPortions _ _).2 some] at whole
  cases whole

end Input
end ModuleBundler.Yaml
