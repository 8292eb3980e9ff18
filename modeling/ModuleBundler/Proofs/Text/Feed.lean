import ModuleBundler.Proofs.Text.Encoding
import ModuleBundler.Text.Feed

/-! A file read block by block. Wherever the blocks end, the bytes that are still to be
decoded are valid just if all of them are, so a block that cannot be read and an end that
is reached tell the two cases apart: the portions are whole just if the content is
UTF-8. -/
namespace ModuleBundler.Text

theorem length_unifyLineEnds_le (text : List Char) : (unifyLineEnds text).length ≤ text.length := by
  fun_induction unifyLineEnds text <;> simp only [List.length_cons, List.length_nil] <;> omega

theorem length_le_size_toUTF8 (s : String) : s.toList.length ≤ s.toUTF8.size := by
  rw [String.toUTF8_eq_toByteArray, ← String.utf8Encode_toList, List.utf8Encode,
    List.size_toByteArray, List.length_flatMap]
  generalize s.toList = chars
  induction chars with
  | nil => exact Nat.le_refl 0
  | cons c chars ih =>
    have := c.utf8Size_pos
    simp only [List.length_cons, List.map_cons, List.sum_cons, String.length_utf8EncodeChar] at ih ⊢
    omega

namespace Feed

variable {f g : Feed} {size : Nat} {text : List Char}

section Block

/-- A carriage return that waits is no character more or less. -/
theorem length_settled (waits : Bool) (ended : Prop) [Decidable ended] (some : Bool)
    (front : List Char) :
    let chars := if waits ∧ (ended ∨ some) then '\r' :: front else front
    let later := !decide ended && (chars.getLast? == .some '\r' || (waits && chars.isEmpty))
    (unifyLineEnds (if later then chars.dropLast else chars)).length + later.toNat ≤
      front.length + waits.toNat := by
  intro chars later
  have longer : chars.length ≤ front.length + waits.toNat := by
    cases waits
    · exact Nat.le_refl _
    · dsimp only [chars]
      split <;> simp
  have shorter := length_unifyLineEnds_le (if later then chars.dropLast else chars)
  cases waiting : later with
  | false =>
    rw [waiting] at shorter
    exact Nat.le_trans shorter longer
  | true =>
    rw [waiting, if_pos rfl, List.length_dropLast] at shorter
    rw [if_pos rfl, Bool.toNat_true]
    by_cases empty : chars = []
    · have waited : waits = true := by
        dsimp only [later] at waiting
        rw [empty] at waiting
        simp only [List.getLast?_nil, List.isEmpty_nil] at waiting
        cases waits
        · simp at waiting
        · rfl
      rw [empty, List.dropLast_nil, waited, Bool.toNat_true]
      exact Nat.le_add_left 1 front.length
    · have := List.length_pos_iff.mpr empty
      omega

/-- A block that is read takes the front of what is left up to where it stops. -/
theorem exists_of_block (read : f.block size = some (text, g)) :
    ∃ front used, let stop := min (f.taken + size) f.content.size
      decodeFront? (f.content.extract f.decoded stop) = some (front, used) ∧
      (stop = f.taken → stop ≤ f.decoded + used) ∧ g.content = f.content ∧ g.taken = stop ∧
      g.decoded = f.decoded + used ∧ g.ended = decide (stop = f.taken) ∧
      text.length + g.returnWaits.toNat ≤ front.toList.length + f.returnWaits.toNat := by
  rw [block] at read
  dsimp only at read
  rw [Option.bind_eq_bind, Option.bind_eq_some_iff] at read
  obtain ⟨⟨front, used⟩, decoded, read⟩ := read
  dsimp only at read
  split at read
  next => cases read
  next whole =>
    rw [Option.pure_def, Option.some.injEq] at read
    obtain ⟨rfl, rfl⟩ := Prod.mk.inj read
    refine ⟨front, used, decoded, fun ended => ?_, rfl, rfl, rfl, rfl, length_settled ..⟩
    exact Nat.le_of_not_lt fun short => whole ⟨ended, short⟩

theorem isSome_block {front : String} {used : Nat}
    (decoded : decodeFront? (f.content.extract f.decoded (min (f.taken + size) f.content.size)) =
      some (front, used))
    (whole : min (f.taken + size) f.content.size = f.taken →
      min (f.taken + size) f.content.size ≤ f.decoded + used) : (f.block size).isSome := by
  rw [block]
  dsimp only
  rw [decoded, Option.bind_eq_bind, Option.bind_some]
  dsimp only
  rw [if_neg (by omega)]
  rfl

end Block

/-- The bytes that are still to be decoded. -/
def left (f : Feed) : ByteArray := f.content.extract f.decoded f.content.size

/-- Characters that may still come. -/
def weight (f : Feed) : Nat := f.content.size - f.decoded + f.returnWaits.toNat

/-- How many blocks are read at the most, the one without bytes included. -/
def reads (f : Feed) : Nat := if f.ended then 0 else f.content.size - f.taken + 1

/-- The numbers of bytes fit to each other, and the end comes behind all of them. -/
structure InOrder (f : Feed) : Prop where
  decoded_le : f.decoded ≤ f.taken
  taken_le : f.taken ≤ f.content.size
  ended : f.ended = true → f.decoded = f.content.size

theorem inOrder_ofContent (content : ByteArray) : (ofContent content).InOrder :=
  ⟨Nat.le_refl 0, Nat.zero_le _, fun ended => by cases ended⟩

theorem InOrder.isValid_of_ended (order : f.InOrder) (ended : f.ended = true) :
    f.left.IsValidUTF8 := by
  rw [left, order.ended ended, ByteArray.extract_same]
  exact ByteArray.isValidUTF8_empty

/-- What a block leads to. -/
structure Advances (f : Feed) (text : List Char) (g : Feed) : Prop where
  order : g.InOrder
  content : g.content = f.content
  valid_iff : g.left.IsValidUTF8 ↔ f.left.IsValidUTF8
  reads_lt : g.reads < f.reads
  weight_le : text.length + g.weight ≤ f.weight

theorem left_eq_append (stop : Nat) (low : f.decoded ≤ stop) (high : stop ≤ f.content.size) :
    f.left = f.content.extract f.decoded stop ++ f.content.extract stop f.content.size :=
  ByteArray.extract_eq_extract_append_extract stop low high

/-- One block: what is left is valid just if it was, and less. -/
theorem InOrder.advances (order : f.InOrder) (more : f.ended = false) (positive : 0 < size)
    (read : f.block size = some (text, g)) : f.Advances text g := by
  obtain ⟨front, used, decoded, whole, content, taken, decoded', ended, length⟩ :=
    exists_of_block read
  obtain ⟨within, valid⟩ := toUTF8_of_decodeFront? decoded
  have low := order.decoded_le
  have high := order.taken_le
  generalize place : min (f.taken + size) f.content.size = stop at *
  have cut : f.decoded + used ≤ stop := by
    rw [ByteArray.size_extract, Nat.min_eq_left (by omega)] at within
    omega
  rw [ByteArray.extract_extract, Nat.add_zero, Nat.min_eq_left cut] at valid
  have fewer : front.toList.length ≤ used := by
    have := length_le_size_toUTF8 front
    rw [← valid, ByteArray.size_extract, Nat.min_eq_left (by omega)] at this
    omega
  refine ⟨⟨by omega, by rw [content]; omega, fun last => ?_⟩, content, ?_, ?_, ?_⟩
  · rw [ended, decide_eq_true_eq] at last
    have := whole last
    rw [content]
    omega
  · rw [left, content, decoded', left_eq_append (f.decoded + used) (by omega) (by omega),
      valid]
    exact (isValid_append_iff (isValid_toUTF8 front)).symm
  · rw [reads, reads, more, if_neg Bool.false_ne_true, content, taken]
    split
    next => exact Nat.succ_pos _
    next goesOn =>
      rw [ended, decide_eq_true_eq] at goesOn
      omega
  · rw [weight, weight, content, decoded']
    omega

/-- A block that cannot be read shows that what is left is not valid. -/
theorem InOrder.not_isValid (order : f.InOrder) (positive : 0 < size)
    (failed : f.block size = none) : ¬ f.left.IsValidUTF8 := by
  intro valid
  have low := order.decoded_le
  have high := order.taken_le
  have split := left_eq_append (f := f) (min (f.taken + size) f.content.size)
    (by omega) (by omega)
  rw [split] at valid
  obtain ⟨⟨front, used⟩, decoded⟩ := Option.isSome_iff_exists.mp (isSome_decodeFront? valid)
  have block := isSome_block decoded fun ended => ?_
  · rw [failed] at block
    cases block
  · -- At the end nothing is behind the block, which is a text on its own.
    have all : min (f.taken + size) f.content.size = f.content.size := by omega
    rw [all, ByteArray.extract_same, ByteArray.append_empty] at valid
    rw [all] at decoded ⊢
    obtain ⟨s, form⟩ := exists_eq_toUTF8 valid
    have whole := congrArg ByteArray.size form
    rw [form, decodeFront?_toUTF8, Option.some.injEq] at decoded
    rw [← (Prod.mk.inj decoded).2, ← whole, ByteArray.size_extract]
    omega

end Feed

namespace Portions

variable {p q : Portions} {count : Nat} {text : List Char}

/-- Characters that may still come. -/
def weight (p : Portions) : Nat := p.ready.length + p.feed.weight

theorem wanted_pos (p : Portions) (count : Nat) : 0 < p.wanted count :=
  Nat.lt_of_lt_of_le (by decide : 0 < Feed.blockSize) (Nat.le_max_left _ _)

/-- What a portion leads to. -/
structure Advances (p : Portions) (text : List Char) (q : Portions) : Prop where
  order : q.feed.InOrder
  content : q.feed.content = p.feed.content
  valid_iff : q.feed.left.IsValidUTF8 ↔ p.feed.left.IsValidUTF8
  weight_le : text.length + q.weight ≤ p.weight

/-- A portion, in which each block takes one of the reads that are left: what is left is valid just
if it was, and a portion falls short only at the end. -/
theorem portion_advances {fuel : Nat} (order : p.feed.InOrder) (enough : p.feed.reads < fuel)
    (read : p.portion count fuel = some (text, q)) :
    p.Advances text q ∧ (text.length < count → q.feed.ended = true) := by
  induction fuel generalizing p count text with
  | zero => omega
  | succ fuel ih =>
    rw [portion] at read
    dsimp only at read
    split at read
    next settled =>
      obtain ⟨rfl, rfl⟩ := Prod.mk.inj (Option.some.inj read)
      refine ⟨⟨order, rfl, Iff.rfl, ?_⟩, fun short => settled.resolve_left ?_⟩
      · simp only [weight, List.length_take, List.length_drop]
        omega
      · omega
    next unsettled =>
      obtain ⟨missing, more⟩ := not_or.mp unsettled
      rw [Option.bind_eq_bind, Option.bind_eq_some_iff] at read
      obtain ⟨⟨block, feed⟩, taken, read⟩ := read
      dsimp only at read
      rw [Option.bind_eq_bind, Option.bind_eq_some_iff] at read
      obtain ⟨⟨others, left⟩, portion, read⟩ := read
      obtain ⟨rfl, rfl⟩ := Prod.mk.inj (Option.some.inj read)
      have first := order.advances (Bool.eq_false_iff.mpr more) (wanted_pos _ _) taken
      obtain ⟨next, full⟩ := ih first.order (Nat.lt_of_lt_of_le first.reads_lt (by omega)) portion
      have nextWeight := next.weight_le
      have firstWeight := first.weight_le
      simp only [weight, List.length_append, List.length_take] at missing nextWeight ⊢
      exact ⟨⟨next.order, next.content.trans first.content, next.valid_iff.trans first.valid_iff,
        by simp only [weight, List.length_append, List.length_take]; omega⟩,
        fun short => full (by rw [List.length_take]; omega)⟩

/-- A portion that cannot be read shows that what is left is not valid. -/
theorem not_isValid_of_portion {fuel : Nat} (order : p.feed.InOrder)
    (failed : p.portion count fuel = none) : ¬ p.feed.left.IsValidUTF8 := by
  induction fuel generalizing p count with
  | zero => cases failed
  | succ fuel ih =>
    rw [portion] at failed
    dsimp only at failed
    split at failed
    next => cases failed
    next unsettled =>
      rw [Option.bind_eq_bind] at failed
      cases taken : p.feed.block (p.wanted (count - (p.ready.take count).length)) with
      | none => exact order.not_isValid (wanted_pos _ _) taken
      | some found =>
        have first := order.advances (Bool.eq_false_iff.mpr (not_or.mp unsettled).2)
          (wanted_pos _ _) taken
        rw [taken, Option.bind_some] at failed
        generalize behind : (⟨found.2, found.1, _⟩ : Portions) = r at failed
        have feed : r.feed = found.2 := by rw [← behind]
        rw [← first.valid_iff, ← feed]
        have none : r.portion (count - (p.ready.take count).length) fuel = .none := by
          rw [Option.bind_eq_bind, Option.bind_eq_none_iff] at failed
          exact Option.eq_none_iff_forall_ne_some.mpr fun rest portion => by
            cases failed rest portion
        exact ih (feed ▸ first.order) none

/-- Portions are whole just if what is left is valid: each of them has some of the characters that
may still come, and the last one has none. -/
theorem all_whole {size fuel : Nat} (positive : 0 < size) (order : p.feed.InOrder)
    (enough : p.weight < fuel) : (all size fuel p).2 = true ↔ p.feed.left.IsValidUTF8 := by
  induction fuel generalizing p with
  | zero => omega
  | succ fuel ih =>
    have reads : p.feed.reads < p.feed.content.size + 2 := by
      rw [Feed.reads]
      split <;> omega
    rw [all]
    split
    next failed => simpa using not_isValid_of_portion order failed
    next left read =>
      obtain ⟨step, last⟩ := portion_advances order reads read
      rw [← step.valid_iff]
      exact iff_of_true rfl (step.order.isValid_of_ended (last positive))
    next text left some read =>
      obtain ⟨step, -⟩ := portion_advances order reads read
      have fewer := step.weight_le
      have longer : 0 < text.length := List.length_pos_iff.mpr some
      rw [← step.valid_iff]
      exact ih step.order (by omega)

end Portions

/-- The portions of a file make up all of it just if its bytes are UTF-8. -/
theorem readPortions_whole {size : Nat} (positive : 0 < size) (content : ByteArray) :
    (readPortions size content).2 = true ↔ content.IsValidUTF8 := by
  have start : (Portions.ofContent content).weight < content.size + 2 := by
    simp [Portions.ofContent, Portions.weight, Feed.weight, Feed.ofContent]
  rw [readPortions, Portions.all_whole positive (Feed.inOrder_ofContent content) start,
    Portions.ofContent, Feed.left, Feed.ofContent, ByteArray.extract_zero_size]

end ModuleBundler.Text
