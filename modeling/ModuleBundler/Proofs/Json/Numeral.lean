import ModuleBundler.Json.Printer
import ModuleBundler.Json.Reader
import ModuleBundler.Proofs.Decimal.Nearest
import ModuleBundler.Proofs.Decimal.Shortest

/-! Numerals read back. A whole number is read from its own digits. A finite double is
read from the layout of its shortest digits: whatever the layout, the digits read have
the same value, which lies in the interval of the double. -/
namespace ModuleBundler.Json.Reader

open Decimal

/-! ### Digits -/

theorem digitsValue_eq (chars : List Char) : digitsValue chars = Nat.ofDigitChars 10 chars 0 :=
  rfl

/-- The text after a numeral cannot be taken for a part of it. -/
def Stops (rest : List Char) : Prop :=
  ∀ c ∈ rest.head?, c.isDigit = false ∧ c ≠ '.' ∧ c ≠ 'e' ∧ c ≠ 'E'

theorem Stops.digit {rest : List Char} (stop : Stops rest) : ∀ c ∈ rest.head?, c.isDigit = false :=
  fun c head => (stop c head).1

/-- The digits before the point: one at least, and no zero in front of others. -/
structure Leads (leading : List Char) : Prop where
  all : ∀ c ∈ leading, c.isDigit = true
  some : leading ≠ []
  plain : leading.length = 1 ∨ leading.head? ≠ Option.some '0'

theorem digits_append {front rest : List Char} (all : ∀ c ∈ front, c.isDigit = true)
    (stop : ∀ c ∈ rest.head?, c.isDigit = false) : digits (front ++ rest) = (front, rest) := by
  have none : rest.takeWhile Char.isDigit = [] := by
    cases rest with
    | nil => rfl
    | cons c rest => rw [List.takeWhile_cons, stop c rfl]; rfl
  have whole : rest.dropWhile Char.isDigit = rest := by
    cases rest with
    | nil => rfl
    | cons c rest => rw [List.dropWhile_cons, stop c rfl]; rfl
  rw [digits, List.takeWhile_append_of_pos all, List.dropWhile_append_of_pos all, none, whole,
    List.append_nil]

/-- The first digit of a positive number is not zero. -/
theorem head_toDigits {n : ℕ} (positive : 0 < n) : (Nat.toDigits 10 n).head? ≠ some '0' := by
  induction n using Nat.strong_induction_on with
  | _ n ih =>
    have single : ∀ k < 10, 0 < k → Nat.digitChar k ≠ '0' := by decide
    rw [Nat.toDigits_eq_if (by decide)]
    split
    next small => exact fun zero => single n small positive (Option.some.inj zero)
    next large =>
      rw [List.head?_append_of_ne_nil _ Nat.toDigits_ne_nil]
      exact ih (n / 10) (by omega) (by omega)

theorem isDigit_toDigits (n : ℕ) : ∀ c ∈ Nat.toDigits 10 n, c.isDigit = true :=
  fun _ member => Nat.isDigit_of_mem_toDigits (by decide) (by decide) member

theorem digitsValue_toDigits (n : ℕ) : digitsValue (Nat.toDigits 10 n) = n :=
  Nat.ofDigitChars_ten_toDigits

theorem digitsValue_zeros_behind (front : List Char) (k : ℕ) :
    digitsValue (front ++ List.replicate k '0') = 10 ^ k * digitsValue front := by
  rw [digitsValue_eq, digitsValue_eq, Nat.ofDigitChars_append, Nat.ofDigitChars_replicate_zero]

theorem digitsValue_zeros_before (back : List Char) (k : ℕ) :
    digitsValue (List.replicate k '0' ++ back) = digitsValue back := by
  rw [digitsValue_eq, digitsValue_eq, Nat.ofDigitChars_append, Nat.ofDigitChars_replicate_zero,
    Nat.mul_zero]

theorem isDigit_zeros (k : ℕ) : ∀ c ∈ List.replicate k '0', c.isDigit = true :=
  fun _ member => (List.mem_replicate.mp member).2 ▸ by decide

theorem leads_toDigits (n : ℕ) : Leads (Nat.toDigits 10 n) := by
  refine ⟨isDigit_toDigits n, Nat.toDigits_ne_nil, ?_⟩
  obtain rfl | positive := Nat.eq_zero_or_pos n
  · exact .inl rfl
  · exact .inr (head_toDigits positive)

theorem leads_zero : Leads ['0'] := ⟨isDigit_zeros 1, List.cons_ne_nil _ _, .inl rfl⟩

theorem Leads.not_minus {leading rest : List Char} (leads : Leads leading) :
    (leading ++ rest).head? ≠ Option.some '-' := by
  intro minus
  rw [List.head?_append_of_ne_nil _ leads.some] at minus
  exact absurd (leads.all '-' (List.mem_of_head? minus)) (by decide)

/-! ### A numeral without its sign -/

/-- What is read after the sign. -/
def numeral (negative : Bool) : Reader Json := fun chars => do
  let (leading, chars) := digits chars
  guard (!leading.isEmpty && (leading.length == 1 || leading.head? != some '0'))
  let (places, chars) ← fraction chars
  let (shift, chars) ← exponent chars
  if places.isEmpty && shift.isNone then
    let size : Int := digitsValue leading
    some (.whole (if negative then -size else size), chars)
  else
    let size := Decimal.Digits.toFloat
      ⟨digitsValue (leading ++ places), shift.getD 0 - places.length⟩
    some (.real (if negative then -size else size), chars)

theorem number_minus (chars : List Char) : number ('-' :: chars) = numeral true chars := rfl

theorem number_of_head {chars : List Char} (unsigned : chars.head? ≠ some '-') :
    number chars = numeral false chars := by
  unfold number
  split
  next negative rest parts =>
    split at parts
    next => exact absurd rfl unsigned
    next =>
      obtain ⟨rfl, rfl⟩ := Prod.mk.inj parts
      rfl

/-! ### The fraction and the exponent -/

theorem fraction_point {places rest : List Char} (all : ∀ c ∈ places, c.isDigit = true)
    (some : places ≠ []) (stop : ∀ c ∈ rest.head?, c.isDigit = false) :
    fraction ('.' :: (places ++ rest)) = Option.some (places, rest) := by
  rw [fraction, digits_append all stop]
  cases places with
  | nil => exact absurd rfl some
  | cons c places => rfl

theorem fraction_none {rest : List Char} (stop : rest.head? ≠ some '.') :
    fraction rest = some ([], rest) := by
  unfold fraction
  split
  next => exact absurd rfl stop
  next => rfl

theorem exponent_none {rest : List Char} (stop : Stops rest) :
    exponent rest = some (none, rest) := by
  cases rest with
  | nil => rfl
  | cons c rest =>
    obtain ⟨-, -, lower, upper⟩ := stop c rfl
    unfold exponent
    dsimp only
    rw [if_neg (not_or.mpr ⟨lower, upper⟩)]

theorem exponent_sign {size rest : List Char} (below : Prop) [Decidable below]
    (all : ∀ c ∈ size, c.isDigit = true) (some : size ≠ [])
    (stop : ∀ c ∈ rest.head?, c.isDigit = false) :
    exponent ('e' :: (if below then '-' else '+') :: (size ++ rest)) =
      Option.some (Option.some (if below then -(digitsValue size : ℤ) else digitsValue size),
        rest) := by
  have found := digits_append all stop
  cases size with
  | nil => exact absurd rfl some
  | cons c size =>
    by_cases sign : below
    · rw [if_pos sign, if_pos sign]
      simp only [exponent, true_or, if_true]
      rw [found]
    · rw [if_neg sign, if_neg sign]
      simp only [exponent, true_or, if_true]
      rw [found]
      rfl

/-! ### From parts to a numeral -/

/-- A numeral without a sign stands for itself. -/
theorem number_of_numeral {chars : List Char} {answer : Json × List Char}
    (found : numeral false chars = some answer) : number chars = some answer := by
  by_cases minus : chars.head? = some '-'
  · obtain ⟨rest, rfl⟩ := List.head?_eq_some_iff.mp minus
    have none : numeral false ('-' :: rest) = Option.none := rfl
    rw [none] at found
    contradiction
  · rw [number_of_head minus, found]

section Numeral

variable {negative : Bool} {leading middle places after rest : List Char} {shift : Option ℤ}

theorem Leads.guard (leads : Leads leading) :
    (!leading.isEmpty && (leading.length == 1 || leading.head? != Option.some '0')) = true := by
  simp [leads.some, leads.plain]

theorem numeral_whole (leads : Leads leading) (stop : Stops rest) :
    numeral negative (leading ++ rest) =
      some (.whole (if negative then -digitsValue leading else digitsValue leading), rest) := by
  have point : rest.head? ≠ some '.' := fun head => (stop _ head).2.1 rfl
  unfold numeral
  rw [digits_append leads.all stop.digit]
  dsimp only
  rw [leads.guard, fraction_none point]
  simp only [guard_true, Option.pure_def, Option.bind_eq_bind, Option.bind_some]
  rw [exponent_none stop]
  rfl

theorem numeral_real {e : Digits} (leads : Leads leading)
    (next : ∀ c ∈ middle.head?, c.isDigit = false) (behind : fraction middle = some (places, after))
    (last : exponent after = some (shift, rest)) (marked : places ≠ [] ∨ shift ≠ none)
    (sum : e = ⟨digitsValue (leading ++ places), shift.getD 0 - places.length⟩) :
    numeral negative (leading ++ middle) =
      some (.real (if negative then -e.toFloat else e.toFloat), rest) := by
  have real : (places.isEmpty && shift.isNone) = false := by
    rw [Bool.and_eq_false_iff]
    exact marked.imp (by simp) (by simp [Option.isSome_iff_ne_none])
  unfold numeral
  rw [digits_append leads.all next, sum]
  dsimp only
  rw [leads.guard, behind]
  simp only [guard_true, Option.pure_def, Option.bind_eq_bind, Option.bind_some]
  rw [last]
  simp only [Option.bind_some]
  rw [real]
  rfl

end Numeral

/-! ### Whole numbers -/

theorem toList_negSucc (k : ℕ) :
    (toString (Int.negSucc k)).toList = '-' :: Nat.toDigits 10 (k + 1) := by
  have minus : toString (Int.negSucc k) = "-" ++ (k + 1).repr := rfl
  rw [minus, String.toList_append, Nat.toList_repr]
  rfl

theorem number_whole (n : ℤ) {rest : List Char} (stop : Stops rest) :
    number ((toString n).toList ++ rest) = some (.whole n, rest) := by
  cases n with
  | ofNat k =>
    have text : (toString (Int.ofNat k)).toList = Nat.toDigits 10 k := Nat.toList_repr
    rw [text, number_of_head (leads_toDigits k).not_minus, numeral_whole (leads_toDigits k) stop,
      digitsValue_toDigits]
    rfl
  | negSucc k =>
    rw [toList_negSucc, List.cons_append, number_minus, numeral_whole (leads_toDigits (k + 1)) stop,
      digitsValue_toDigits]
    rfl

/-! ### Layouts -/

theorem toList_layout (d : Digits) :
    let digits := Nat.toDigits 10 d.coefficient
    let point : ℤ := digits.length + d.place
    let size := Nat.toDigits 10 (point - 1).natAbs
    d.layout.toList =
      if -4 < point ∧ point ≤ 16 then
        if 0 ≤ d.place then digits ++ List.replicate d.place.toNat '0' ++ ['.', '0']
        else if 0 < point then digits.take point.toNat ++ '.' :: digits.drop point.toNat
        else '0' :: '.' :: (List.replicate (-point).toNat '0' ++ digits)
      else digits.take 1 ++ ((if 1 < digits.length then '.' :: digits.drop 1 else []) ++
        'e' :: (if point - 1 < 0 then '-' else '+') ::
          (List.replicate (2 - size.length) '0' ++ size)) := by
  intro digits point size
  have text (k : ℕ) : (toString k).toList = Nat.toDigits 10 k := Nat.toList_repr
  have length (k : ℕ) : (toString k).length = (Nat.toDigits 10 k).length := by
    rw [← text, String.length_toList]
  have zeros (k : ℕ) : (zeros k).toList = List.replicate k '0' := String.toList_ofList
  unfold Digits.layout
  simp only [length, ge_iff_le, apply_ite String.toList, String.toList_append, text,
    String.toList_ofList, zeros]
  refine if_congr Iff.rfl (if_congr Iff.rfl rfl (if_congr Iff.rfl ?_ ?_)) ?_
  · exact List.append_assoc ..
  · rfl
  · have mark : (if point - 1 < 0 then "e-".toList else "e+".toList) =
        ['e', if point - 1 < 0 then '-' else '+'] := by
      split <;> rfl
    rw [mark]
    simp only [List.append_assoc]
    rfl

section Layout

variable {d : Digits} {leading size rest : List Char} {negative : Bool}

theorem head_cons {c : Char} (other : c.isDigit = false) (rest : List Char) :
    ∀ d ∈ (c :: rest).head?, d.isDigit = false :=
  fun _ head => Option.some.inj head ▸ other

theorem numeral_point (places : List Char) {e : Digits} (leads : Leads leading)
    (all : ∀ c ∈ places, c.isDigit = true) (present : places ≠ []) (stop : Stops rest)
    (sum : e = ⟨digitsValue (leading ++ places), -places.length⟩) :
    numeral negative (leading ++ '.' :: places ++ rest) =
      some (.real (if negative then -e.toFloat else e.toFloat), rest) := by
  rw [List.append_assoc, List.cons_append]
  refine numeral_real leads (head_cons (by decide) _) (fraction_point all present stop.digit)
    (exponent_none stop) (.inl present) ?_
  rw [sum, Option.getD_none, zero_sub]

theorem numeral_power {places : List Char} {e : Digits} {marked below : Prop} [Decidable marked]
    [Decidable below] (leads : Leads leading) (all : ∀ c ∈ places, c.isDigit = true)
    (point : marked ↔ places ≠ []) (all' : ∀ c ∈ size, c.isDigit = true) (present : size ≠ [])
    (stop : Stops rest)
    (sum : e = ⟨digitsValue (leading ++ places),
      (if below then -(digitsValue size : ℤ) else digitsValue size) - places.length⟩) :
    numeral negative (leading ++ ((if marked then '.' :: places else []) ++
      'e' :: (if below then '-' else '+') :: size) ++ rest) =
      some (.real (if negative then -e.toFloat else e.toFloat), rest) := by
  have last := exponent_sign below all' present stop.digit
  rw [List.append_assoc, List.append_assoc, List.cons_append, List.cons_append]
  by_cases none : places = []
  · rw [if_neg (mt point.mp (not_not_intro none)), List.nil_append]
    exact numeral_real leads (head_cons (by decide) _)
      (none ▸ fraction_none fun head => absurd (Option.some.inj head) (by decide)) last
      (.inr (Option.some_ne_none _)) sum
  · rw [if_pos (point.mpr none), List.cons_append]
    exact numeral_real leads (head_cons (by decide) _)
      (fraction_point all none (head_cons (by decide) _)) last (.inl none) sum

/-- The digits of a positive number. -/
structure Written (digits : List Char) (n : ℕ) : Prop where
  all : ∀ c ∈ digits, c.isDigit = true
  present : 0 < digits.length
  first : digits.head? ≠ some '0'
  value : digitsValue digits = n
  short : n < 10 ^ digits.length

theorem written_toDigits {n : ℕ} (positive : 0 < n) : Written (Nat.toDigits 10 n) n :=
  ⟨isDigit_toDigits n, Nat.length_toDigits_pos, head_toDigits positive, digitsValue_toDigits n,
    (Nat.length_toDigits_le_iff (by decide) Nat.length_toDigits_pos).mp le_rfl⟩

namespace Written

variable {digits : List Char} {point : ℤ}

theorem leads_take (written : Written digits d.coefficient) {k : ℕ} (some : 0 < k) :
    Leads (digits.take k) := by
  refine ⟨fun c member => written.all c (List.mem_of_mem_take member), ?_, .inr ?_⟩
  · have present := written.present
    exact List.ne_nil_of_length_pos (by rw [List.length_take]; omega)
  · rw [List.head?_take, if_neg some.ne']
    exact written.first

theorem leads_append (written : Written digits d.coefficient) (k : ℕ) :
    Leads (digits ++ List.replicate k '0') := by
  have some := List.ne_nil_of_length_pos written.present
  refine ⟨fun c member => (List.mem_append.mp member).elim (written.all c) (isDigit_zeros k c),
    List.append_ne_nil_of_left_ne_nil some _, .inr ?_⟩
  rw [List.head?_append_of_ne_nil _ some]
  exact written.first

/-- Zeros up to the point and one behind it belong to the digits that are read. -/
theorem long (written : Written digits d.coefficient) (shown : digits.length + d.place = point)
    (positional : point ≤ 16) (whole : 0 ≤ d.place) (stop : Stops rest) :
    ∃ e : Digits, e.value = d.value ∧ e.coefficient < 2 ^ 64 ∧ ∀ negative,
      numeral negative (digits ++ List.replicate d.place.toNat '0' ++ ['.', '0'] ++ rest) =
        some (.real (if negative then -e.toFloat else e.toFloat), rest) := by
  have place : d.place = ((d.place.toNat + 1 : ℕ) : ℤ) - 1 := by omega
  have zeros : digits ++ List.replicate d.place.toNat '0' ++ ['0'] =
      digits ++ List.replicate (d.place.toNat + 1) '0' := by
    rw [List.append_assoc, List.replicate_succ']
  refine ⟨⟨10 ^ (d.place.toNat + 1) * d.coefficient, -1⟩, ?_, ?_, fun negative => ?_⟩
  · rw [Digits.value, Digits.value]
    conv_rhs => rw [place]
    rw [zpow_sub₀ (by norm_num), zpow_natCast]
    push_cast
    ring
  · calc 10 ^ (d.place.toNat + 1) * d.coefficient
        ≤ 10 ^ (d.place.toNat + 1) * 10 ^ digits.length := Nat.mul_le_mul_left _ written.short.le
      _ = 10 ^ (d.place.toNat + 1 + digits.length) := (Nat.pow_add ..).symm
      _ ≤ 10 ^ 17 := Nat.pow_le_pow_right (by decide) (by omega)
      _ < 2 ^ 64 := by decide
  · refine numeral_point ['0'] (written.leads_append _) (isDigit_zeros 1) (List.cons_ne_nil _ _)
      stop ?_
    rw [zeros, digitsValue_zeros_behind, written.value]
    rfl

/-- The point stands between the digits. -/
theorem inside (written : Written digits d.coefficient) (shown : digits.length + d.place = point)
    (whole : d.place < 0) (inside : 0 < point) (stop : Stops rest) :
    numeral negative (digits.take point.toNat ++ '.' :: digits.drop point.toNat ++ rest) =
      some (.real (if negative then -d.toFloat else d.toFloat), rest) := by
  have place : d.place = -((digits.length - point.toNat : ℕ) : ℤ) := by omega
  refine numeral_point _ (written.leads_take (by omega))
    (fun c member => written.all c (List.mem_of_mem_drop member)) ?_ stop ?_
  · exact List.ne_nil_of_length_pos (by rw [List.length_drop]; omega)
  · rw [List.take_append_drop, written.value, List.length_drop, ← place]

/-- Zeros stand between the point and the digits. -/
theorem below (written : Written digits d.coefficient) (shown : digits.length + d.place = point)
    (outside : point ≤ 0) (stop : Stops rest) :
    numeral negative ('0' :: '.' :: (List.replicate (-point).toNat '0' ++ digits) ++ rest) =
      some (.real (if negative then -d.toFloat else d.toFloat), rest) := by
  have place : d.place = -(((-point).toNat + digits.length : ℕ) : ℤ) := by omega
  have all : ∀ c ∈ List.replicate (-point).toNat '0' ++ digits, c.isDigit = true :=
    fun c member => (List.mem_append.mp member).elim (isDigit_zeros _ c) (written.all c)
  have zero : ['0'] ++ (List.replicate (-point).toNat '0' ++ digits) =
      List.replicate ((-point).toNat + 1) '0' ++ digits := rfl
  refine numeral_point _ leads_zero all
    (List.append_ne_nil_of_right_ne_nil _ (List.ne_nil_of_length_pos written.present)) stop ?_
  rw [zero, digitsValue_zeros_before, written.value, List.length_append, List.length_replicate,
    ← place]

/-- One digit stands before the point and an exponent behind. -/
theorem power (written : Written digits d.coefficient) (shown : digits.length + d.place = point)
    (width : ℕ) (stop : Stops rest) :
    numeral negative (digits.take 1 ++ ((if 1 < digits.length then '.' :: digits.drop 1 else []) ++
      'e' :: (if point - 1 < 0 then '-' else '+') ::
        (List.replicate width '0' ++ Nat.toDigits 10 (point - 1).natAbs)) ++ rest) =
      some (.real (if negative then -d.toFloat else d.toFloat), rest) := by
  have present := written.present
  have place : d.place = (if point - 1 < 0 then -((point - 1).natAbs : ℤ)
      else (point - 1).natAbs) - (digits.length - 1 : ℕ) := by
    split <;> omega
  refine numeral_power (written.leads_take Nat.one_pos)
    (fun c member => written.all c (List.mem_of_mem_drop member)) ?_ ?_ ?_ stop ?_
  · rw [ne_eq, List.drop_eq_nil_iff, not_le]
  · exact fun c member =>
      (List.mem_append.mp member).elim (isDigit_zeros _ c) (isDigit_toDigits _ c)
  · exact List.append_ne_nil_of_right_ne_nil _ Nat.toDigits_ne_nil
  · rw [List.take_append_drop, written.value, List.length_drop, digitsValue_zeros_before,
      digitsValue_toDigits, ← place]

end Written

/-- The layout of digits is a numeral of the same value. -/
theorem numeral_layout (positive : 0 < d.coefficient) (small : d.coefficient < 2 ^ 64)
    (stop : Stops rest) :
    ∃ e : Digits, e.value = d.value ∧ e.coefficient < 2 ^ 64 ∧ ∀ negative,
      numeral negative (d.layout.toList ++ rest) =
        some (.real (if negative then -e.toFloat else e.toFloat), rest) := by
  have written := written_toDigits positive
  rw [toList_layout]
  split
  next positional =>
    split
    next whole => exact written.long rfl positional.2 whole stop
    next fractional =>
      refine ⟨d, rfl, small, fun _ => ?_⟩
      split
      next inside => exact written.inside rfl (not_le.mp fractional) inside stop
      next below => exact written.below rfl (not_lt.mp below) stop
  next => exact ⟨d, rfl, small, fun _ => written.power rfl _ stop⟩

end Layout

/-! ### Doubles -/

/-- The text of a magnitude, whatever its sign. -/
theorem numeral_magnitude {m : Magnitude} (double : m.IsDouble) {rest : List Char}
    (stop : Stops rest) (negative : Bool) :
    numeral negative ((if m.significand = 0 then "0.0" else m.shortest.layout).toList ++ rest) =
      some (.real (pack (signOf negative) m), rest) := by
  have signed : pack (signOf negative) m =
      if negative then -pack .positive m else pack .positive m := by
    cases negative
    · rfl
    · exact (Magnitude.neg_pack double).symm
  rw [signed]
  obtain zero | positive := Nat.eq_zero_or_pos m.significand
  · have text : (if m.significand = 0 then "0.0" else m.shortest.layout).toList =
        ['0'] ++ '.' :: ['0'] := by
      rw [if_pos zero]
      rfl
    have none : pack .positive m = Digits.toFloat ⟨0, -1⟩ := by
      rw [Magnitude.pack_of_zero zero]
      decide +kernel
    rw [text, none]
    exact numeral_point ['0'] leads_zero (isDigit_zeros 1) (List.cons_ne_nil _ _) stop rfl
  · obtain ⟨within, short⟩ := Magnitude.shortest_within double positive
    obtain ⟨e, same, small, reads⟩ := numeral_layout (within.coefficient_pos positive)
      (short.trans_lt (by decide)) stop
    rw [if_neg positive.ne', reads, toFloat_of_within double positive small (same ▸ within)]

/-- A finite double is read from its text. -/
theorem number_real {x : Float} (finite : x.isFinite = true) {rest : List Char}
    (stop : Stops rest) :
    number ((Decimal.text .json x).toList ++ rest) = some (.real x, rest) := by
  obtain ⟨negative, m, reads⟩ := read_of_isFinite finite
  obtain ⟨double, packed⟩ := pack_read reads
  have found := numeral_magnitude double stop negative
  rw [packed] at found
  unfold Decimal.text
  rw [reads]
  dsimp only
  cases negative with
  | false => exact number_of_numeral found
  | true =>
    rw [signed, if_pos rfl, String.toList_append, List.append_assoc]
    exact found

end ModuleBundler.Json.Reader
