import Mathlib.Tactic.SplitIfs
import ModuleBundler.Json.Printer
import ModuleBundler.Json.Reader

/-! Quoted texts read back. Each character is read from its own escape, one beyond the
basic plane from both of its units, so a text is read up to its closing quote and no
character of it can be taken for the quote. -/
namespace ModuleBundler.Json

/-- A printable character of ASCII. -/
def IsPlain (c : Char) : Prop := 0x20 ≤ c.toNat ∧ c.toNat ≤ 0x7E

instance : DecidablePred IsPlain := fun _ => inferInstanceAs (Decidable (_ ∧ _))

namespace Reader

/-! ### Units -/

theorem hexValue?_digitChar : ∀ k < 16, hexValue? (Nat.digitChar k) = some k := by
  decide

theorem unit_hexDigits {n : Nat} (small : n < 0x10000) (rest : List Char) :
    unit (Text.hexDigits 4 n ++ rest) = some (n, rest) := by
  have digits : Text.hexDigits 4 n ++ rest = (n / 4096 % 16).digitChar ::
      (n / 256 % 16).digitChar :: (n / 16 % 16).digitChar :: (n / 1 % 16).digitChar :: rest := rfl
  have value (k : Nat) : hexValue? (k % 16).digitChar = some (k % 16) :=
    hexValue?_digitChar _ (Nat.mod_lt _ (by decide))
  rw [digits, unit]
  simp only [List.mapM_cons, List.mapM_nil, value, Option.bind_eq_bind, Option.bind_some,
    Option.pure_def, List.foldl_cons, List.foldl_nil, Option.some.injEq, Prod.mk.injEq, and_true]
  omega

/-- A character of the basic plane is its own unit, and no unit of it is a surrogate. -/
theorem escapedUnit_basic {c : Char} (basic : c.toNat < 0x10000) (rest : List Char) :
    escapedUnit (Text.hexDigits 4 c.toNat ++ rest) = some (c, rest) := by
  have valid : c.toNat < 0xD800 ∨ 0xDFFF < c.toNat ∧ c.toNat < 0x110000 := c.valid
  unfold escapedUnit
  simp only [unit_hexDigits basic, Option.bind_eq_bind, Option.bind_some]
  rw [if_neg (by omega), if_neg (by omega), Char.ofNat_toNat]

theorem escapedUnit_surrogates {high low : Nat} (high₁ : 0xD800 ≤ high) (high₂ : high < 0xDC00)
    (low₁ : 0xDC00 ≤ low) (low₂ : low < 0xE000) (rest : List Char) :
    escapedUnit (Text.hexDigits 4 high ++ (escapeUnit low ++ rest)) =
      some (Char.ofNat (0x10000 + (high - 0xD800) * 0x400 + (low - 0xDC00)), rest) := by
  unfold escapedUnit
  rw [unit_hexDigits (by omega)]
  simp only [Option.bind_eq_bind, Option.bind_some]
  rw [if_pos ⟨high₁, high₂⟩]
  change ((unit (Text.hexDigits 4 low ++ rest)).bind fun found =>
    if 0xDC00 ≤ found.1 ∧ found.1 < 0xE000 then
      some (Char.ofNat (0x10000 + (high - 0xD800) * 0x400 + (found.1 - 0xDC00)), found.2)
    else none) = _
  rw [unit_hexDigits (by omega)]
  simp only [Option.bind_some]
  rw [if_pos ⟨low₁, low₂⟩]

/-- The units of a character beyond the basic plane hold its offset. -/
theorem escapedUnit_beyond {c : Char} (beyond : 0x10000 ≤ c.toNat) (rest : List Char) :
    escapedUnit (Text.hexDigits 4 (0xD800 + (c.toNat - 0x10000) / 0x400) ++
      (escapeUnit (0xDC00 + (c.toNat - 0x10000) % 0x400) ++ rest)) = some (c, rest) := by
  have valid : c.toNat < 0xD800 ∨ 0xDFFF < c.toNat ∧ c.toNat < 0x110000 := c.valid
  have whole : 0x10000 + (0xD800 + (c.toNat - 0x10000) / 0x400 - 0xD800) * 0x400 +
      (0xDC00 + (c.toNat - 0x10000) % 0x400 - 0xDC00) = c.toNat := by omega
  rw [escapedUnit_surrogates (by omega) (by omega) (by omega) (by omega), whole, Char.ofNat_toNat]

/-! ### Characters -/

theorem stringTail_escaped {chars rest done : List Char} {c : Char}
    (found : escaped chars = some (c, rest)) :
    stringTail done ('\\' :: chars) = stringTail (c :: done) rest := by
  rw [stringTail]
  split
  next found' =>
    rw [found] at found'
    obtain ⟨rfl, rfl⟩ := Prod.mk.inj (Option.some.inj found')
    rfl
  next missing =>
    rw [found] at missing
    contradiction

theorem stringTail_plain {c : Char} (done rest : List Char) (other : c ≠ '\\') (inner : c ≠ '"')
    (printable : 0x20 ≤ c.toNat) : stringTail done (c :: rest) = stringTail (c :: done) rest := by
  rw [stringTail]
  · rw [if_neg inner, if_neg (Nat.not_lt.mpr printable)]
  · exact fun same => absurd same other

theorem stringTail_quote (done rest : List Char) :
    stringTail done ('"' :: rest) = some (done, rest) := by
  rw [stringTail, if_pos rfl]
  decide

/-- A character is written as a mark behind a backslash, as itself or in units. -/
theorem escapeChar_cases (c : Char) :
    (∃ mark, escapeChar c = ['\\', mark] ∧ IsPlain mark ∧
      ∀ rest, escaped (mark :: rest) = some (c, rest)) ∨
    (escapeChar c = [c] ∧ IsPlain c ∧ c ≠ '\\' ∧ c ≠ '"') ∨
    escapeChar c = (units c).flatMap escapeUnit := by
  unfold escapeChar
  split_ifs with quote slash feed back tab form bell printable
  · exact .inl ⟨'"', rfl, by decide, fun _ => by rw [quote]; rfl⟩
  · exact .inl ⟨'\\', rfl, by decide, fun _ => by rw [slash]; rfl⟩
  · exact .inl ⟨'n', rfl, by decide, fun _ => by rw [feed]; rfl⟩
  · exact .inl ⟨'r', rfl, by decide, fun _ => by rw [back]; rfl⟩
  · exact .inl ⟨'t', rfl, by decide, fun _ => by rw [tab]; rfl⟩
  · exact .inl ⟨'f', rfl, by decide, fun _ => by rw [form]; rfl⟩
  · exact .inl ⟨'b', rfl, by decide, fun _ => by rw [bell]; rfl⟩
  · exact .inr (.inl ⟨rfl, printable, slash, quote⟩)
  · exact .inr (.inr rfl)

/-- One character is read from its own escape, and nothing else. -/
theorem stringTail_escapeChar (c : Char) (done rest : List Char) :
    stringTail done (escapeChar c ++ rest) = stringTail (c :: done) rest := by
  obtain ⟨mark, written, -, reads⟩ | ⟨written, printable, other, inner⟩ | written :=
    escapeChar_cases c
  · rw [written]
    exact stringTail_escaped (reads rest)
  · rw [written]
    exact stringTail_plain done rest other inner printable.1
  · rw [written, units]
    split
    next basic =>
      rw [List.flatMap_cons, List.flatMap_nil, List.append_nil]
      exact stringTail_escaped (escapedUnit_basic basic rest)
    next beyond =>
      dsimp only
      rw [List.flatMap_cons, List.flatMap_cons, List.flatMap_nil, List.append_nil,
        List.append_assoc]
      exact stringTail_escaped (escapedUnit_beyond (Nat.not_lt.mp beyond) rest)

theorem stringTail_flatMap (text done rest : List Char) :
    stringTail done (text.flatMap escapeChar ++ '"' :: rest) =
      some (text.reverse ++ done, rest) := by
  induction text generalizing done with
  | nil => exact stringTail_quote done rest
  | cons c text ih =>
    rw [List.flatMap_cons, List.append_assoc, stringTail_escapeChar, ih, List.reverse_cons,
      List.append_assoc]
    rfl

theorem symbol_of_skipSpace {c : Char} {chars rest : List Char}
    (front : skipSpace chars = c :: rest) : symbol c chars = some rest := by
  rw [symbol, front]
  exact if_pos rfl

theorem symbol_of_ne {c other : Char} {chars rest : List Char}
    (front : skipSpace chars = other :: rest) (apart : other ≠ c) : symbol c chars = none := by
  rw [symbol, front]
  exact if_neg apart

/-- A quoted text is read whole, with blanks before it or without. -/
theorem string_quote {chars rest : List Char} {text : String}
    (front : skipSpace chars = quote text ++ rest) : string chars = some (text, rest) := by
  have opened : skipSpace chars = '"' :: (text.toList.flatMap escapeChar ++ '"' :: rest) := by
    rw [front, quote, List.append_assoc]
    rfl
  unfold string
  rw [symbol_of_skipSpace opened]
  simp only [Option.bind_eq_bind, Option.bind_some]
  rw [stringTail_flatMap, Option.bind_some, List.append_nil, List.reverse_reverse,
    String.ofList_toList]

end Reader

end ModuleBundler.Json
