import ModuleBundler.Text.Bytes

/-! Characters in bytes. Every text that is cut off within its bytes is a text and the
beginning of one more character, which some of the usual completions make whole. So the
front of valid bytes can be read wherever they are cut, and what is left is valid. -/
namespace ModuleBundler.Text

open String (utf8EncodeChar)

section Validity

variable {b front rest : ByteArray} {s : String}

theorem fromUTF8?_eq_some_iff : String.fromUTF8? b = some s ↔ b = s.toUTF8 := by
  rw [String.fromUTF8?]
  split
  next valid =>
    rw [Option.some.injEq]
    constructor
    · rintro rfl
      rfl
    · rintro rfl
      rfl
  next invalid =>
    constructor
    · intro found
      cases found
    · rintro rfl
      exact absurd s.isValidUTF8 invalid

theorem isValid_toUTF8 (s : String) : s.toUTF8.IsValidUTF8 := s.isValidUTF8

theorem exists_eq_toUTF8 (valid : b.IsValidUTF8) : ∃ s : String, b = s.toUTF8 :=
  ⟨.ofByteArray b valid, rfl⟩

theorem isSome_fromUTF8? : (String.fromUTF8? b).isSome ↔ b.IsValidUTF8 := by
  rw [String.fromUTF8?]
  split <;> simp [*]

/-- Bytes behind valid ones are valid just if all are. -/
theorem isValid_append_iff (valid : front.IsValidUTF8) :
    (front ++ rest).IsValidUTF8 ↔ rest.IsValidUTF8 := by
  constructor
  · rintro ⟨all, form⟩
    obtain ⟨some, rfl⟩ := valid
    obtain ⟨more, rfl⟩ := List.isPrefix_of_utf8Encode_append_eq_utf8Encode rest form
    rw [List.utf8Encode_append, ByteArray.append_right_inj] at form
    exact ⟨more, form⟩
  · exact valid.append

end Validity

section Cutting

variable {n : Nat}

theorem toNat_ofNat (valid : n.isValidChar) : (Char.ofNat n).val.toNat = n := by
  rw [Char.ofNat, dif_pos valid]
  rfl

theorem encode_one (low : n < 0x80) : (utf8EncodeChar (Char.ofNat n)).length = 1 := by
  rw [utf8EncodeChar, toNat_ofNat (Or.inl (by omega)), if_pos (by omega)]
  rfl

theorem encode_two (low : 0x80 ≤ n) (high : n < 0x800) :
    utf8EncodeChar (Char.ofNat n) =
      [UInt8.ofNat (n / 64 % 32 + 0xC0), UInt8.ofNat (n % 64 + 0x80)] := by
  rw [utf8EncodeChar, toNat_ofNat (Or.inl (by omega)), if_neg (by omega), if_pos (by omega)]

theorem encode_three (low : 0x800 ≤ n) (high : n < 0x10000) (valid : n.isValidChar) :
    utf8EncodeChar (Char.ofNat n) = [UInt8.ofNat (n / 4096 % 16 + 0xE0),
      UInt8.ofNat (n / 64 % 64 + 0x80), UInt8.ofNat (n % 64 + 0x80)] := by
  rw [utf8EncodeChar, toNat_ofNat valid, if_neg (by omega), if_neg (by omega), if_pos (by omega)]

theorem encode_four (low : 0x10000 ≤ n) (high : n < 0x110000) :
    utf8EncodeChar (Char.ofNat n) = [UInt8.ofNat (n / 262144 % 8 + 0xF0),
      UInt8.ofNat (n / 4096 % 64 + 0x80), UInt8.ofNat (n / 64 % 64 + 0x80),
      UInt8.ofNat (n % 64 + 0x80)] := by
  rw [utf8EncodeChar, toNat_ofNat (Or.inr ⟨by omega, high⟩), if_neg (by omega),
    if_neg (by omega), if_neg (by omega)]

/-- Some completion makes a character of the bytes. -/
def Begins (bytes : List UInt8) : Prop :=
  ∃ rest ∈ completions, ∃ d : Char, utf8EncodeChar d = bytes ++ rest

-- A character that is cut off is completed by zeros for the digits that are lost, unless these
-- make its number too small for the bytes that are left.

theorem begins_two (low : 0x80 ≤ n) (high : n < 0x800) :
    Begins ((utf8EncodeChar (Char.ofNat n)).take 1) := by
  refine ⟨[0x80], by decide, Char.ofNat (n / 64 * 64), ?_⟩
  have first : n / 64 * 64 / 64 = n / 64 := by omega
  have second : n / 64 * 64 % 64 = 0 := by omega
  rw [encode_two low high, encode_two (by omega) (by omega), first, second]
  rfl

theorem begins_three (low : 0x800 ≤ n) (high : n < 0x10000) (valid : n.isValidChar) :
    Begins ((utf8EncodeChar (Char.ofNat n)).take 1) ∧
      Begins ((utf8EncodeChar (Char.ofNat n)).take 2) := by
  rw [encode_three low high valid]
  unfold Nat.isValidChar at valid
  constructor
  · by_cases least : n / 4096 = 0
    · refine ⟨[0xA0, 0x80], by decide, Char.ofNat 0x800, ?_⟩
      rw [least]
      rfl
    · refine ⟨[0x80, 0x80], by decide, Char.ofNat (n / 4096 * 4096), ?_⟩
      have first : n / 4096 * 4096 / 4096 = n / 4096 := by omega
      have second : n / 4096 * 4096 / 64 % 64 = 0 := by omega
      have third : n / 4096 * 4096 % 64 = 0 := by omega
      have kept : (n / 4096 * 4096).isValidChar := by
        unfold Nat.isValidChar
        omega
      rw [encode_three (by omega) (by omega) kept, first, second, third]
      rfl
  · refine ⟨[0x80], by decide, Char.ofNat (n / 64 * 64), ?_⟩
    have first : n / 64 * 64 / 4096 = n / 4096 := by omega
    have second : n / 64 * 64 / 64 = n / 64 := by omega
    have third : n / 64 * 64 % 64 = 0 := by omega
    have kept : (n / 64 * 64).isValidChar := by
      unfold Nat.isValidChar
      omega
    rw [encode_three (by omega) (by omega) kept, first, second, third]
    rfl

theorem begins_four (low : 0x10000 ≤ n) (high : n < 0x110000) :
    Begins ((utf8EncodeChar (Char.ofNat n)).take 1) ∧
      Begins ((utf8EncodeChar (Char.ofNat n)).take 2) ∧
      Begins ((utf8EncodeChar (Char.ofNat n)).take 3) := by
  rw [encode_four low high]
  refine ⟨?_, ?_, ?_⟩
  · by_cases least : n / 262144 = 0
    · refine ⟨[0x90, 0x80, 0x80], by decide, Char.ofNat 0x10000, ?_⟩
      rw [least]
      rfl
    · refine ⟨[0x80, 0x80, 0x80], by decide, Char.ofNat (n / 262144 * 262144), ?_⟩
      have first : n / 262144 * 262144 / 262144 = n / 262144 := by omega
      have second : n / 262144 * 262144 / 4096 % 64 = 0 := by omega
      have third : n / 262144 * 262144 / 64 % 64 = 0 := by omega
      have fourth : n / 262144 * 262144 % 64 = 0 := by omega
      rw [encode_four (by omega) (by omega), first, second, third, fourth]
      rfl
  · refine ⟨[0x80, 0x80], by decide, Char.ofNat (n / 4096 * 4096), ?_⟩
    have first : n / 4096 * 4096 / 262144 = n / 262144 := by omega
    have second : n / 4096 * 4096 / 4096 = n / 4096 := by omega
    have third : n / 4096 * 4096 / 64 % 64 = 0 := by omega
    have fourth : n / 4096 * 4096 % 64 = 0 := by omega
    rw [encode_four (by omega) (by omega), first, second, third, fourth]
    rfl
  · refine ⟨[0x80], by decide, Char.ofNat (n / 64 * 64), ?_⟩
    have first : n / 64 * 64 / 262144 = n / 262144 := by omega
    have second : n / 64 * 64 / 4096 = n / 4096 := by omega
    have third : n / 64 * 64 / 64 = n / 64 := by omega
    have fourth : n / 64 * 64 % 64 = 0 := by omega
    rw [encode_four (by omega) (by omega), first, second, third, fourth]
    rfl

theorem begins_take (c : Char) {count : Nat} (some : 0 < count)
    (cut : count < (utf8EncodeChar c).length) : Begins ((utf8EncodeChar c).take count) := by
  obtain ⟨n, rfl, valid⟩ : ∃ n, c = Char.ofNat n ∧ n.isValidChar := ⟨c.toNat, by simp, c.valid⟩
  by_cases one : n < 0x80
  · rw [encode_one one] at cut
    omega
  by_cases two : n < 0x800
  · rw [encode_two (by omega) two] at cut
    obtain rfl : count = 1 := by simp at cut; omega
    exact begins_two (by omega) two
  by_cases three : n < 0x10000
  · rw [encode_three (by omega) three valid] at cut
    obtain ⟨first, second⟩ := begins_three (by omega) three valid
    obtain rfl | rfl : count = 1 ∨ count = 2 := by simp at cut; omega
    · exact first
    · exact second
  · have high : n < 0x110000 := by
      unfold Nat.isValidChar at valid
      omega
    rw [encode_four (by omega) high] at cut
    obtain ⟨first, second, third⟩ := begins_four (by omega) high
    obtain rfl | rfl | rfl : count = 1 ∨ count = 2 ∨ count = 3 := by simp at cut; omega
    · exact first
    · exact second
    · exact third

end Cutting

section Front

variable {b rest : ByteArray} {text : String} {used : Nat}

theorem length_utf8EncodeChar_le (c : Char) : (utf8EncodeChar c).length ≤ 4 :=
  String.length_utf8EncodeChar c ▸ c.utf8Size_le_four

/-- The front of a text in bytes is a text and less than a character. -/
theorem exists_cut {chars : List Char} {front back : List UInt8}
    (whole : chars.flatMap utf8EncodeChar = front ++ back) :
    ∃ kept tail, front = List.flatMap utf8EncodeChar kept ++ tail ∧ tail.length ≤ 3 ∧
      (tail = [] ∨ Begins tail) := by
  induction chars generalizing front with
  | nil =>
    obtain ⟨rfl, -⟩ := List.append_eq_nil_iff.mp whole.symm
    exact ⟨[], [], rfl, by simp, .inl rfl⟩
  | cons c chars ih =>
    rw [List.flatMap_cons] at whole
    by_cases fits : (utf8EncodeChar c).length ≤ front.length
    · obtain ⟨more, rfl⟩ : utf8EncodeChar c <+: front :=
        List.prefix_of_prefix_length_le (whole ▸ List.prefix_append _ _) (List.prefix_append _ _) fits
      rw [List.append_assoc, List.append_cancel_left_eq] at whole
      obtain ⟨kept, tail, rfl, short, begun⟩ := ih whole
      exact ⟨c :: kept, tail, by simp, short, begun⟩
    · have inside : front <+: utf8EncodeChar c :=
        List.prefix_of_prefix_length_le (List.prefix_append _ back)
          (whole ▸ List.prefix_append _ _) (by omega)
      refine ⟨[], front, rfl, ?_, ?_⟩
      · have := length_utf8EncodeChar_le c
        omega
      · by_cases some : front = []
        · exact .inl some
        · right
          rw [List.prefix_iff_eq_take.mp inside]
          exact begins_take c (List.length_pos_iff.mpr some) (by omega)

theorem isUnfinished_of_begins {bytes : List UInt8} (begun : Begins bytes) :
    isUnfinished bytes.toByteArray = true := by
  obtain ⟨rest, member, d, form⟩ := begun
  refine List.any_eq_true.mpr ⟨rest, member, isSome_fromUTF8?.mpr ⟨[d], ?_⟩⟩
  rw [List.utf8Encode_singleton, form, List.toByteArray_append]
  congr 1
  exact (ByteArray.ext List.data_toByteArray).symm

/-- Where the bytes go on to be a text, their front can be read. -/
theorem isSome_decodeFront? (valid : (b ++ rest).IsValidUTF8) : (decodeFront? b).isSome := by
  obtain ⟨chars, form⟩ := valid
  have whole : chars.flatMap utf8EncodeChar = b.data.toList ++ rest.data.toList := by
    rw [← ByteArray.toList_data_append, form, List.utf8Encode, List.toList_data_toByteArray]
  obtain ⟨kept, tail, cut, short, begun⟩ := exists_cut whole
  obtain rfl : b = List.utf8Encode kept ++ tail.toByteArray := by
    refine ByteArray.ext (Array.toList_inj.mp ?_)
    rw [cut, ByteArray.toList_data_append, List.utf8Encode, List.toList_data_toByteArray,
      List.toList_data_toByteArray]
  have stop : (List.utf8Encode kept ++ tail.toByteArray).size - tail.length =
      (List.utf8Encode kept).size := by
    rw [ByteArray.size_append, List.size_toByteArray, Nat.add_sub_cancel]
  have left : tail.length = 0 ∨ isUnfinished tail.toByteArray := begun.imp
    List.length_eq_zero_iff.mpr isUnfinished_of_begins
  rw [decodeFront?, List.findSome?_isSome_iff]
  refine ⟨tail.length, by simp only [List.mem_cons]; omega, ?_⟩
  dsimp only
  rw [stop, ByteArray.extract_append_eq_left rfl,
    ByteArray.extract_append_eq_right rfl ByteArray.size_append, if_pos left, Option.isSome_map]
  exact isSome_fromUTF8?.mpr ⟨kept, rfl⟩

/-- What is read is the front of the bytes. -/
theorem toUTF8_of_decodeFront? (read : decodeFront? b = some (text, used)) :
    used ≤ b.size ∧ b.extract 0 used = text.toUTF8 := by
  obtain ⟨count, -, found⟩ := List.exists_of_findSome?_eq_some read
  dsimp only at found
  split at found
  next =>
    obtain ⟨s, valid, same⟩ := Option.map_eq_some_iff.mp found
    obtain ⟨rfl, rfl⟩ := Prod.mk.inj same
    exact ⟨Nat.sub_le _ _, fromUTF8?_eq_some_iff.mp valid⟩
  next => cases found

theorem decodeFront?_toUTF8 (s : String) : decodeFront? s.toUTF8 = some (s, s.toUTF8.size) := by
  rw [decodeFront?, List.findSome?_cons]
  dsimp only
  rw [if_pos (.inl rfl), Nat.sub_zero, ByteArray.extract_zero_size, fromUTF8?_eq_some_iff.mpr rfl]
  rfl

end Front

end ModuleBundler.Text
