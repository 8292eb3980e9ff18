import ModuleBundler.Proofs.Json.RoundTrip

/-! Printed values are plain. Whatever a value holds, its text is made of printable ASCII
characters, so it stands on one line. -/
namespace ModuleBundler.Json

open Decimal

theorem plain_of_isDigit {c : Char} (digit : c.isDigit = true) : IsPlain c := by
  obtain ⟨low, high⟩ := Char.isDigit_iff_toNat.mp digit
  exact ⟨Nat.le_trans (by decide) low, Nat.le_trans high (by decide)⟩

theorem plain_of_all {l : List Char} (all : (l.all fun c => IsPlain c) = true) :
    ∀ c ∈ l, IsPlain c :=
  fun c member => of_decide_eq_true (List.all_eq_true.mp all c member)

/-! ### Texts -/

theorem plain_digitChar : ∀ k < 16, IsPlain (Nat.digitChar k) := by
  decide

theorem plain_escapeUnit (n : Nat) : ∀ c ∈ escapeUnit n, IsPlain c := by
  unfold escapeUnit
  refine List.forall_mem_cons.mpr ⟨by decide, List.forall_mem_cons.mpr ⟨by decide, ?_⟩⟩
  intro c member
  obtain ⟨place, -, rfl⟩ := List.mem_map.mp member
  exact plain_digitChar _ (Nat.mod_lt _ (by decide))

theorem plain_escapeChar (c : Char) : ∀ d ∈ escapeChar c, IsPlain d := by
  obtain ⟨mark, written, plain, -⟩ | ⟨written, plain, -⟩ | written := Reader.escapeChar_cases c
  · rw [written]
    exact List.forall_mem_cons.mpr ⟨by decide, List.forall_mem_singleton.mpr plain⟩
  · rw [written]
    exact List.forall_mem_singleton.mpr plain
  · rw [written]
    intro d member
    obtain ⟨n, -, inside⟩ := List.mem_flatMap.mp member
    exact plain_escapeUnit n d inside

theorem plain_quote (text : String) : ∀ c ∈ quote text, IsPlain c := by
  unfold quote
  refine List.forall_mem_append.mpr ⟨List.forall_mem_cons.mpr ⟨by decide, ?_⟩, plain_of_all rfl⟩
  intro c member
  obtain ⟨d, -, inside⟩ := List.mem_flatMap.mp member
  exact plain_escapeChar d c inside

/-! ### Numerals -/

theorem plain_toDigits (n : Nat) : ∀ c ∈ Nat.toDigits 10 n, IsPlain c :=
  fun c member => plain_of_isDigit (Reader.isDigit_toDigits n c member)

theorem plain_zeros (k : Nat) : ∀ c ∈ List.replicate k '0', IsPlain c :=
  fun c member => plain_of_isDigit (Reader.isDigit_zeros k c member)

theorem plain_whole (n : Int) : ∀ c ∈ (toString n).toList, IsPlain c := by
  cases n with
  | ofNat k =>
    have text : (toString (Int.ofNat k)).toList = Nat.toDigits 10 k := Nat.toList_repr
    rw [text]
    exact plain_toDigits k
  | negSucc k =>
    rw [Reader.toList_negSucc]
    exact List.forall_mem_cons.mpr ⟨by decide, plain_toDigits (k + 1)⟩

theorem plain_layout (d : Digits) : ∀ c ∈ d.layout.toList, IsPlain c := by
  have digits := plain_toDigits d.coefficient
  have front (k : Nat) : ∀ c ∈ (Nat.toDigits 10 d.coefficient).take k, IsPlain c :=
    fun c member => digits c (List.mem_of_mem_take member)
  have back (k : Nat) : ∀ c ∈ (Nat.toDigits 10 d.coefficient).drop k, IsPlain c :=
    fun c member => digits c (List.mem_of_mem_drop member)
  have sign (below : Prop) [Decidable below] : IsPlain (if below then '-' else '+') := by
    split <;> decide
  rw [Reader.toList_layout]
  split
  · split
    · exact List.forall_mem_append.mpr
        ⟨List.forall_mem_append.mpr ⟨digits, plain_zeros _⟩, plain_of_all rfl⟩
    split
    · exact List.forall_mem_append.mpr ⟨front _, List.forall_mem_cons.mpr ⟨by decide, back _⟩⟩
    · simp only [List.forall_mem_append, List.forall_mem_cons]
      exact ⟨by decide, by decide, plain_zeros _, digits⟩
  · simp only [List.forall_mem_append, List.forall_mem_cons]
    refine ⟨front 1, ?_, by decide, sign _, plain_zeros _, plain_toDigits _⟩
    split
    · exact List.forall_mem_cons.mpr ⟨by decide, back 1⟩
    · exact List.forall_mem_nil _

theorem plain_text (x : Float) : ∀ c ∈ (Decimal.text .json x).toList, IsPlain c := by
  have sign (negative : Bool) {text : String} (plain : ∀ c ∈ text.toList, IsPlain c) :
      ∀ c ∈ (signed negative text).toList, IsPlain c := by
    unfold signed
    split
    · rw [String.toList_append]
      exact List.forall_mem_append.mpr ⟨plain_of_all rfl, plain⟩
    · exact plain
  unfold Decimal.text
  split
  · exact plain_of_all rfl
  · exact sign _ (plain_of_all rfl)
  · refine sign _ ?_
    split
    · exact plain_of_all rfl
    · exact plain_layout _

/-! ### Values -/

mutual

theorem plain_renderChars : (v : Json) → ∀ c ∈ renderChars v, IsPlain c
  | .null => plain_of_all rfl
  | .bool true => plain_of_all rfl
  | .bool false => plain_of_all rfl
  | .whole n => by
    rw [renderChars]
    exact plain_whole n
  | .real x => by
    rw [renderChars]
    exact plain_text x
  | .text s => by
    rw [renderChars]
    exact plain_quote s
  | .array items => by
    rw [renderChars]
    exact List.forall_mem_append.mpr
      ⟨List.forall_mem_cons.mpr ⟨by decide, plain_renderItems items⟩, plain_of_all rfl⟩
  | .object members => by
    rw [renderChars]
    exact List.forall_mem_append.mpr
      ⟨List.forall_mem_cons.mpr ⟨by decide, plain_renderMembers members⟩, plain_of_all rfl⟩

theorem plain_renderItems : (l : List Json) → ∀ c ∈ renderItems l, IsPlain c
  | [] => by
    rw [renderItems]
    exact List.forall_mem_nil _
  | [v] => by
    rw [renderItems]
    exact plain_renderChars v
  | v :: w :: l => by
    rw [Reader.renderItems_cons]
    simp only [List.forall_mem_append, List.forall_mem_cons]
    exact ⟨plain_renderChars v, by decide, by decide, plain_renderItems (w :: l)⟩

theorem plain_renderMembers : (l : List (String × Json)) → ∀ c ∈ renderMembers l, IsPlain c
  | [] => by
    rw [renderMembers]
    exact List.forall_mem_nil _
  | [(name, v)] => by
    rw [renderMembers]
    simp only [List.forall_mem_append, List.forall_mem_cons]
    exact ⟨plain_quote name, by decide, by decide, plain_renderChars v⟩
  | (name, v) :: next :: l => by
    rw [Reader.renderMembers_cons]
    simp only [List.forall_mem_append, List.forall_mem_cons]
    exact ⟨⟨plain_quote name, by decide, by decide, plain_renderChars v⟩, by decide, by decide,
      plain_renderMembers (next :: l)⟩

end

end ModuleBundler.Json
