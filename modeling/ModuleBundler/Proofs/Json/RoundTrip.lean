import ModuleBundler.Proofs.Json.Numeral
import ModuleBundler.Proofs.Json.Text

/-! Reading back what was printed. Every finite value is read from its own text, and what
stands behind it is left; by induction on the value, with the length of its text as fuel. -/
namespace ModuleBundler.Json

/-- Every double in the value is a number. -/
inductive IsFinite : Json → Prop
  | null : IsFinite .null
  | bool (value : Bool) : IsFinite (.bool value)
  | whole (n : Int) : IsFinite (.whole n)
  | real {x : Float} (finite : x.isFinite = true) : IsFinite (.real x)
  | text (s : String) : IsFinite (.text s)
  | array {items : List Json} (all : ∀ item ∈ items, IsFinite item) : IsFinite (.array items)
  | object {members : List (String × Json)} (all : ∀ member ∈ members, IsFinite member.2) :
    IsFinite (.object members)

namespace Reader

variable {fuel : Nat} {chars rest : List Char}

theorem skipSpace_cons {c : Char} {rest : List Char} (solid : isSpace c = false) :
    skipSpace (c :: rest) = c :: rest := by
  rw [skipSpace, List.dropWhile_cons, solid]
  rfl

theorem skipSpace_blank (rest : List Char) : skipSpace (' ' :: rest) = skipSpace rest := by
  rw [skipSpace, List.dropWhile_cons]
  rfl

/-- A numeral starts with its sign or a digit. -/
theorem head_of_number {c : Char} {answer : Json × List Char}
    (found : number (c :: rest) = some answer) : c = '-' ∨ c.isDigit = true := by
  by_contra other
  rw [not_or, Bool.not_eq_true] at other
  have none : digits (c :: rest) = ([], c :: rest) := by
    rw [digits, List.takeWhile_cons, List.dropWhile_cons, other.2]
    rfl
  have unsigned : (c :: rest).head? ≠ some '-' := fun minus => other.1 (Option.some.inj minus)
  rw [number_of_head unsigned, numeral, none] at found
  cases found

/-! ### Values without parts -/

theorem value_number {answer : Json × List Char} {c : Char}
    (front : skipSpace chars = c :: rest) (found : number (c :: rest) = some answer) :
    value (fuel + 1) chars = some answer := by
  have start := head_of_number found
  rw [value, front]
  split
  case h_7 => exact found
  all_goals
    rename_i same
    obtain ⟨rfl, rfl⟩ := List.cons.inj same
    exact absurd start (by decide)

theorem value_text {s : String} (front : skipSpace chars = quote s ++ rest) :
    value (fuel + 1) chars = some (.text s, rest) := by
  have opened : quote s ++ rest = '"' :: (s.toList.flatMap escapeChar ++ ['"'] ++ rest) := rfl
  have found : string (quote s ++ rest) = some (s, rest) := string_quote (skipSpace_cons rfl)
  rw [opened] at front found
  simp only [value, front, found]
  rfl

theorem value_null (front : skipSpace chars = ['n', 'u', 'l', 'l'] ++ rest) :
    value (fuel + 1) chars = some (.null, rest) := by
  rw [value, front]
  rfl

theorem value_bool (b : Bool) (front : skipSpace chars = renderChars (.bool b) ++ rest) :
    value (fuel + 1) chars = some (.bool b, rest) := by
  rw [value, front]
  cases b <;> rfl

/-! ### Arrays and objects -/

theorem Stops.of_cons {c : Char} (other : c.isDigit = false ∧ c ≠ '.' ∧ c ≠ 'e' ∧ c ≠ 'E') :
    Stops (c :: rest) := fun _ head => Option.some.inj head ▸ other

theorem value_array {opened : List Char} (front : skipSpace chars = '[' :: opened)
    (more : symbol ']' opened = none) :
    value (fuel + 1) chars = (items fuel opened).bind fun read => some (.array read.1, read.2) := by
  simp only [value, front, more]
  rfl

theorem value_object {opened : List Char} (front : skipSpace chars = '{' :: opened)
    (more : symbol '}' opened = none) :
    value (fuel + 1) chars =
      (members fuel opened).bind fun read => some (.object read.1, read.2) := by
  simp only [value, front, more]
  rfl

/-- A value is read from its own text with fuel for every character. -/
def Reads (v : Json) : Prop :=
  ∀ fuel chars rest, (renderChars v).length ≤ fuel → Stops rest →
    skipSpace chars = renderChars v ++ rest → value fuel chars = some (v, rest)

/-- A text that begins with a character that is no blank and closes nothing. -/
def Solid (chars : List Char) : Prop :=
  ∃ c tail, chars = c :: tail ∧ isSpace c = false ∧ c ≠ ']' ∧ c ≠ '}'

namespace Solid

variable {chars : List Char} (solid : Solid chars)
include solid

theorem append (rest : List Char) : Solid (chars ++ rest) := by
  obtain ⟨c, tail, rfl, inner⟩ := solid
  exact ⟨c, tail ++ rest, rfl, inner⟩

theorem skipSpace : skipSpace chars = chars := by
  obtain ⟨c, tail, rfl, blank, -⟩ := solid
  exact skipSpace_cons blank

theorem symbol {c : Char} (closing : c = ']' ∨ c = '}') : symbol c chars = none := by
  obtain ⟨first, tail, rfl, blank, bracket, brace⟩ := solid
  obtain rfl | rfl := closing
  · exact symbol_of_ne (skipSpace_cons blank) bracket
  · exact symbol_of_ne (skipSpace_cons blank) brace

theorem length_pos : 0 < chars.length := by
  obtain ⟨c, tail, rfl, -⟩ := solid
  exact Nat.succ_pos _

end Solid

theorem renderItems_cons (v w : Json) (l : List Json) :
    renderItems (v :: w :: l) = renderChars v ++ ',' :: ' ' :: renderItems (w :: l) := by
  rw [renderItems]
  exact fun none => absurd none (List.cons_ne_nil w l)

theorem renderMembers_cons (name : String) (v : Json) (next : String × Json)
    (l : List (String × Json)) : renderMembers ((name, v) :: next :: l) =
      quote name ++ ':' :: ' ' :: renderChars v ++ ',' :: ' ' :: renderMembers (next :: l) := by
  rw [renderMembers]
  exact fun none => absurd none (List.cons_ne_nil next l)

theorem Solid.items {v : Json} (solid : Solid (renderChars v)) (l : List Json) :
    Solid (renderItems (v :: l)) := by
  cases l with
  | nil => rwa [renderItems]
  | cons w l =>
    rw [renderItems_cons]
    exact solid.append _

theorem solid_members (l : List (String × Json)) (member : String × Json) :
    Solid (renderMembers (member :: l)) := by
  obtain ⟨name, v⟩ := member
  cases l with
  | nil => exact ⟨'"', _, by rw [renderMembers]; rfl, by decide⟩
  | cons next l => exact ⟨'"', _, by rw [renderMembers_cons]; rfl, by decide⟩

/-- By induction on the items: one value is read, then a comma with the others or the end. -/
theorem items_render {l : List Json} (some : l ≠ []) (reads : ∀ v ∈ l, Reads v)
    (solid : ∀ v ∈ l, Solid (renderChars v)) {fuel : Nat} {chars rest : List Char}
    (enough : (renderItems l).length < fuel)
    (front : skipSpace chars = renderItems l ++ ']' :: rest) :
    items fuel chars = Option.some (l, rest) := by
  induction l generalizing fuel chars with
  | nil => exact absurd rfl some
  | cons v l ih =>
    obtain ⟨fuel, rfl⟩ := Nat.exists_eq_add_one_of_ne_zero (Nat.ne_of_gt (Nat.zero_lt_of_lt enough))
    have first := reads v List.mem_cons_self
    cases l with
    | nil =>
      rw [renderItems] at enough front
      have one := first fuel chars (']' :: rest) (Nat.le_of_lt_succ enough)
        (.of_cons (by decide)) front
      have ended : symbol ',' (']' :: rest) = none := rfl
      have closed : symbol ']' (']' :: rest) = Option.some rest := rfl
      simp only [items, one, Option.bind_eq_bind, Option.bind_some, ended, closed]
    | cons w l =>
      rw [renderItems_cons] at enough front
      rw [List.length_append, List.length_cons, List.length_cons] at enough
      rw [List.append_assoc, List.cons_append, List.cons_append] at front
      have one := first fuel chars (',' :: ' ' :: (renderItems (w :: l) ++ ']' :: rest)) (by omega)
        (.of_cons (by decide)) front
      have comma : symbol ',' (',' :: ' ' :: (renderItems (w :: l) ++ ']' :: rest)) =
          Option.some (' ' :: (renderItems (w :: l) ++ ']' :: rest)) := rfl
      have next := (solid w (by simp)).items l
      have others : items fuel (' ' :: (renderItems (w :: l) ++ ']' :: rest)) =
          Option.some (w :: l, rest) :=
        ih (List.cons_ne_nil w l) (fun u member => reads u (.tail v member))
          (fun u member => solid u (.tail v member)) (by omega) (by
            rw [skipSpace_blank, (next.append _).skipSpace])
      simp only [items, one, Option.bind_eq_bind, Option.bind_some, comma, others]

theorem members_render {l : List (String × Json)} (some : l ≠ []) (reads : ∀ m ∈ l, Reads m.2)
    (solid : ∀ m ∈ l, Solid (renderChars m.2)) {fuel : Nat} {chars rest : List Char}
    (enough : (renderMembers l).length < fuel)
    (front : skipSpace chars = renderMembers l ++ '}' :: rest) :
    members fuel chars = Option.some (l, rest) := by
  induction l generalizing fuel chars with
  | nil => exact absurd rfl some
  | cons m l ih =>
    obtain ⟨name, v⟩ := m
    obtain ⟨fuel, rfl⟩ := Nat.exists_eq_add_one_of_ne_zero (Nat.ne_of_gt (Nat.zero_lt_of_lt enough))
    have first := reads (name, v) List.mem_cons_self
    have own := solid (name, v) List.mem_cons_self
    have colon (after : List Char) : symbol ':' (':' :: ' ' :: (renderChars v ++ after)) =
        Option.some (' ' :: (renderChars v ++ after)) := rfl
    have inner (after : List Char) : skipSpace (' ' :: (renderChars v ++ after)) =
        renderChars v ++ after := by
      rw [skipSpace_blank, (own.append _).skipSpace]
    cases l with
    | nil =>
      rw [renderMembers] at enough front
      rw [List.append_assoc, List.cons_append, List.cons_append] at front
      rw [List.length_append, List.length_cons, List.length_cons] at enough
      have named := string_quote front
      have one := first fuel _ ('}' :: rest) (by dsimp only; omega) (.of_cons (by decide)) (inner _)
      have ended : symbol ',' ('}' :: rest) = none := rfl
      have closed : symbol '}' ('}' :: rest) = Option.some rest := rfl
      simp only [members, named, Option.bind_eq_bind, Option.bind_some, colon, one, ended, closed]
    | cons next l =>
      rw [renderMembers_cons] at enough front
      simp only [List.append_assoc, List.cons_append] at front
      simp only [List.length_append, List.length_cons] at enough
      have named := string_quote front
      have one := first fuel _ (',' :: ' ' :: (renderMembers (next :: l) ++ '}' :: rest))
        (by dsimp only; omega) (.of_cons (by decide)) (inner _)
      have comma : symbol ',' (',' :: ' ' :: (renderMembers (next :: l) ++ '}' :: rest)) =
          Option.some (' ' :: (renderMembers (next :: l) ++ '}' :: rest)) := rfl
      have others : members fuel (' ' :: (renderMembers (next :: l) ++ '}' :: rest)) =
          Option.some (next :: l, rest) :=
        ih (List.cons_ne_nil next l) (fun m member => reads m (.tail _ member))
          (fun m member => solid m (.tail _ member)) (by omega) (by
            rw [skipSpace_blank, ((solid_members l next).append _).skipSpace])
      simp only [members, named, Option.bind_eq_bind, Option.bind_some, colon, one, comma, others]

/-! ### The round trip -/

theorem solid_of_digit {c : Char} (digit : c.isDigit = true) :
    isSpace c = false ∧ c ≠ ']' ∧ c ≠ '}' := by
  refine ⟨Bool.eq_false_iff.mpr fun blank => ?_, ?_, ?_⟩
  · simp only [isSpace, Bool.or_eq_true, beq_iff_eq] at blank
    obtain ((rfl | rfl) | rfl) | rfl := blank <;> exact absurd digit (by decide)
  · rintro rfl
    exact absurd digit (by decide)
  · rintro rfl
    exact absurd digit (by decide)

theorem solid_of_number {v : Json} {answer : Json × List Char}
    (found : number (renderChars v ++ []) = some answer) : Solid (renderChars v) := by
  rw [List.append_nil] at found
  cases opens : renderChars v with
  | nil =>
    rw [opens] at found
    cases found
  | cons c tail =>
    rw [opens] at found
    refine ⟨c, tail, rfl, ?_⟩
    obtain rfl | digit := head_of_number found
    · decide
    · exact solid_of_digit digit

theorem Stops.nil : Stops [] := fun _ head => nomatch head

theorem solid_of_isFinite {v : Json} (finite : v.IsFinite) : Solid (renderChars v) := by
  cases finite with
  | null => exact ⟨'n', _, rfl, by decide⟩
  | bool b => cases b <;> exact ⟨_, _, rfl, by decide⟩
  | whole n => exact solid_of_number (number_whole n .nil)
  | real finite => exact solid_of_number (number_real finite .nil)
  | text s => exact ⟨'"', _, rfl, by decide⟩
  | array => exact ⟨'[', _, rfl, by decide⟩
  | object => exact ⟨'{', _, rfl, by decide⟩

/-- There is fuel left for the parts of a value. -/
theorem reads_of_succ {v : Json} (solid : Solid (renderChars v))
    (reads : ∀ fuel chars rest, (renderChars v).length ≤ fuel + 1 → Stops rest →
      skipSpace chars = renderChars v ++ rest → value (fuel + 1) chars = some (v, rest)) :
    Reads v := by
  intro fuel chars rest enough
  cases fuel with
  | zero => exact absurd enough (Nat.not_le.mpr solid.length_pos)
  | succ fuel => exact reads fuel chars rest enough

theorem value_of_number {v : Json} {answer : Json × List Char} (solid : Solid (renderChars v))
    (front : skipSpace chars = renderChars v ++ rest)
    (found : number (renderChars v ++ rest) = some answer) :
    value (fuel + 1) chars = some answer := by
  obtain ⟨c, tail, opens, -⟩ := solid
  rw [opens] at front found
  exact value_number front found

theorem reads_array {l : List Json} (reads : ∀ v ∈ l, Reads v)
    (solid : ∀ v ∈ l, Solid (renderChars v)) : Reads (.array l) := by
  refine reads_of_succ ⟨'[', _, rfl, by decide⟩ fun fuel chars rest enough stop front => ?_
  cases l with
  | nil =>
    rw [value, front]
    rfl
  | cons v l =>
    have text : renderChars (.array (v :: l)) = '[' :: renderItems (v :: l) ++ [']'] := by
      rw [renderChars]
    rw [text, List.cons_append, List.cons_append, List.append_assoc] at front
    rw [text, List.length_append, List.length_cons] at enough
    have opens := ((solid v List.mem_cons_self).items l).append (']' :: rest)
    have all : items fuel (renderItems (v :: l) ++ ']' :: rest) = some (v :: l, rest) :=
      items_render (List.cons_ne_nil v l) reads solid (Nat.lt_of_succ_lt_succ enough)
        opens.skipSpace
    rw [value_array front (opens.symbol (.inl rfl))]
    exact congrArg (Option.bind · _) all

theorem reads_object {l : List (String × Json)} (reads : ∀ m ∈ l, Reads m.2)
    (solid : ∀ m ∈ l, Solid (renderChars m.2)) : Reads (.object l) := by
  refine reads_of_succ ⟨'{', _, rfl, by decide⟩ fun fuel chars rest enough stop front => ?_
  cases l with
  | nil =>
    rw [value, front]
    rfl
  | cons m l =>
    have text : renderChars (.object (m :: l)) = '{' :: renderMembers (m :: l) ++ ['}'] := by
      rw [renderChars]
    rw [text, List.cons_append, List.cons_append, List.append_assoc] at front
    rw [text, List.length_append, List.length_cons] at enough
    have opens := (solid_members l m).append ('}' :: rest)
    have all : members fuel (renderMembers (m :: l) ++ '}' :: rest) = some (m :: l, rest) :=
      members_render (List.cons_ne_nil m l) reads solid (Nat.lt_of_succ_lt_succ enough)
        opens.skipSpace
    rw [value_object front (opens.symbol (.inr rfl))]
    exact congrArg (Option.bind · _) all

/-- A finite value reads back from its text, with blanks before it or without. -/
theorem reads_of_isFinite {v : Json} (finite : v.IsFinite) : Reads v := by
  induction finite with
  | null =>
    exact reads_of_succ (solid_of_isFinite .null) fun _ _ _ _ _ front => value_null front
  | bool b =>
    exact reads_of_succ (solid_of_isFinite (.bool b)) fun _ _ _ _ _ front => value_bool b front
  | whole n =>
    exact reads_of_succ (solid_of_isFinite (.whole n)) fun _ _ _ _ stop front =>
      value_of_number (solid_of_isFinite (.whole n)) front (number_whole n stop)
  | real finite =>
    exact reads_of_succ (solid_of_isFinite (.real finite)) fun _ _ _ _ stop front =>
      value_of_number (solid_of_isFinite (.real finite)) front (number_real finite stop)
  | text s =>
    exact reads_of_succ (solid_of_isFinite (.text s)) fun _ _ _ _ _ front => value_text front
  | array all ih => exact reads_array ih fun v member => solid_of_isFinite (all v member)
  | object all ih => exact reads_object ih fun m member => solid_of_isFinite (all m member)

end Reader

/-- The text of a finite value holds that value and nothing else. -/
theorem parse?_render {v : Json} (finite : v.IsFinite) : parse? v.render = some v := by
  have text : v.render.toList = renderChars v := String.toList_ofList
  have solid := Reader.solid_of_isFinite finite
  have found := Reader.reads_of_isFinite finite ((renderChars v).length + 1) (renderChars v) []
    (Nat.le_succ _) .nil (by rw [solid.skipSpace, List.append_nil])
  unfold parse?
  rw [text]
  simp only [found, Option.bind_eq_bind, Option.bind_some]
  rfl

end ModuleBundler.Json
