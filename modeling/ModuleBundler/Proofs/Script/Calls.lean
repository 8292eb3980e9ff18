import Mathlib.Data.List.TakeWhile
import ModuleBundler.Script.Import

/-! Import calls by their grammar, without the scan that finds them. At some of its
places a text holds an import call, and calls may overlap: the quote that closes one
may open another. The scan takes the calls from left to right, each time the one
that starts first behind the call before. -/
namespace ModuleBundler.Script

open Text

/-- The text of an import call, part by part. -/
structure ImportCall where
  callee : List Char
  /-- Blanks before the opening parenthesis, behind it, and before the closing one. -/
  first : List Char
  second : List Char
  third : List Char
  opening : Char
  specifier : List Char
  closing : Char
  known : callee = "require".toList ∨ callee = "import".toList
  blank : ∀ c ∈ first ++ second ++ third, isBlank c = true
  quotes : isQuote opening = true ∧ isQuote closing = true
  unquoted : ∀ c ∈ specifier, isQuote c = false
  named : specifier ≠ []

def ImportCall.text (call : ImportCall) : List Char :=
  call.callee ++ (call.first ++ '(' :: (call.second ++ call.opening ::
    (call.specifier ++ call.closing :: (call.third ++ [')']))))

/-- A piece of a text, by its offsets, that reads as an import call of a specifier. -/
structure ImportSpan where
  start : Nat
  stop : Nat
  specifier : List Char
  deriving DecidableEq

/-- A text has an import call there. -/
def ImportSpan.In (s : ImportSpan) (text : List Char) : Prop :=
  ∃ (before : List Char) (call : ImportCall) (after : List Char),
    text = before ++ (call.text ++ after) ∧
    s = ⟨before.length, before.length + call.text.length, call.specifier⟩

/-- The import calls chosen from an offset on: each starts first among those at or behind the end of
the one before, and behind the last there is none. -/
inductive Chosen (text : List Char) : Nat → List ImportSpan → Prop where
  | done {start} : (∀ s : ImportSpan, s.In text → s.start < start) → Chosen text start []
  | next {start s rest} : s.In text → start ≤ s.start →
      (∀ t : ImportSpan, t.In text → start ≤ t.start → s.start ≤ t.start) →
      Chosen text s.stop rest → Chosen text start (s :: rest)

section Grammar

variable {text rest word : List Char} {c : Char}

theorem afterWord?_eq_some_iff : afterWord? word text = some rest ↔ text = word ++ rest := by
  unfold afterWord?
  constructor
  · intro found
    split at found
    next starts =>
      obtain ⟨tail, rfl⟩ := List.isPrefixOf_iff_prefix.mp starts
      cases found
      rw [List.drop_left]
    next => cases found
  · rintro rfl
    rw [if_pos (List.isPrefixOf_iff_prefix.mpr (List.prefix_append word rest)), List.drop_left]

theorem afterCallee?_eq_some_iff : afterCallee? text = some rest ↔
    text = "require".toList ++ rest ∨ text = "import".toList ++ rest := by
  rw [afterCallee?, Option.orElse_eq_orElse, Option.orElse_eq_or, Option.or_eq_some_iff,
    afterWord?_eq_some_iff, afterWord?_eq_some_iff]
  constructor
  · exact Or.imp_right And.right
  · rintro (called | called)
    · exact .inl called
    · refine .inr ⟨?_, called⟩
      rw [called]
      rfl

/-- After blanks that end where they can, what follows them is found. -/
theorem dropWhile_isBlank_append {blanks : List Char} (blank : ∀ c ∈ blanks, isBlank c = true)
    (inked : isBlank c = false) : (blanks ++ c :: rest).dropWhile isBlank = c :: rest := by
  rw [List.dropWhile_append_of_pos blank, List.dropWhile_cons_of_neg (by simp [inked])]

theorem afterSymbol?_eq_some_iff {expected : Char → Bool}
    (inked : ∀ c, expected c = true → isBlank c = false) :
    afterSymbol? expected text = some rest ↔ ∃ blanks c, (∀ b ∈ blanks, isBlank b = true) ∧
      expected c = true ∧ text = blanks ++ c :: rest := by
  unfold afterSymbol?
  constructor
  · intro found
    split at found
    next => cases found
    next c tail left =>
      split at found
      next wanted =>
        cases found
        refine ⟨text.takeWhile isBlank, c, fun b member => List.mem_takeWhile_imp member,
          wanted, ?_⟩
        rw [← left, List.takeWhile_append_dropWhile]
      next => cases found
  · rintro ⟨blanks, c, blank, wanted, rfl⟩
    rw [dropWhile_isBlank_append blank (inked c wanted)]
    exact if_pos wanted

theorem isBlank_of_isQuote (quote : isQuote c = true) : isBlank c = false := by
  rw [isQuote, Bool.or_eq_true, beq_iff_eq, beq_iff_eq] at quote
  rcases quote with rfl | rfl <;> decide

theorem isBlank_of_eq {d : Char} (inked : isBlank d = false) (same : (c == d) = true) :
    isBlank c = false := by
  rw [beq_iff_eq] at same
  exact same ▸ inked

/-- A specifier goes on to the next quote. -/
theorem specifier_of_quote {specifier : List Char} (rest : List Char)
    (unquoted : ∀ c ∈ specifier, isQuote c = false) (quote : isQuote c = true) :
    (specifier ++ c :: rest).takeWhile (!isQuote ·) = specifier ∧
      (specifier ++ c :: rest).dropWhile (!isQuote ·) = c :: rest := by
  have plain : ∀ c ∈ specifier, (!isQuote c) = true := by simpa using unquoted
  rw [List.takeWhile_append_of_pos plain, List.dropWhile_append_of_pos plain]
  simp [quote]

/-- The call that starts a text is the one that the grammar allows. -/
theorem importAt?_eq_some_iff {specifier : List Char} :
    importAt? text = some (specifier, rest) ↔
      ∃ call : ImportCall, call.specifier = specifier ∧ text = call.text ++ rest := by
  have parenthesis : ∀ d, isBlank d = false → ∀ c, (c == d) = true → isBlank c = false :=
    fun d inked c same => isBlank_of_eq inked same
  simp only [importAt?, Option.bind_eq_bind, Option.bind_eq_some_iff, afterCallee?_eq_some_iff,
    afterSymbol?_eq_some_iff (parenthesis '(' (by decide)),
    afterSymbol?_eq_some_iff (parenthesis ')' (by decide)),
    afterSymbol?_eq_some_iff fun _ => isBlank_of_isQuote]
  constructor
  · rintro ⟨r₁, called, r₂, ⟨first, c, blank₁, same, rfl⟩, r₃,
      ⟨second, opening, blank₂, quote, rfl⟩, r₄, ⟨third, d, blank₃, same', left⟩, last⟩
    obtain rfl := beq_iff_eq.mp same
    obtain rfl := beq_iff_eq.mp same'
    have parts := (List.takeWhile_append_dropWhile (p := (!isQuote ·)) (l := r₃)).symm
    have ends := List.head?_dropWhile_not (!isQuote ·) r₃
    have inside : ∀ c ∈ r₃.takeWhile (!isQuote ·), isQuote c = false := fun c member => by
      simpa using List.mem_takeWhile_imp member
    generalize r₃.takeWhile (!isQuote ·) = named at last parts inside
    generalize r₃.dropWhile (!isQuote ·) = quoted at left parts ends
    split at last
    next => cases last
    next some =>
      cases last
      cases quoted with
      | nil => simp at left
      | cons closing behind =>
        obtain rfl : behind = third ++ ')' :: rest := left
        have known : ∃ callee : List Char, (callee = "require".toList ∨ callee = "import".toList) ∧
            text = callee ++ (first ++ '(' :: (second ++ opening :: r₃)) := by
          rcases called with called | called
          · exact ⟨_, .inl rfl, called⟩
          · exact ⟨_, .inr rfl, called⟩
        obtain ⟨callee, known, rfl⟩ := known
        refine ⟨⟨callee, first, second, third, opening, specifier, closing, known, ?_,
          ⟨quote, by simpa using ends⟩, inside, some⟩, rfl, ?_⟩
        · simpa [or_imp, forall_and] using ⟨blank₁, blank₂, blank₃⟩
        · rw [parts]
          simp [ImportCall.text]
  · rintro ⟨call, rfl, rfl⟩
    have blank := call.blank
    simp only [List.mem_append, or_imp, forall_and] at blank
    obtain ⟨⟨blank₁, blank₂⟩, blank₃⟩ := blank
    obtain ⟨inside, quoted⟩ :=
      specifier_of_quote (call.third ++ ')' :: rest) call.unquoted call.quotes.2
    refine ⟨call.first ++ '(' :: (call.second ++ call.opening :: (call.specifier ++
      call.closing :: (call.third ++ ')' :: rest))), ?_, _, ⟨call.first, '(', blank₁, rfl, rfl⟩, _,
      ⟨call.second, call.opening, blank₂, call.quotes.1, rfl⟩, rest,
      ⟨call.third, ')', blank₃, rfl, ?_⟩, ?_⟩
    · rcases call.known with known | known
      · exact .inl (by simp [ImportCall.text, known])
      · exact .inr (by simp [ImportCall.text, known])
    · rw [quoted]
      rfl
    · rw [inside, if_neg call.named]

end Grammar

section Choice

variable {text before rest : List Char} {start : Nat} {spans others : List ImportSpan}
  {s t : ImportSpan}

theorem ImportCall.length_pos (call : ImportCall) : 0 < call.text.length := by
  simp only [text, List.length_append, List.length_cons]
  omega

namespace ImportSpan.In

theorem bounds (inside : s.In text) : s.start < s.stop ∧ s.stop ≤ text.length := by
  obtain ⟨before, call, after, rfl, rfl⟩ := inside
  have some := call.length_pos
  simp only [List.length_append]
  omega

/-- Where a call stands, it is the one that starts the text from there on. -/
theorem importAt? (inside : s.In text) :
    Script.importAt? (text.drop s.start) = some (s.specifier, text.drop s.stop) := by
  obtain ⟨before, call, after, rfl, rfl⟩ := inside
  rw [List.drop_left, ← List.drop_drop, List.drop_left, List.drop_left]
  exact importAt?_eq_some_iff.mpr ⟨call, rfl, rfl⟩

/-- At most one import call starts at any place. -/
theorem unique (first : s.In text) (second : t.In text) (same : s.start = t.start) : s = t := by
  have found := first.importAt?
  rw [same, second.importAt?] at found
  simp only [Option.some.injEq, Prod.mk.injEq] at found
  obtain ⟨specifiers, rests⟩ := found
  have left := congrArg List.length rests
  simp only [List.length_drop] at left
  have bound := first.bounds
  have bound' := second.bounds
  have stops : s.stop = t.stop := by omega
  cases s
  cases t
  simp_all

end ImportSpan.In

namespace Chosen

theorem isIn (chosen : Chosen text start spans) : ∀ s ∈ spans, s.In text ∧ start ≤ s.start := by
  induction chosen with
  | done => exact fun s none => absurd none List.not_mem_nil
  | @next start s rest inside le first later ih =>
    intro t member
    rcases List.mem_cons.mp member with rfl | later
    · exact ⟨inside, le⟩
    · obtain ⟨here, behind⟩ := ih t later
      have := inside.bounds
      exact ⟨here, by omega⟩

/-- The chosen calls do not overlap, and stand in their order. -/
theorem pairwise (chosen : Chosen text start spans) :
    spans.Pairwise fun s t => s.stop ≤ t.start := by
  induction chosen with
  | done => exact .nil
  | next inside le first later ih => exact .cons (fun t member => (later.isIn t member).2) ih

/-- A call that is not chosen starts before the choice does, or within a chosen one. -/
theorem covers (chosen : Chosen text start spans) (inside : t.In text) (behind : start ≤ t.start) :
    t ∈ spans ∨ ∃ s ∈ spans, s.start < t.start ∧ t.start < s.stop := by
  induction chosen with
  | done none =>
    have := none t inside
    omega
  | @next start s rest here le first later ih =>
    have least := first t inside behind
    rcases Nat.eq_or_lt_of_le least with same | apart
    · left
      rw [here.unique inside same]
      exact List.mem_cons_self
    · by_cases ended : s.stop ≤ t.start
      · rcases ih ended with member | ⟨other, member, within⟩
        · exact .inl (List.mem_cons_of_mem _ member)
        · exact .inr ⟨other, List.mem_cons_of_mem _ member, within⟩
      · exact .inr ⟨s, List.mem_cons_self, apart, by omega⟩

/-- There is one way to choose. -/
theorem unique (chosen : Chosen text start spans) (again : Chosen text start others) :
    others = spans := by
  induction chosen generalizing others with
  | done none =>
    cases again with
    | done => rfl
    | next inside le =>
      have := none _ inside
      omega
  | @next start s rest inside le first later ih =>
    cases again with
    | done none =>
      have := none s inside
      omega
    | @next _ t rest' inside' le' first' later' =>
      have same : s.start = t.start := Nat.le_antisymm (first t inside' le') (first' s inside le)
      obtain rfl := inside.unique inside' same
      rw [ih later']

/-- Where no call starts, the choice may as well begin one place further on. -/
theorem of_succ (chosen : Chosen text (start + 1) spans)
    (none : ∀ s : ImportSpan, s.In text → s.start ≠ start) : Chosen text start spans := by
  have further : ∀ s : ImportSpan, s.In text → start ≤ s.start → start + 1 ≤ s.start :=
    fun s inside le => Nat.lt_of_le_of_ne le (none s inside).symm
  cases chosen with
  | done last =>
    refine .done fun s inside => ?_
    have := last s inside
    have := none s inside
    omega
  | next inside le first later =>
    exact .next inside (by omega) (fun t here behind => first t here (further t here behind)) later

end Chosen

theorem importsIn_call {c : Char} {tail specifier : List Char}
    (call : importAt? (c :: tail) = some (specifier, rest)) :
    importsIn (c :: tail) = specifier :: importsIn rest := by
  rw [importsIn]
  split
  next found =>
    cases found.symm.trans call
    rfl
  next found => cases found.symm.trans call

theorem importsIn_plain {c : Char} {tail : List Char} (plain : importAt? (c :: tail) = none) :
    importsIn (c :: tail) = importsIn tail := by
  rw [importsIn]
  split
  next found => cases found.symm.trans plain
  next => rfl

/-- What the scan finds in the rest of a text is chosen there. -/
theorem exists_chosen (before rest : List Char) : ∃ spans,
    Chosen (before ++ rest) before.length spans ∧ importsIn rest = spans.map (·.specifier) := by
  induction rest using importsIn.induct generalizing before with
  | case1 =>
    refine ⟨[], .done fun s inside => ?_, by rw [importsIn]; rfl⟩
    have := inside.bounds
    simp only [List.append_nil] at this
    omega
  | case2 c tail specifier rest found _ ih =>
    obtain ⟨call, named, parts⟩ := importAt?_eq_some_iff.mp found
    obtain ⟨spans, chosen, later⟩ := ih (before ++ call.text)
    rw [List.append_assoc, ← parts, List.length_append] at chosen
    refine ⟨⟨before.length, before.length + call.text.length, specifier⟩ :: spans,
      .next ⟨before, call, rest, by rw [parts], by rw [named]⟩ (Nat.le_refl _)
        (fun _ _ behind => behind) chosen, ?_⟩
    rw [importsIn_call found, later]
    rfl
  | case3 c tail plain ih =>
    obtain ⟨spans, chosen, later⟩ := ih (before ++ [c])
    rw [List.append_assoc, List.length_append] at chosen
    refine ⟨spans, chosen.of_succ fun s inside here => ?_, (importsIn_plain plain).trans later⟩
    have found := inside.importAt?
    rw [here, List.singleton_append, List.drop_left, plain] at found
    cases found

/-- The scan for imports gives the specifiers of the import calls that are chosen from left to right:
calls by the grammar, apart and in order, and no other call starts outside of them. -/
theorem scan_chooses_first_calls (content : String) :
    ∃ spans, Chosen content.toList 0 spans ∧
      (∀ others, Chosen content.toList 0 others → others = spans) ∧
      scanImports content = spans.map (fun s => String.ofList s.specifier) ∧
      (∀ s ∈ spans, s.In content.toList) ∧
      spans.Pairwise (fun s t => s.start < s.stop ∧ s.stop ≤ t.start) ∧
      (∀ t : ImportSpan, t.In content.toList →
        t ∈ spans ∨ ∃ s ∈ spans, s.start < t.start ∧ t.start < s.stop) ∧
      ∀ s t : ImportSpan, s.In content.toList → t.In content.toList → s.start = t.start →
        s = t := by
  obtain ⟨spans, chosen, found⟩ := exists_chosen [] content.toList
  refine ⟨spans, chosen, fun others => chosen.unique, ?_, fun s member => (chosen.isIn s member).1,
    ?_, fun t inside => chosen.covers inside (Nat.zero_le _), fun s t => ImportSpan.In.unique⟩
  · rw [scanImports, found, List.map_map]
    rfl
  · refine chosen.pairwise.imp_of_mem fun {s t} member _ apart => ⟨?_, apart⟩
    exact (chosen.isIn s member).1.bounds.1

/-- The quote that closes a call may open another, which is passed by. -/
example : scanImports "require('import(')')" = ["import("] := by decide +kernel

end Choice
end ModuleBundler.Script
