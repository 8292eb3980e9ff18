import ModuleBundler.Proofs.Script.Sections

/-! What minifying does to blanks. The blanks of a text part it into words in one way,
and to join the words by single spaces is the shortest way to write them down; nothing
but blanks is changed by it. The last pass goes over lines, but there is one line only
when its turn comes. -/
namespace ModuleBundler.Text

variable {text : List Char} {ws vs : List (List Char)} {c : Char}

/-- The words of a text, told by how blanks part it: a word reaches to the next blank or to the end
of the text. -/
inductive HasWords : List Char → List (List Char) → Prop
  | nil : HasWords [] []
  | blank {c rest ws} : isBlank c = true → HasWords rest ws → HasWords (c :: rest) ws
  | last {w} : IsWord w → HasWords w [w]
  | word {w c rest ws} : IsWord w → isBlank c = true → HasWords rest ws →
      HasWords (w ++ c :: rest) (w :: ws)

theorem hasWords_words (text : List Char) : HasWords text (words text) := by
  induction text using words_induction with
  | nil => exact .nil
  | blank c rest blank ih =>
    rw [words_cons_blank blank]
    exact .blank blank ih
  | last w word =>
    rw [words_of_isWord word]
    exact .last word
  | word w c rest word blank ih =>
    rw [words_isWord_append word blank]
    exact .word word blank ih

theorem hasWords_iff : HasWords text ws ↔ ws = words text := by
  constructor
  · intro parted
    induction parted with
    | nil => rfl
    | blank blank _ ih => rw [words_cons_blank blank, ih]
    | last word => rw [words_of_isWord word]
    | word word blank _ ih => rw [words_isWord_append word blank, ih]
  · rintro rfl
    exact hasWords_words text

theorem flatten_words (text : List Char) : (words text).flatten = text.filter (!isBlank ·) := by
  have kept : ∀ w, IsWord w → w.filter (!isBlank ·) = w := by
    intro w word
    simpa [List.filter_eq_self] using word.2
  induction text using words_induction with
  | nil => rfl
  | blank c rest blank ih =>
    rw [words_cons_blank blank, List.filter_cons_of_neg (by simp [blank])]
    exact ih
  | last w word => rw [words_of_isWord word, List.flatten_singleton, kept w word]
  | word w c rest word blank ih =>
    rw [words_isWord_append word blank, List.flatten_cons, List.filter_append, kept w word,
      List.filter_cons_of_neg (by simp [blank])]
    exact congrArg (w ++ ·) ih

theorem eq_space_of_mem_unwords (words : ∀ w ∈ ws, IsWord w) (member : c ∈ unwords ws)
    (blank : isBlank c = true) : c = ' ' := by
  induction ws with
  | nil => cases member
  | cons w rest ih =>
    obtain ⟨word, others⟩ := List.forall_mem_cons.mp words
    have outside : c ∉ w := fun inside => by simp [word.2 c inside] at blank
    by_cases final : rest = []
    · rw [final, unwords_singleton] at member
      exact absurd member outside
    · rw [unwords_cons w final, List.mem_append, List.mem_cons] at member
      rcases member with inside | space | later
      · exact absurd inside outside
      · exact space
      · exact ih others later

theorem not_adjacent_unwords (words : ∀ w ∈ ws, IsWord w) : ¬ [' ', ' '] <:+: unwords ws := by
  rintro ⟨before, after, parts⟩
  have space : isBlank ' ' = true := by decide
  have twice : unwords ws = before ++ ' ' :: ' ' :: after := by simp [← parts]
  -- One space parts the same words, and no text with these words is shorter than the joined one.
  have once : Text.words (before ++ ' ' :: after) = ws := by
    rw [← words_unwords words, twice, words_append_blank space, words_append_blank space,
      words_cons_blank space]
  have shortest := length_unwords_words_le (before ++ ' ' :: after)
  rw [once, twice] at shortest
  simp only [List.length_append, List.length_cons] at shortest
  omega

end ModuleBundler.Text

namespace ModuleBundler.Script

open Text

section Lines

/-- How many blanks are removed here because they are at an edge of their line. At the start of a
line, and before the end of the text, it is the whole run of blanks; elsewhere it is what the run
has before its last line end. -/
def edgeLength (lineStart : Bool) (text : List Char) : Nat :=
  let run := text.takeWhile isBlank
  if lineStart || run.length == text.length then run.length
  else (run.reverse.dropWhile (· ≠ '\n')).length - 1

/-- Text without the blanks at the edges of its lines. -/
def trimLines (lineStart : Bool) (text : List Char) : List Char :=
  match text with
  | [] => []
  | c :: rest =>
    match edgeLength lineStart (c :: rest) with
    | 0 => c :: trimLines (c == '\n') rest
    | n + 1 => trimLines ((c :: rest)[n]? == some '\n') (rest.drop n)
  termination_by text.length
  decreasing_by
    · exact Nat.lt_succ_self _
    · exact Nat.lt_succ_of_le (List.drop_sublist n rest).length_le

variable {text rest : List Char} {c : Char}

theorem edgeLength_lineStart (text : List Char) :
    edgeLength true text = (text.takeWhile isBlank).length := rfl

theorem edgeLength_inside (line : '\n' ∉ text) :
    edgeLength false text = if text.all isBlank then text.length else 0 := by
  have whole : (text.takeWhile isBlank).length = text.length ↔ text.all isBlank = true := by
    rw [List.all_eq_true, ← List.takeWhile_eq_self_iff]
    constructor
    · exact (List.takeWhile_prefix isBlank).eq_of_length
    · exact congrArg List.length
  have unended : (text.takeWhile isBlank).reverse.dropWhile (· ≠ '\n') = [] := by
    rw [List.dropWhile_eq_nil_iff]
    intro c member
    have inText : c ∈ text :=
      (List.takeWhile_sublist isBlank).subset (List.mem_reverse.mp member)
    simpa using fun newline : c = '\n' => line (newline ▸ inText)
  simp only [edgeLength, Bool.false_or, beq_iff_eq, whole, unended]
  split
  next blank => exact whole.mpr blank
  next => rfl

theorem trimLines_keep {lineStart : Bool} (inner : edgeLength lineStart (c :: rest) = 0) :
    trimLines lineStart (c :: rest) = c :: trimLines (c == '\n') rest := by
  rw [trimLines, inner]

/-- In a text of one line the blanks that are removed do not end it. -/
theorem trimLines_drop {lineStart : Bool} (line : '\n' ∉ text)
    (edge : edgeLength lineStart text ≠ 0) :
    trimLines lineStart text = trimLines false (text.drop (edgeLength lineStart text)) := by
  cases text with
  | nil => rw [List.drop_nil, trimLines, trimLines]
  | cons c rest =>
    obtain ⟨n, same⟩ := Nat.exists_eq_succ_of_ne_zero edge
    have unended : ((c :: rest)[n]? == some '\n') = false := by
      rw [beq_eq_false_iff_ne]
      exact fun newline => line (List.mem_of_getElem? newline)
    rw [trimLines, same]
    change trimLines ((c :: rest)[n]? == some '\n') (rest.drop n) = trimLines false (rest.drop n)
    rw [unended]

theorem rdropWhile_cons (inner : ¬ (c :: rest).all isBlank = true) :
    (c :: rest).rdropWhile isBlank = c :: rest.rdropWhile isBlank := by
  rw [List.rdropWhile, List.rdropWhile, List.reverse_cons, List.dropWhile_append]
  split
  next gone =>
    have blanks : rest.all isBlank = true := by simpa using gone
    have solid : ¬ isBlank c = true := fun blank => inner (by rw [List.all_cons, blank, blanks]; rfl)
    rw [List.isEmpty_iff.mp gone, List.dropWhile_cons_of_neg solid]
    rfl
  next => simp

theorem trimLines_inside (line : '\n' ∉ text) : trimLines false text = text.rdropWhile isBlank := by
  induction text with
  | nil => simp [trimLines]
  | cons c rest ih =>
    obtain ⟨here, later⟩ := not_or.mp (mt List.mem_cons.mpr line)
    have length := edgeLength_inside line
    by_cases blanks : (c :: rest).all isBlank = true
    · rw [if_pos blanks] at length
      rw [trimLines_drop line (by simp [length]), length, List.drop_length, trimLines,
        List.rdropWhile_eq_nil_iff.mpr (List.all_eq_true.mp blanks)]
    · rw [if_neg blanks] at length
      rw [trimLines_keep length, rdropWhile_cons blanks, beq_false_of_ne (Ne.symm here), ih later]

/-- In a text of one line the edges of lines are the ends of the text. -/
theorem trimLines_eq_trim (line : '\n' ∉ text) : trimLines true text = trim text := by
  have trimmed : trim text = (text.dropWhile isBlank).rdropWhile isBlank := rfl
  by_cases edge : edgeLength true text = 0
  · cases text with
    | nil => simp [trimLines, trim, trimBy]
    | cons c rest =>
      obtain ⟨here, later⟩ := not_or.mp (mt List.mem_cons.mpr line)
      have solid : ¬ isBlank c = true := by
        intro blank
        rw [edgeLength_lineStart, List.takeWhile_cons_of_pos blank] at edge
        cases edge
      have inner : ¬ (c :: rest).all isBlank = true := fun blanks =>
        solid (List.all_eq_true.mp blanks c List.mem_cons_self)
      rw [trimLines_keep edge, beq_false_of_ne (Ne.symm here), trimLines_inside later, trimmed,
        List.dropWhile_cons_of_neg solid, rdropWhile_cons inner]
  · have inside : '\n' ∉ text.dropWhile isBlank := fun member =>
      line ((List.dropWhile_sublist isBlank).subset member)
    have dropped : (text.takeWhile isBlank ++ text.dropWhile isBlank).drop
        (text.takeWhile isBlank).length = text.dropWhile isBlank := List.drop_left
    rw [List.takeWhile_append_dropWhile] at dropped
    rw [trimLines_drop line edge, edgeLength_lineStart, dropped, trimLines_inside inside, trimmed]

/-- Between several lines also line ends count as blanks at an edge. -/
example : trimLines true " a \n\n b\t\nc ".toList = "ab\nc".toList := by decide +kernel

end Lines

section Collapse

variable {text : List Char} {c : Char}

theorem eq_space_of_mem_collapseBlanks (member : c ∈ collapseBlanks text)
    (blank : isBlank c = true) : c = ' ' := by
  induction text using collapseBlanks.induct with
  | case1 => simp [collapseBlanks] at member
  | case2 d rest here ih =>
    rw [collapseBlanks, if_pos here, List.mem_cons] at member
    exact member.elim id ih
  | case3 d rest solid ih =>
    rw [collapseBlanks, if_neg solid, List.mem_cons] at member
    refine ih (member.resolve_left ?_)
    rintro rfl
    exact solid blank

theorem toList_minify_eq_trimLines (code : String) :
    (minify code).toList = trimLines true (collapseBlanks (stripComments code).toList) := by
  have line : '\n' ∉ collapseBlanks (stripFrom true code.toList) := fun member =>
    absurd (eq_space_of_mem_collapseBlanks member (by decide)) (by decide)
  rw [toList_stripComments, trimLines_eq_trim line, minify, String.toList_ofList, minifyChars]

end Collapse

/-- To minify a script is to join the words that its comments leave, which are told by the blanks in
one way, by single spaces. The blanks of the result are spaces between two words, none of them a
line end, and what is not blank is as it was. The last of the passes goes over every line, and
comes to the same. -/
theorem minify_joins_words (code : String) :
    (∃ ws, (∀ vs, HasWords (stripComments code).toList vs ↔ vs = ws) ∧
      minify code = " ".intercalate (ws.map String.ofList)) ∧
    (minify code).toList = trimLines true (collapseBlanks (stripComments code).toList) ∧
    (∀ c ∈ (minify code).toList, isBlank c = true → c = ' ') ∧
    ¬ [' ', ' '] <:+: (minify code).toList ∧
    (minify code).toList.head? ≠ some ' ' ∧ (minify code).toList.getLast? ≠ some ' ' ∧
    (minify code).toList.filter (!isBlank ·) =
      (stripComments code).toList.filter (!isBlank ·) := by
  have joined : (minify code).toList = unwords (words (stripComments code).toList) := by
    rw [toList_minify, toList_stripComments]
  have solid : ∀ w ∈ words (stripComments code).toList, IsWord w := fun w member =>
    isWord_of_mem_words member
  have tight : Tight isBlank (minify code).toList := joined ▸ tight_unwords solid
  refine ⟨⟨words (stripComments code).toList, fun vs => hasWords_iff, ?_⟩,
    toList_minify_eq_trimLines code, ?_, ?_, ?_, ?_, ?_⟩
  · apply String.toList_injective
    rw [joined, String.toList_intercalate, List.map_map]
    simp [unwords, Function.comp_def]
  · intro c member
    rw [joined] at member
    exact eq_space_of_mem_unwords solid member
  · rw [joined]
    exact not_adjacent_unwords solid
  · intro first
    simpa [isBlank] using tight.front ' ' first
  · intro final
    simpa [isBlank] using tight.back ' ' final
  · rw [joined, ← flatten_words, ← flatten_words, words_unwords solid]

example : minify "\t/* a */\u2003x // b\n\n  y\u0085/* c */ " = "x y" := by decide +kernel

end ModuleBundler.Script
