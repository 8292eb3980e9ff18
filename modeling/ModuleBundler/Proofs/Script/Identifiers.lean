import ModuleBundler.Proofs.Script.Seams

/-! The identifiers of a text, which are its runs of letters, digits, `_` and `$`, and
what minifying does to them. Read with a space in the place of each comment, a text has
the identifiers that its author sees. Line comments keep them, since the line end stays;
a block comment leaves nothing, so that identifiers are lost just where one stands on
either side of a seam. -/
namespace ModuleBundler.Script

open Text

/-- A character of an identifier. -/
def isNameChar (c : Char) : Bool := c.isAlphanum || c == '_' || c == '$'

/-- The longest runs of identifier characters, in order. -/
def identifiers (text : List Char) : List (List Char) :=
  (text.splitOnP (!isNameChar ·)).filter (· ≠ [])

/-- An identifier character stands on either side. -/
def Glues (before after : List Char) : Prop :=
  before.getLast?.any isNameChar = true ∧ after.head?.any isNameChar = true

/-- The text with a mark in the place of each comment, behind the character that a line comment
keeps. -/
def markFrom (mark : List Char) (lineStart : Bool) (text : List Char) : List Char :=
  match text with
  | [] => []
  | c :: tail =>
    match block : afterBlock? (c :: tail) with
    | some rest =>
      have := length_afterBlock? block
      mark ++ markFrom mark false rest
    | none =>
      if !shieldsSlashes c && startsDoubleSlash tail then
        c :: (mark ++ markFrom mark false (restOfLine tail))
      else if lineStart && startsDoubleSlash (c :: tail) then
        mark ++ markFrom mark false (restOfLine tail)
      else c :: markFrom mark (c == '\n') tail
  termination_by text.length
  decreasing_by
    · exact this
    · exact Nat.lt_succ_of_le (length_restOfLine_le tail)
    · exact Nat.lt_succ_of_le (length_restOfLine_le tail)
    · exact Nat.lt_succ_self _

section Runs

variable {before after text : List Char} {c d : Char}

@[simp] theorem identifiers_nil : identifiers [] = [] := rfl

/-- Any other character parts the identifiers before it from those after it. -/
theorem identifiers_append_cons (apart : isNameChar c = false) (before after : List Char) :
    identifiers (before ++ c :: after) = identifiers before ++ identifiers after := by
  rw [identifiers, List.splitOnP_append_cons _ _ (by simp [apart]), List.filter_append]
  rfl

theorem identifiers_cons (apart : isNameChar c = false) (text : List Char) :
    identifiers (c :: text) = identifiers text := identifiers_append_cons apart [] text

theorem not_glues_nil_left : ¬ Glues [] after := by simp [Glues]

theorem not_glues_nil_right : ¬ Glues before [] := by simp [Glues]

theorem glues_append (some : text ≠ []) (before : List Char) :
    Glues (before ++ text) after ↔ Glues text after := by
  rw [Glues, Glues, List.getLast?_append_of_ne_nil _ some]

theorem identifiers_append (apart : ¬ Glues before after) :
    identifiers (before ++ after) = identifiers before ++ identifiers after := by
  rcases List.eq_nil_or_concat' before with rfl | ⟨front, c, rfl⟩
  · rfl
  · cases after with
    | nil => simp
    | cons d rest =>
      cases first : isNameChar c with
      | false =>
        rw [List.append_assoc, List.singleton_append, identifiers_append_cons first,
          identifiers_append_cons first, identifiers_nil, List.append_nil]
      | true =>
        have second : isNameChar d = false := by simpa [Glues, first] using apart
        rw [identifiers_append_cons second, identifiers_cons second]

/-- An identifier character in front of another makes its run longer. -/
theorem length_identifiers_cons_cons (first : isNameChar c = true) (second : isNameChar d = true)
    (text : List Char) : (identifiers (c :: d :: text)).length = (identifiers (d :: text)).length := by
  cases pieces : text.splitOnP (!isNameChar ·) with
  | nil => exact absurd pieces (List.splitOnP_ne_nil _ _)
  | cons piece rest =>
    simp [identifiers, List.splitOnP_cons_eq_if_modifyHead, first, second, pieces]

/-- Where two identifier characters meet, two runs become one. -/
theorem length_identifiers_append (glued : Glues before after) :
    (identifiers (before ++ after)).length + 1 =
      (identifiers before).length + (identifiers after).length := by
  induction before with
  | nil => exact absurd glued not_glues_nil_left
  | cons c before ih =>
    cases before with
    | nil =>
      cases after with
      | nil => exact absurd glued not_glues_nil_right
      | cons d rest =>
        obtain ⟨first, second⟩ : isNameChar c = true ∧ isNameChar d = true := by
          simpa [Glues] using glued
        have single : identifiers [c] = [[c]] := by simp [identifiers, List.splitOnP_eq_singleton, first]
        rw [List.singleton_append, length_identifiers_cons_cons first second, single,
          List.length_singleton, Nat.add_comm]
    | cons d rest =>
      have later := ih ((glues_append (List.cons_ne_nil _ _) [c]).mp glued)
      rw [List.cons_append] at later
      rw [List.cons_append, List.cons_append]
      by_cases meet : Glues [c] (d :: rest)
      · obtain ⟨first, second⟩ : isNameChar c = true ∧ isNameChar d = true := by
          simpa [Glues] using meet
        rw [length_identifiers_cons_cons first second, length_identifiers_cons_cons first second]
        exact later
      · have parted : ¬ Glues [c] (d :: (rest ++ after)) := by simpa [Glues] using meet
        have whole := identifiers_append parted
        have part := identifiers_append meet
        rw [List.singleton_append] at whole part
        rw [whole, part, List.length_append, List.length_append]
        omega

theorem code_of_isNameChar (name : isNameChar c = true) : 36 ≤ c.toNat ∧ c.toNat ≤ 122 := by
  have ranges : isNameChar c = (decide (c.val ≥ 'A'.val ∧ c.val ≤ 'Z'.val) ||
      (c.val ≥ 'a'.val && c.val ≤ 'z'.val) || (c.val ≥ '0'.val && c.val ≤ '9'.val) ||
      c == '_' || c == '$') := rfl
  simp only [ranges, Bool.or_eq_true, Bool.and_eq_true, decide_eq_true_eq, beq_iff_eq, ge_iff_le,
    UInt32.le_iff_toNat_le] at name
  rcases name with (((range | range) | range) | rfl) | rfl
  · exact ⟨le_trans (by decide) range.1, le_trans range.2 (by decide)⟩
  · exact ⟨le_trans (by decide) range.1, le_trans range.2 (by decide)⟩
  · exact ⟨le_trans (by decide) range.1, le_trans range.2 (by decide)⟩
  · decide
  · decide

theorem isNameChar_of_isBlank (blank : isBlank c = true) : isNameChar c = false := by
  by_contra name
  have code := code_of_isNameChar (Bool.of_not_eq_false name)
  have ascii : c.toNat < 0x80 := by omega
  simp [isBlank, ascii] at blank
  omega

theorem identifiers_unwords (ws : List (List Char)) :
    identifiers (unwords ws) = ws.flatMap identifiers := by
  induction ws with
  | nil => rfl
  | cons w rest ih =>
    by_cases last : rest = []
    · simp [last]
    · rw [unwords_cons w last, identifiers_append_cons (by decide), ih, List.flatMap_cons]

theorem identifiers_words (text : List Char) : (words text).flatMap identifiers = identifiers text := by
  induction text using words_induction with
  | nil => rfl
  | blank c rest blank ih =>
    rw [words_cons_blank blank, ih, ← List.nil_append (c :: rest),
      identifiers_append_cons (isNameChar_of_isBlank blank), identifiers_nil, List.nil_append]
  | last w word => rw [words_of_isWord word, List.flatMap_singleton]
  | word w c rest word blank ih =>
    rw [words_isWord_append word blank, List.flatMap_cons, ih,
      identifiers_append_cons (isNameChar_of_isBlank blank)]

/-- Collapsing blanks parts no identifier and joins none. -/
theorem identifiers_minify (code : String) :
    identifiers (minify code).toList = identifiers (stripFrom true code.toList) := by
  rw [toList_minify, identifiers_unwords, identifiers_words]

end Runs

section Scan

variable {mark before text tail rest : List Char} {lineStart : Bool} {c : Char}

theorem markFrom_nil (mark : List Char) (lineStart : Bool) : markFrom mark lineStart [] = [] := by
  rw [markFrom]

theorem markFrom_block (block : afterBlock? (c :: tail) = some rest) :
    markFrom mark lineStart (c :: tail) = mark ++ markFrom mark false rest := by
  rw [markFrom]
  split
  · next found => rw [Option.some.inj (block.symm.trans found)]
  · next missing => cases block.symm.trans missing

theorem markFrom_unblocked (unblocked : afterBlock? (c :: tail) = none) :
    markFrom mark lineStart (c :: tail) =
      if !shieldsSlashes c && startsDoubleSlash tail then
        c :: (mark ++ markFrom mark false (restOfLine tail))
      else if lineStart && startsDoubleSlash (c :: tail) then
        mark ++ markFrom mark false (restOfLine tail)
      else c :: markFrom mark (c == '\n') tail := by
  rw [markFrom]
  split
  · next found => cases unblocked.symm.trans found
  · rfl

/-- Without a mark the comments are just taken out. -/
theorem markFrom_empty (lineStart : Bool) (text : List Char) :
    markFrom [] lineStart text = stripFrom lineStart text := by
  induction lineStart, text using stripFrom.induct with
  | case1 => rw [markFrom, stripFrom]
  | case2 lineStart c tail rest block _ ih => rw [markFrom_block block, stripFrom_block block, ih]; rfl
  | case3 lineStart c tail unblocked slashes ih =>
    rw [markFrom_unblocked unblocked, stripFrom_unblocked unblocked, if_pos slashes, if_pos slashes,
      ih, List.nil_append]
  | case4 lineStart c tail unblocked kept slashes ih =>
    rw [markFrom_unblocked unblocked, stripFrom_unblocked unblocked, if_neg kept, if_neg kept,
      if_pos slashes, if_pos slashes, ih, List.nil_append]
  | case5 lineStart c tail unblocked kept plain ih =>
    rw [markFrom_unblocked unblocked, stripFrom_unblocked unblocked, if_neg kept, if_neg kept,
      if_neg plain, if_neg plain, ih]

/-- A space in front of a line end parts nothing that is not parted. -/
theorem identifiers_append_spaceLine (before text : List Char) :
    identifiers (before ++ ' ' :: markFrom mark false (restOfLine text)) =
      identifiers (before ++ markFrom mark false (restOfLine text)) := by
  rw [identifiers_append_cons (by decide)]
  rcases atLineEnd_restOfLine text with nothing | ⟨later, starts⟩
  · rw [nothing, markFrom_nil, List.append_nil, identifiers_nil, List.append_nil]
  · have plain : startsDoubleSlash ('\n' :: later) = false := rfl
    obtain ⟨more, same⟩ : ∃ more, markFrom mark false (restOfLine text) = '\n' :: more := by
      rw [starts, markFrom_unblocked rfl, plain, Bool.and_false, if_neg Bool.false_ne_true]
      split
      · exact ⟨_, rfl⟩
      · exact ⟨_, rfl⟩
    rw [same, identifiers_append_cons (by decide), identifiers_cons (by decide)]

/-- A seam at the start of the kept text glues what stands before it; behind that, the text before
does not count. -/
theorem forall_seams_append (apart : ¬ Glues before (stripFrom lineStart text)) :
    (∀ s ∈ seams lineStart text, ¬ Glues (before ++ s.1) s.2) ↔
      ∀ s ∈ seams lineStart text, ¬ Glues s.1 s.2 := by
  refine forall_congr' fun s => imp_congr_right fun seam => ?_
  by_cases first : s.1 = []
  · have kept := append_of_mem_seams seam
    rw [first, List.nil_append] at kept
    rw [first, kept, List.append_nil]
    exact iff_of_true apart not_glues_nil_left
  · rw [glues_append first]

/-- The kept text has the identifiers of the spaced one just if no seam glues two of them; otherwise
it has fewer. -/
theorem identifiers_stripFrom (before : List Char) (lineStart : Bool) (text : List Char) :
    (identifiers (before ++ stripFrom lineStart text)).length ≤
        (identifiers (before ++ markFrom [' '] lineStart text)).length ∧
      (identifiers (before ++ stripFrom lineStart text) =
          identifiers (before ++ markFrom [' '] lineStart text) ↔
        ∀ s ∈ seams lineStart text, ¬ Glues (before ++ s.1) s.2) := by
  induction lineStart, text using stripFrom.induct generalizing before with
  | case1 lineStart => simp [stripFrom, markFrom, seams]
  | case2 lineStart c tail rest block _ ih =>
    rw [stripFrom_block block, markFrom_block block, seams_block block, List.forall_mem_cons,
      List.append_nil, List.singleton_append, identifiers_append_cons (by decide)]
    obtain ⟨fewer, same⟩ := ih []
    simp only [List.nil_append] at fewer same
    by_cases glued : Glues before (stripFrom false rest)
    · have joined := length_identifiers_append glued
      rw [List.length_append]
      refine ⟨by omega, iff_of_false (fun equal => ?_) fun all => all.1 glued⟩
      rw [equal, List.length_append] at joined
      omega
    · rw [identifiers_append glued, List.append_right_inj, forall_seams_append glued, same,
        and_iff_right glued, List.length_append, List.length_append]
      exact ⟨by omega, Iff.rfl⟩
  | case3 lineStart c tail unblocked slashes ih =>
    have later := ih (before ++ [c])
    rw [stripFrom_unblocked unblocked, markFrom_unblocked unblocked, seams_unblocked unblocked,
      if_pos slashes, if_pos slashes, if_pos slashes, List.forall_mem_map, List.singleton_append,
      List.append_cons before c (' ' :: _), identifiers_append_spaceLine]
    simpa using later
  | case4 lineStart c tail unblocked kept slashes ih =>
    rw [stripFrom_unblocked unblocked, markFrom_unblocked unblocked, seams_unblocked unblocked,
      if_neg kept, if_neg kept, if_neg kept, if_pos slashes, if_pos slashes, if_pos slashes,
      List.singleton_append, identifiers_append_spaceLine]
    exact ih before
  | case5 lineStart c tail unblocked kept plain ih =>
    have later := ih (before ++ [c])
    rw [stripFrom_unblocked unblocked, markFrom_unblocked unblocked, seams_unblocked unblocked,
      if_neg kept, if_neg kept, if_neg kept, if_neg plain, if_neg plain, if_neg plain,
      List.forall_mem_map]
    simpa using later

end Scan

/-- Minified text has the identifiers of its text, comments read as spaces, just if no block comment
was all that parted two of them. -/
theorem identifiers_minify_iff (code : String) :
    markFrom [] true code.toList = (stripComments code).toList ∧
      (identifiers (minify code).toList = identifiers (markFrom [' '] true code.toList) ↔
        ∀ s ∈ seams true code.toList, ¬ Glues s.1 s.2) := by
  refine ⟨by rw [markFrom_empty, toList_stripComments], ?_⟩
  rw [identifiers_minify]
  exact (identifiers_stripFrom [] true code.toList).2

/-- A block comment that is all that parts two identifiers leaves one. -/
theorem block_comment_glues :
    let code := "return/* the sum */total"
    minify code = "returntotal" ∧
      identifiers (markFrom [' '] true code.toList) = ["return".toList, "total".toList] ∧
      identifiers (minify code).toList ≠ identifiers (markFrom [' '] true code.toList) := by
  decide +kernel

end ModuleBundler.Script
