import ModuleBundler.Bundle.Build
import ModuleBundler.Proofs.Script.Words

/-! Minifying the sections of a bundle, each by itself. A scan for comments carries
nothing over a line end but an open block comment, and the line that labels a section
is a comment of its own; so a section whose block comments all end leaves the same
words whatever stands before it and after it. -/
namespace ModuleBundler.Script

open Text

/-- The text has the start of a block comment in it. -/
def OpensBlock (text : List Char) : Prop := ['/', '*'] <:+: text

/-- Nothing, or the end of a line. -/
def AtLineEnd (text : List Char) : Prop := text = [] ∨ ∃ later, text = '\n' :: later

section Scan

variable {lineStart : Bool} {c : Char} {text rest more : List Char}

theorem opensBlock_cons (later : OpensBlock text) : OpensBlock (c :: text) :=
  List.infix_cons later

theorem afterBlockEnd?_append (ended : afterBlockEnd? text = some rest) (more : List Char) :
    afterBlockEnd? (text ++ more) = some (rest ++ more) := by
  fun_induction afterBlockEnd? text with
  | case1 =>
    cases ended
    rfl
  | case2 c tail apart ih =>
    cases tail with
    | nil => cases ended
    | cons d tail =>
      rw [List.cons_append, List.cons_append, afterBlockEnd?, ← List.cons_append, ih ended]
      intro later star slash
      cases star
      cases slash
      exact apart tail rfl rfl
  | case3 => cases ended

theorem afterBlock?_append (ended : afterBlock? text = some rest) (more : List Char) :
    afterBlock? (text ++ more) = some (rest ++ more) := by
  unfold afterBlock? at ended
  split at ended
  · exact afterBlockEnd?_append ended more
  · cases ended

theorem afterBlock?_of_not_prefix (plain : ¬ ['/', '*'] <+: text) : afterBlock? text = none := by
  fun_cases afterBlock? text with
  | case1 rest => exact absurd (List.prefix_append ['/', '*'] rest) plain
  | case2 => rfl

theorem startsDoubleSlash_iff (text : List Char) :
    startsDoubleSlash text = true ↔ ['/', '/'] <+: text := by
  fun_cases startsDoubleSlash text with
  | case1 rest => exact iff_of_true rfl (List.prefix_append ['/', '/'] rest)
  | case2 _ apart =>
    refine iff_of_false Bool.false_ne_true ?_
    rintro ⟨rest, same⟩
    exact apart rest same.symm

/-- What starts a text and does without a character is there before that character. -/
theorem prefix_append_cons {mark : List Char} (apart : c ∉ mark) :
    mark <+: text ++ c :: more ↔ mark <+: text := by
  refine ⟨fun starts => ?_, fun starts => starts.trans (List.prefix_append _ _)⟩
  have line : text ++ [c] <+: text ++ c :: more := ⟨more, by simp⟩
  rcases List.prefix_or_prefix_of_prefix starts line with shorter | longer
  · rcases List.prefix_concat_iff.mp shorter with rfl | within
    · exact absurd (by simp) apart
    · exact within
  · exact absurd (longer.mem (by simp)) apart

/-- What starts a text and stays in one line is there before the line ends. -/
theorem prefix_append_lineEnd {mark : List Char} (inLine : '\n' ∉ mark) (lineEnd : AtLineEnd more) :
    mark <+: text ++ more ↔ mark <+: text := by
  rcases lineEnd with rfl | ⟨later, rfl⟩
  · rw [List.append_nil]
  · exact prefix_append_cons inLine

theorem startsDoubleSlash_append (lineEnd : AtLineEnd more) (text : List Char) :
    startsDoubleSlash (text ++ more) = startsDoubleSlash text := by
  rw [Bool.eq_iff_iff, startsDoubleSlash_iff, startsDoubleSlash_iff]
  exact prefix_append_lineEnd (by decide) lineEnd

theorem restOfLine_append (lineEnd : AtLineEnd more) (text : List Char) :
    restOfLine (text ++ more) = restOfLine text ++ more := by
  rcases lineEnd with rfl | ⟨later, rfl⟩
  · simp
  · induction text with
    | nil => rfl
    | cons c tail ih =>
      by_cases ends : c = '\n'
      · rw [ends]
        rfl
      · have skipped : ∀ line, restOfLine (c :: line) = restOfLine line := fun line =>
          List.dropWhile_cons_of_pos (by simpa using ends)
        rw [List.cons_append, skipped, skipped, ih]

theorem stripFrom_block {tail : List Char} (block : afterBlock? (c :: tail) = some rest) :
    stripFrom lineStart (c :: tail) = stripFrom false rest := by
  rw [stripFrom]
  split
  · next found => rw [Option.some.inj (block.symm.trans found)]
  · next missing => cases block.symm.trans missing

theorem stripFrom_unblocked {tail : List Char} (unblocked : afterBlock? (c :: tail) = none) :
    stripFrom lineStart (c :: tail) =
      if !shieldsSlashes c && startsDoubleSlash tail then c :: stripFrom false (restOfLine tail)
      else if lineStart && startsDoubleSlash (c :: tail) then stripFrom false (restOfLine tail)
      else c :: stripFrom (c == '\n') tail := by
  rw [stripFrom]
  split
  · next found => cases unblocked.symm.trans found
  · rfl

/-- It does not matter at a line end whether it begins a line itself. -/
theorem stripFrom_lineEnd (lineEnd : AtLineEnd text) (lineStart : Bool) :
    stripFrom lineStart text = stripFrom true text := by
  rcases lineEnd with rfl | ⟨later, rfl⟩
  · rw [stripFrom, stripFrom]
  · have plain : startsDoubleSlash ('\n' :: later) = false := rfl
    rw [stripFrom_unblocked rfl, stripFrom_unblocked rfl, plain, Bool.and_false, Bool.and_false]

/-- A block comment without an end stays. -/
theorem opensBlock_stripFrom (unblocked : afterBlock? text = none)
    (opens : ['/', '*'] <+: text) : OpensBlock (stripFrom lineStart text) := by
  obtain ⟨tail, rfl⟩ := opens
  simp only [List.cons_append, List.nil_append] at unblocked ⊢
  obtain ⟨line, starred⟩ : ∃ line, stripFrom false ('*' :: tail) = '*' :: line := by
    rw [stripFrom_unblocked rfl, Bool.false_and, if_neg Bool.false_ne_true]
    split
    · exact ⟨_, rfl⟩
    · exact ⟨_, rfl⟩
  have slashed :
      stripFrom lineStart ('/' :: '*' :: tail) = '/' :: stripFrom false ('*' :: tail) := by
    rw [stripFrom_unblocked unblocked]
    simp [startsDoubleSlash]
  rw [slashed, starred]
  exact (List.prefix_append ['/', '*'] line).isInfix

theorem afterBlock?_append_of_none (lineEnd : AtLineEnd more) (unblocked : afterBlock? text = none)
    (closed : ¬ OpensBlock (stripFrom lineStart text)) : afterBlock? (text ++ more) = none := by
  apply afterBlock?_of_not_prefix
  rw [prefix_append_lineEnd (by decide) lineEnd]
  exact fun opens => closed (opensBlock_stripFrom unblocked opens)

/-- One step of the scan is the same whether a line follows the text or not. -/
theorem stripFrom_unblocked_append {tail : List Char} (lineEnd : AtLineEnd more)
    (unblocked : afterBlock? (c :: tail) = none)
    (closed : ¬ OpensBlock (stripFrom lineStart (c :: tail))) :
    stripFrom lineStart (c :: tail ++ more) =
      if !shieldsSlashes c && startsDoubleSlash tail then
        c :: stripFrom false (restOfLine tail ++ more)
      else if lineStart && startsDoubleSlash (c :: tail) then
        stripFrom false (restOfLine tail ++ more)
      else c :: stripFrom (c == '\n') (tail ++ more) := by
  have stillUnblocked := afterBlock?_append_of_none lineEnd unblocked closed
  have slashes := startsDoubleSlash_append lineEnd (c :: tail)
  rw [List.cons_append] at stillUnblocked slashes ⊢
  rw [stripFrom_unblocked stillUnblocked, slashes, startsDoubleSlash_append lineEnd,
    restOfLine_append lineEnd]

/-- Before a line end a text keeps its comments to itself, if no block comment is left open. -/
theorem stripFrom_append (lineEnd : AtLineEnd more)
    (closed : ¬ OpensBlock (stripFrom lineStart text)) :
    stripFrom lineStart (text ++ more) = stripFrom lineStart text ++ stripFrom true more := by
  induction lineStart, text using stripFrom.induct with
  | case1 lineStart =>
    rw [List.nil_append, stripFrom_lineEnd lineEnd, stripFrom, List.nil_append]
  | case2 lineStart c tail rest block _ ih =>
    have blockMore : afterBlock? (c :: (tail ++ more)) = some (rest ++ more) :=
      afterBlock?_append block more
    rw [stripFrom_block block] at closed ⊢
    rw [List.cons_append, stripFrom_block blockMore, ih closed]
  | case3 lineStart c tail unblocked slashes ih =>
    rw [stripFrom_unblocked_append lineEnd unblocked closed]
    rw [stripFrom_unblocked unblocked, if_pos slashes] at closed ⊢
    rw [if_pos slashes, ih (mt opensBlock_cons closed), List.cons_append]
  | case4 lineStart c tail unblocked kept slashes ih =>
    rw [stripFrom_unblocked_append lineEnd unblocked closed]
    rw [stripFrom_unblocked unblocked, if_neg kept, if_pos slashes] at closed ⊢
    rw [if_neg kept, if_pos slashes, ih closed]
  | case5 lineStart c tail unblocked kept plain ih =>
    rw [stripFrom_unblocked_append lineEnd unblocked closed]
    rw [stripFrom_unblocked unblocked, if_neg kept, if_neg plain] at closed ⊢
    rw [if_neg kept, if_neg plain, ih (mt opensBlock_cons closed), List.cons_append]

end Scan

section Sections

variable {line label content text more : List Char}

theorem stripFrom_cons_lineEnd (lineEnd : AtLineEnd more) :
    stripFrom true ('\n' :: more) = '\n' :: stripFrom true more := by
  have single : startsDoubleSlash more = false := by
    rcases lineEnd with rfl | ⟨later, rfl⟩
    · rfl
    · rfl
  have plain : startsDoubleSlash ('\n' :: more) = false := rfl
  rw [stripFrom_unblocked rfl, single, plain, Bool.and_false, Bool.and_false,
    if_neg Bool.false_ne_true, if_neg Bool.false_ne_true]
  rfl

/-- A line that starts with two slashes goes. -/
theorem stripFrom_commentLine (slashes : startsDoubleSlash line = true) (inLine : '\n' ∉ line)
    (text : List Char) :
    stripFrom true ('\n' :: (line ++ '\n' :: text)) = '\n' :: stripFrom true ('\n' :: text) := by
  have lineEnd : AtLineEnd ('\n' :: text) := .inr ⟨text, rfl⟩
  have skipped : restOfLine line = [] := by
    refine List.dropWhile_eq_nil_iff.mpr fun c member => ?_
    simpa using fun newline : c = '\n' => inLine (newline ▸ member)
  have applies : (!shieldsSlashes '\n' && startsDoubleSlash (line ++ '\n' :: text)) = true := by
    rw [startsDoubleSlash_append lineEnd, slashes]
    rfl
  rw [stripFrom_unblocked rfl, if_pos applies, restOfLine_append lineEnd, skipped, List.nil_append,
    stripFrom_lineEnd lineEnd]

/-- A section of a bundle, as characters. -/
def sectionChars (label content : List Char) : List Char :=
  '\n' :: ("// File: ".toList ++ label ++ '\n' :: (content ++ ['\n']))

theorem words_section (inLine : '\n' ∉ label)
    (closed : ¬ OpensBlock (stripFrom true ('\n' :: content))) (lineEnd : AtLineEnd more) :
    words (stripFrom true (sectionChars label content ++ more)) =
      words (stripFrom true ('\n' :: content)) ++ words (stripFrom true more) := by
  have labelled : '\n' ∉ "// File: ".toList ++ label := by
    rw [List.mem_append, not_or]
    exact ⟨by decide, inLine⟩
  have parts : sectionChars label content ++ more =
      '\n' :: ("// File: ".toList ++ label ++ '\n' :: (content ++ '\n' :: more)) := by
    simp [sectionChars]
  calc words (stripFrom true (sectionChars label content ++ more))
      = words (stripFrom true ('\n' :: content ++ '\n' :: more)) := by
        rw [parts, stripFrom_commentLine rfl labelled, words_cons_blank (by decide)]
        rfl
    _ = words (stripFrom true ('\n' :: content) ++ '\n' :: stripFrom true more) := by
        rw [stripFrom_append (.inr ⟨more, rfl⟩) closed, stripFrom_cons_lineEnd lineEnd]
    _ = words (stripFrom true ('\n' :: content)) ++ words (stripFrom true more) :=
        words_append_blank (by decide) _ _

theorem words_sections {files : List (String × String)}
    (labels : ∀ f ∈ files, '\n' ∉ f.1.toList)
    (closed : ∀ f ∈ files, ¬ OpensBlock (stripFrom true ('\n' :: f.2.toList))) :
    words (stripFrom true (files.flatMap fun f => sectionChars f.1.toList f.2.toList)) =
      files.flatMap fun f => words (stripFrom true ('\n' :: f.2.toList)) := by
  induction files with
  | nil => rw [List.flatMap_nil, stripFrom, words_nil, List.flatMap_nil]
  | cons f rest ih =>
    have lineEnd : AtLineEnd (rest.flatMap fun f => sectionChars f.1.toList f.2.toList) := by
      cases rest with
      | nil => exact .inl rfl
      | cons g rest => exact .inr ⟨_, rfl⟩
    rw [List.flatMap_cons, List.flatMap_cons,
      words_section (labels f List.mem_cons_self) (closed f List.mem_cons_self) lineEnd,
      ih (fun g member => labels g (List.mem_cons_of_mem _ member))
        (fun g member => closed g (List.mem_cons_of_mem _ member))]

end Sections

/-- A section of a bundle, under the line that names its file. -/
def labelled (label content : String) : String := s!"\n// File: {label}\n{content}\n"

theorem sectionText_eq_labelled (root path content : String) :
    Bundle.sectionText root path content = labelled (Path.relative path root) content := rfl

theorem toList_labelled (label content : String) :
    (labelled label content).toList = sectionChars label.toList content.toList := by
  simp [labelled, sectionChars, toString]

theorem toList_stripComments (code : String) :
    (stripComments code).toList = stripFrom true code.toList := String.toList_ofList

theorem toList_minify (code : String) :
    (minify code).toList = unwords (words (stripFrom true code.toList)) := by
  rw [minify, String.toList_ofList, minifyChars_eq_words]

theorem toList_newline_append (content : String) :
    ("\n" ++ content).toList = '\n' :: content.toList :=
  String.toList_append

theorem minify_sections (files : List (String × String))
    (labels : ∀ f ∈ files, '\n' ∉ f.1.toList)
    (closed : ∀ f ∈ files, ¬ "/*".toList <:+: (stripComments ("\n" ++ f.2)).toList) :
    minify (String.join (files.map fun f => labelled f.1 f.2)) =
      " ".intercalate ((files.map fun f => minify ("\n" ++ f.2)).filter (· ≠ "")) := by
  have shut : ∀ f ∈ files, ¬ OpensBlock (stripFrom true ('\n' :: f.2.toList)) := by
    intro f member
    rw [← toList_newline_append, ← toList_stripComments]
    exact closed f member
  have joined : (String.join (files.map fun f => labelled f.1 f.2)).toList =
      files.flatMap fun f => sectionChars f.1.toList f.2.toList := by
    simp only [String.toList_join, List.flatMap_map, toList_labelled]
  have pieces : ((files.map fun f => minify ("\n" ++ f.2)).filter (· ≠ "")).map String.toList =
      ((files.map fun f => words (stripFrom true ('\n' :: f.2.toList))).map unwords).filter
        (· ≠ []) := by
    have each : (files.map fun f => words (stripFrom true ('\n' :: f.2.toList))).map unwords =
        (files.map fun f => minify ("\n" ++ f.2)).map String.toList := by
      simp [toList_minify]
    have filled : (fun text : String => decide (text ≠ "")) =
        (fun cs => decide (cs ≠ [])) ∘ String.toList := by
      funext text
      simp
    rw [each, filled]
    exact List.filter_map.symm
  apply String.toList_injective
  rw [toList_minify, joined, words_sections labels shut, String.toList_intercalate,
    pieces, List.flatMap_def, unwords_flatten]
  · rfl
  · intro ws member w inWords
    obtain ⟨f, -, rfl⟩ := List.mem_map.mp member
    exact (isWord_of_mem_words inWords).1

theorem minify_sections_commented :
    let files := [("a.js", "let a = 1 // one\n/* two\n*/ let u = 'http://x'"),
      ("lib/b.js", "/* all */"), ("c // d.js", "  return */ a")]
    (∀ f ∈ files, '\n' ∉ f.1.toList) ∧
      (∀ f ∈ files, ¬ "/*".toList <:+: (stripComments ("\n" ++ f.2)).toList) ∧
      minify (String.join (files.map fun f => labelled f.1 f.2)) =
        " ".intercalate ["let a = 1 let u = 'http://x'", "return */ a"] := by
  intro files
  have labels : ∀ f ∈ files, '\n' ∉ f.1.toList := by decide
  have closed : ∀ f ∈ files, ¬ "/*".toList <:+: (stripComments ("\n" ++ f.2)).toList := by
    decide +kernel
  refine ⟨labels, closed, (minify_sections files labels closed).trans ?_⟩
  decide +kernel

end ModuleBundler.Script
