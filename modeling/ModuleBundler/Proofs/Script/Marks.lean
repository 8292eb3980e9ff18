import Mathlib.Data.List.Forall2
import Mathlib.Data.List.Infix
import ModuleBundler.Proofs.Script.Sections

/-! Where comments start. A place in a text is told by what stands before it and what
comes after it, and whether a comment starts there can be said without the scan that
takes the comments out. The scan leaves a text alone just if no comment starts in it,
and a text without block comments is cut line by line. -/
namespace ModuleBundler.Script

/-- A block comment that has an end starts the text. -/
def ClosedBlock (text : List Char) : Prop :=
  ∃ body, text = '/' :: '*' :: body ∧ ['*', '/'] <:+: body

/-- Two slashes start the text after a place, and the character before it does not shield them. -/
def BareSlashes (before after : List Char) : Prop :=
  ['/', '/'] <+: after ∧ ∀ c ∈ before.getLast?, c ≠ ':' ∧ c ≠ '\\'

/-- A comment starts between the two texts. -/
def StartsComment (before after : List Char) : Prop :=
  ClosedBlock after ∨ BareSlashes before after

/-- No comment starts in the text, which has another before it. -/
def UncommentedAfter (before text : List Char) : Prop :=
  ∀ front rest, text = front ++ rest → ¬ StartsComment (before ++ front) rest

/-- No comment starts in the text. -/
def Uncommented (text : List Char) : Prop := UncommentedAfter [] text

section Places

variable {before front text rest body : List Char} {c : Char}

theorem shieldsSlashes_eq_false : shieldsSlashes c = false ↔ c ≠ ':' ∧ c ≠ '\\' := by
  simp [shieldsSlashes]

theorem afterBlockEnd?_eq_none_iff (text : List Char) :
    afterBlockEnd? text = none ↔ ¬ ['*', '/'] <:+: text := by
  fun_induction afterBlockEnd? text with
  | case1 rest => simpa using (List.prefix_append ['*', '/'] rest).isInfix
  | case2 c tail apart ih =>
    rw [ih, List.infix_cons_iff, not_or, iff_and_self]
    rintro - ⟨rest, same⟩
    cases same
    exact apart rest rfl rfl
  | case3 => simp

theorem afterBlock?_eq_none_iff (text : List Char) :
    afterBlock? text = none ↔ ¬ ClosedBlock text := by
  fun_cases afterBlock? text with
  | case1 rest => simp [ClosedBlock, afterBlockEnd?_eq_none_iff]
  | case2 _ apart =>
    refine iff_of_true rfl ?_
    rintro ⟨body, rfl, -⟩
    exact apart body rfl

theorem closedBlock_of_afterBlock? (block : afterBlock? text = some rest) : ClosedBlock text := by
  by_contra unclosed
  rw [← afterBlock?_eq_none_iff, block] at unclosed
  cases unclosed

theorem not_closedBlock_of_ne (plain : c ≠ '/') : ¬ ClosedBlock (c :: text) := by
  rintro ⟨body, same, -⟩
  exact plain (List.cons.inj same).1

theorem not_bareSlashes_of_ne (plain : c ≠ '/') : ¬ BareSlashes before (c :: text) := by
  rintro ⟨⟨rest, same⟩, -⟩
  exact plain (List.cons.inj same).1.symm

theorem not_startsComment_nil : ¬ StartsComment before [] := by
  rintro (⟨body, same, -⟩ | ⟨slashes, -⟩)
  · cases same
  · exact absurd (List.prefix_nil.mp slashes) (List.cons_ne_nil _ _)

theorem not_startsComment_of_ne (plain : c ≠ '/') : ¬ StartsComment before (c :: text) :=
  not_or.mpr ⟨not_closedBlock_of_ne plain, not_bareSlashes_of_ne plain⟩

theorem bareSlashes_concat_iff :
    BareSlashes (before ++ [c]) text ↔ shieldsSlashes c = false ∧ startsDoubleSlash text = true := by
  rw [BareSlashes, startsDoubleSlash_iff, shieldsSlashes_eq_false, and_comm]
  simp

/-- Of the text before a place, only the last character counts. -/
theorem bareSlashes_append (some : front ≠ []) (before : List Char) :
    BareSlashes (before ++ front) text ↔ BareSlashes front text := by
  rw [BareSlashes, BareSlashes, List.getLast?_append_of_ne_nil _ some]

/-- What stands before a place does not count if it ends in a character that shields nothing. -/
theorem bareSlashes_after_concat (open_ : shieldsSlashes c = false) (before : List Char) :
    BareSlashes (before ++ [c] ++ front) text ↔ BareSlashes front text := by
  by_cases some : front = []
  · subst some
    rw [List.append_nil, bareSlashes_concat_iff, startsDoubleSlash_iff]
    simp [BareSlashes, open_]
  · exact bareSlashes_append some _

theorem uncommentedAfter_nil : UncommentedAfter before [] := by
  intro front rest parts
  rw [(List.append_eq_nil_iff.mp parts.symm).2]
  exact not_startsComment_nil

theorem uncommentedAfter_cons : UncommentedAfter before (c :: text) ↔
    ¬ StartsComment before (c :: text) ∧ UncommentedAfter (before ++ [c]) text := by
  constructor
  · intro clean
    refine ⟨fun starts => clean [] (c :: text) rfl (by simpa using starts), ?_⟩
    intro front rest parts
    rw [List.append_assoc]
    exact clean ([c] ++ front) rest (by rw [parts]; rfl)
  · rintro ⟨first, later⟩ front rest parts
    cases front with
    | nil =>
      cases parts
      simpa using first
    | cons d front =>
      obtain ⟨rfl, rfl⟩ := List.cons.inj parts
      simpa using later front rest rfl

end Places

section Scan

variable {lineStart : Bool} {c : Char} {before text rest tail : List Char}

theorem afterBlock?_suffix (ended : afterBlock? text = some rest) : rest <:+ text := by
  have inside : ∀ body, afterBlockEnd? body = some rest → rest <:+ body := by
    intro body found
    fun_induction afterBlockEnd? body with
    | case1 =>
      cases found
      exact List.suffix_append ['*', '/'] _
    | case2 c tail _ ih => exact (ih found).trans (List.suffix_cons c tail)
    | case3 => cases found
  unfold afterBlock? at ended
  split at ended
  · exact (inside _ ended).trans (List.suffix_append ['/', '*'] _)
  · cases ended

/-- The scan takes characters out and puts none in. -/
theorem stripFrom_sublist (lineStart : Bool) (text : List Char) :
    (stripFrom lineStart text).Sublist text := by
  induction lineStart, text using stripFrom.induct with
  | case1 => rw [stripFrom]
  | case2 lineStart c tail rest block _ ih =>
    rw [stripFrom_block block]
    exact ih.trans (afterBlock?_suffix block).sublist
  | case3 lineStart c tail unblocked slashes ih =>
    rw [stripFrom_unblocked unblocked, if_pos slashes]
    exact (ih.trans (List.dropWhile_sublist _)).cons_cons c
  | case4 lineStart c tail unblocked kept slashes ih =>
    rw [stripFrom_unblocked unblocked, if_neg kept, if_pos slashes]
    exact (ih.trans (List.dropWhile_sublist _)).cons c
  | case5 lineStart c tail unblocked kept plain ih =>
    rw [stripFrom_unblocked unblocked, if_neg kept, if_neg plain]
    exact ih.cons_cons c

theorem length_restOfLine_lt (slashes : startsDoubleSlash text = true) :
    (restOfLine text).length < text.length := by
  obtain ⟨rest, rfl⟩ := (startsDoubleSlash_iff text).mp slashes
  have shorter := length_restOfLine_le rest
  simp [restOfLine] at shorter ⊢
  omega

theorem atLineEnd_restOfLine (text : List Char) : AtLineEnd (restOfLine text) := by
  have ends := List.head?_dropWhile_not (· ≠ '\n') text
  cases rest : text.dropWhile (· ≠ '\n') with
  | nil => exact .inl rest
  | cons c later =>
    rw [rest] at ends
    obtain rfl : c = '\n' := by simpa using ends
    exact .inr ⟨later, rest⟩

/-- The scan has come to a text with another before it: it knows whether a line starts here, and
has not left slashes behind that start a comment. -/
structure ScansFrom (before : List Char) (lineStart : Bool) (text : List Char) : Prop where
  fresh : lineStart = true → ∀ c ∈ before.getLast?, shieldsSlashes c = false
  passed : lineStart = false → ¬ BareSlashes before text

theorem ScansFrom.init (text : List Char) : ScansFrom [] true text := ⟨by simp, by simp⟩

theorem ScansFrom.next (kept : ¬ (!shieldsSlashes c && startsDoubleSlash tail) = true)
    (before : List Char) : ScansFrom (before ++ [c]) (c == '\n') tail := by
  constructor
  · intro ends
    obtain rfl : c = '\n' := by simpa using ends
    simp [shieldsSlashes]
  · intro _ bare
    rw [bareSlashes_concat_iff] at bare
    simp [bare.1, bare.2] at kept

/-- A text stays as it is just if no comment starts in it. -/
theorem stripFrom_eq_self_iff (scans : ScansFrom before lineStart text) :
    stripFrom lineStart text = text ↔ UncommentedAfter before text := by
  induction lineStart, text using stripFrom.induct generalizing before with
  | case1 => exact iff_of_true (by rw [stripFrom]) uncommentedAfter_nil
  | case2 lineStart c tail rest block shorter ih =>
    have starts := closedBlock_of_afterBlock? block
    have gone := (stripFrom_sublist false rest).length_le
    refine iff_of_false (fun same => ?_) fun clean => (uncommentedAfter_cons.mp clean).1 (.inl starts)
    rw [stripFrom_block block] at same
    rw [same] at gone
    omega
  | case3 lineStart c tail unblocked slashes ih =>
    obtain ⟨open_, starts⟩ : shieldsSlashes c = false ∧ startsDoubleSlash tail = true := by
      simpa using slashes
    have gone := (stripFrom_sublist false (restOfLine tail)).length_le
    have shorter := length_restOfLine_lt starts
    refine iff_of_false (fun same => ?_) fun clean => ?_
    · rw [stripFrom_unblocked unblocked, if_pos slashes] at same
      rw [(List.cons.inj same).2] at gone
      omega
    · have bare : BareSlashes (before ++ [c]) tail := bareSlashes_concat_iff.mpr ⟨open_, starts⟩
      refine (uncommentedAfter_cons.mp clean).2 [] tail rfl (.inr ?_)
      rwa [List.append_nil]
  | case4 lineStart c tail unblocked kept slashes ih =>
    obtain ⟨begins, starts⟩ : lineStart = true ∧ startsDoubleSlash (c :: tail) = true := by
      simpa using slashes
    have gone := (stripFrom_sublist false (restOfLine tail)).length_le
    have shorter := length_restOfLine_le tail
    refine iff_of_false (fun same => ?_) fun clean => ?_
    · rw [stripFrom_unblocked unblocked, if_neg kept, if_pos slashes] at same
      rw [same, List.length_cons] at gone
      omega
    · refine (uncommentedAfter_cons.mp clean).1 (.inr ⟨(startsDoubleSlash_iff _).mp starts, ?_⟩)
      exact fun d last => shieldsSlashes_eq_false.mp (scans.fresh begins d last)
  | case5 lineStart c tail unblocked kept plain ih =>
    have here : ¬ StartsComment before (c :: tail) := by
      rintro (closed | bare)
      · exact (afterBlock?_eq_none_iff _).mp unblocked closed
      · cases lineStart with
        | false => exact scans.passed rfl bare
        | true => exact plain (by simpa using (startsDoubleSlash_iff _).mpr bare.1)
    rw [stripFrom_unblocked unblocked, if_neg kept, if_neg plain, uncommentedAfter_cons,
      List.cons_inj_right, ih (.next kept before)]
    exact (and_iff_right here).symm

theorem stripComments_eq_self_iff (code : String) :
    stripComments code = code ↔ Uncommented code.toList := by
  rw [← String.toList_inj, toList_stripComments]
  exact stripFrom_eq_self_iff (.init code.toList)

end Scan

section Lines

/-- What is left of a line that has a text before it: all of it, or what stands before the first
two slashes that start a comment. -/
def Cut (before line left : List Char) : Prop :=
  ∃ gone, line = left ++ gone ∧ (gone = [] ∨ BareSlashes (before ++ left) gone) ∧
    ∀ front rest, line = front ++ rest → front.length < left.length →
      ¬ BareSlashes (before ++ front) rest

variable {lineStart : Bool} {c d : Char} {before line left text : List Char}

theorem Cut.nothing (bare : BareSlashes before line) : Cut before line [] := by
  refine ⟨line, rfl, .inr (by simpa using bare), ?_⟩
  intro front rest _ shorter
  exact absurd shorter (Nat.not_lt_zero _)

theorem Cut.nil (before : List Char) : Cut before [] [] := by
  refine ⟨[], rfl, .inl rfl, ?_⟩
  intro front rest _ shorter
  exact absurd shorter (Nat.not_lt_zero _)

theorem Cut.cons (here : ¬ BareSlashes before (c :: line)) (cut : Cut (before ++ [c]) line left) :
    Cut before (c :: line) (c :: left) := by
  obtain ⟨gone, parts, ends, first⟩ := cut
  refine ⟨gone, by rw [parts, List.cons_append], ?_, ?_⟩
  · simpa using ends
  · intro front rest same shorter
    cases front with
    | nil =>
      cases same
      simpa using here
    | cons d front =>
      obtain ⟨rfl, split⟩ := List.cons.inj same
      simpa using first front rest split (by simpa using shorter)

/-- A line end before a line is as good as nothing. -/
theorem Cut.of_newline (cut : Cut ['\n'] line left) : Cut [] line left := by
  have after : ∀ front rest, BareSlashes (['\n'] ++ front) rest ↔ BareSlashes ([] ++ front) rest :=
    fun front rest => bareSlashes_after_concat (by decide) []
  obtain ⟨gone, parts, ends, first⟩ := cut
  refine ⟨gone, parts, ends.imp_right (after _ _).mp, ?_⟩
  exact fun front rest same shorter => mt (after _ _).mpr (first front rest same shorter)

theorem restOfLine_of_line (inLine : '\n' ∉ line) : restOfLine line = [] := by
  refine List.dropWhile_eq_nil_iff.mpr fun c member => ?_
  simpa using fun newline : c = '\n' => inLine (newline ▸ member)

theorem unblocked_of_blockless (blockless : ¬ OpensBlock text) : afterBlock? text = none := by
  apply afterBlock?_of_not_prefix
  exact fun opens => blockless opens.isInfix

/-- The scan cuts a line without block comments, from any of its characters on. -/
theorem stripFrom_line (inLine : '\n' ∉ line) (blockless : ¬ OpensBlock (c :: line))
    (scanned : ¬ (lineStart && startsDoubleSlash (c :: line)) = true) :
    ∃ left, stripFrom lineStart (c :: line) = c :: left ∧ Cut [c] line left := by
  induction line generalizing lineStart c with
  | nil =>
    refine ⟨[], ?_, .nil _⟩
    have plain : startsDoubleSlash [c] = false := by simp [startsDoubleSlash]
    rw [stripFrom_unblocked (unblocked_of_blockless blockless), plain]
    simp [startsDoubleSlash, stripFrom]
  | cons d line ih =>
    rw [stripFrom_unblocked (unblocked_of_blockless blockless)]
    by_cases slashes : (!shieldsSlashes c && startsDoubleSlash (d :: line)) = true
    · have bare : BareSlashes ([] ++ [c]) (d :: line) :=
        bareSlashes_concat_iff.mpr (by simpa using slashes)
      rw [if_pos slashes, restOfLine_of_line inLine, stripFrom]
      exact ⟨[], rfl, .nothing bare⟩
    · have here : ¬ BareSlashes ([] ++ [c]) (d :: line) := by
        rw [bareSlashes_concat_iff]
        simpa using slashes
      have passed : ¬ ((c == '\n') && startsDoubleSlash (d :: line)) = true := by
        intro starts
        obtain ⟨rfl, double⟩ : c = '\n' ∧ startsDoubleSlash (d :: line) = true := by
          simpa using starts
        exact slashes (by rw [double]; rfl)
      rw [if_neg slashes, if_neg scanned]
      obtain ⟨left, stripped, cut⟩ := ih (fun member => inLine (List.mem_cons_of_mem _ member))
        (fun opens => blockless (opensBlock_cons opens)) passed
      refine ⟨d :: left, by rw [stripped], .cons here ?_⟩
      obtain ⟨gone, parts, ends, first⟩ := cut
      have after : ∀ front rest, BareSlashes ([c] ++ [d] ++ front) rest ↔
          BareSlashes ([d] ++ front) rest := by
        intro front rest
        rw [List.append_assoc]
        exact bareSlashes_append (by simp) [c]
      refine ⟨gone, parts, ends.imp_right (after _ _).mpr, ?_⟩
      exact fun front rest same shorter => mt (after _ _).mp (first front rest same shorter)

theorem splitOn_line (inLine : '\n' ∉ line) : line.splitOn '\n' = [line] := by
  refine List.splitOnP_eq_singleton fun c member => ?_
  simpa using fun newline : c = '\n' => inLine (newline ▸ member)

theorem splitOn_line_append (inLine : '\n' ∉ line) (text : List Char) :
    (line ++ '\n' :: text).splitOn '\n' = line :: text.splitOn '\n' := by
  have first := splitOn_line inLine
  rw [List.splitOn] at first ⊢
  rw [List.splitOnP_append_cons _ _ (by simp), first]
  rfl

/-- A text is a line, or a line with a line end and more behind it. -/
theorem exists_line (text : List Char) :
    ∃ line more, text = line ++ more ∧ '\n' ∉ line ∧ AtLineEnd more := by
  refine ⟨text.takeWhile (· ≠ '\n'), restOfLine text, List.takeWhile_append_dropWhile.symm,
    fun member => ?_, atLineEnd_restOfLine text⟩
  simpa using List.mem_takeWhile_imp member

/-- A text without block comments is cut line by line, behind a line end. -/
theorem stripFrom_lines (blockless : ¬ OpensBlock text) (lineStart : Bool) :
    ∃ left, stripFrom lineStart ('\n' :: text) = '\n' :: left ∧
      List.Forall₂ (Cut []) (text.splitOn '\n') (left.splitOn '\n') := by
  induction size : text.length using Nat.strongRecOn generalizing text lineStart with
  | ind size ih =>
    obtain ⟨line, more, rfl, inLine, lineEnd⟩ := exists_line text
    have lineBlockless : ¬ OpensBlock ('\n' :: line) := by
      intro opens
      have inside : OpensBlock line := by simpa [OpensBlock, List.infix_cons_iff] using opens
      exact blockless (inside.trans (List.prefix_append _ _).isInfix)
    have plain : ¬ (lineStart && startsDoubleSlash ('\n' :: line)) = true := by
      simp [startsDoubleSlash]
    obtain ⟨left, stripped, cut⟩ := stripFrom_line inLine lineBlockless plain
    have cut := cut.of_newline
    obtain ⟨gone, parts, -⟩ := id cut
    have closed : ¬ OpensBlock (stripFrom lineStart ('\n' :: line)) := by
      rw [stripped]
      rw [parts] at lineBlockless
      exact fun opens => lineBlockless (opens.trans (List.prefix_append _ gone).isInfix)
    have leftInLine : '\n' ∉ left := fun member => inLine (parts ▸ List.mem_append_left gone member)
    have split := stripFrom_append lineEnd closed
    rw [List.cons_append] at split
    rw [split, stripped]
    rcases lineEnd with rfl | ⟨later, rfl⟩
    · refine ⟨left, by simp [stripFrom], ?_⟩
      rw [List.append_nil, splitOn_line inLine, splitOn_line leftInLine]
      exact .cons cut .nil
    · have rest : ¬ OpensBlock later := fun opens =>
        blockless ((opensBlock_cons opens).trans (List.suffix_append line _).isInfix)
      rw [List.length_append, List.length_cons] at size
      obtain ⟨others, strippedRest, cuts⟩ := ih later.length (by omega) rest true rfl
      refine ⟨left ++ '\n' :: others, by rw [strippedRest, List.cons_append], ?_⟩
      rw [splitOn_line_append inLine, splitOn_line_append leftInLine]
      exact .cons cut cuts

/-- Line comments are cut off line by line, and nothing is put in, moved, or taken out besides
comments. -/
theorem line_comments_exact (code : String) :
    (∀ text, code = "\n" ++ text → ¬ "/*".toList <:+: code.toList →
      List.Forall₂ (Cut []) (code.toList.splitOn '\n') ((stripComments code).toList.splitOn '\n')) ∧
    (stripComments code).toList.Sublist code.toList ∧
    (¬ "//".toList <:+: code.toList →
      (∀ before after, code.toList = before ++ after → ¬ ClosedBlock after) →
      stripComments code = code) := by
  refine ⟨?_, ?_, ?_⟩
  · rintro text rfl blockless
    rw [toList_newline_append] at blockless ⊢
    obtain ⟨left, stripped, cuts⟩ :=
      stripFrom_lines (fun opens => blockless (opensBlock_cons opens)) true
    have first : ∀ rest : List Char, ('\n' :: rest).splitOn '\n' = [] :: rest.splitOn '\n' :=
      splitOn_line_append List.not_mem_nil
    rw [toList_stripComments, toList_newline_append, stripped, first, first]
    exact .cons (.nil []) cuts
  · rw [toList_stripComments]
    exact stripFrom_sublist true code.toList
  · intro slashless blockless
    rw [stripComments_eq_self_iff]
    rintro front rest parts (closed | bare)
    · exact blockless front rest parts closed
    · refine slashless ?_
      rw [parts]
      exact bare.1.isInfix.trans (List.suffix_append front rest).isInfix

theorem line_comments_exact_urls :
    let code := "\nlet u = 'http://x' // one\n//// two\n:///x"
    let plain := "a / b /* c"
    ¬ "/*".toList <:+: code.toList ∧
      List.Forall₂ (Cut []) (code.toList.splitOn '\n') ((stripComments code).toList.splitOn '\n') ∧
      stripComments code = "\nlet u = 'http://x' \n\n:/" ∧
      (stripComments code).toList.Sublist code.toList ∧
      ¬ "//".toList <:+: plain.toList ∧
      (∀ before after, plain.toList = before ++ after → ¬ ClosedBlock after) ∧
      stripComments plain = plain := by
  intro code plain
  have begins : code = "\n" ++ "let u = 'http://x' // one\n//// two\n:///x" := by decide +kernel
  have blockless : ¬ "/*".toList <:+: code.toList := by decide +kernel
  have slashless : ¬ "//".toList <:+: plain.toList := by decide +kernel
  have unclosed : ∀ before after, plain.toList = before ++ after → ¬ ClosedBlock after := by
    intro before after parts
    have every : ∀ rest ∈ plain.toList.tails, afterBlock? rest = none := by decide +kernel
    exact (afterBlock?_eq_none_iff after).mp
      (every after ((List.mem_tails _ _).mpr ⟨before, parts.symm⟩))
  exact ⟨blockless, (line_comments_exact code).1 _ begins blockless, by decide +kernel,
    (line_comments_exact code).2.1, slashless, unclosed,
    (line_comments_exact plain).2.2 slashless unclosed⟩

end Lines

end ModuleBundler.Script
