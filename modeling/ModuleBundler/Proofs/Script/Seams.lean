import ModuleBundler.Proofs.Script.Marks

/-! Seams. Where a block comment is taken out, the text before it and the text after it
come to stand side by side, and the slashes and stars of the two may form a comment that
was none before. This is the only way in which stripping leaves a comment: a second pass
changes something just if some seam forms one, and the same holds once blanks are
collapsed. -/
namespace ModuleBundler.Script

open Text

/-- The places where the scan takes out a block comment, each by what it keeps before and after. -/
def seams (lineStart : Bool) (text : List Char) : List (List Char × List Char) :=
  match text with
  | [] => []
  | c :: tail =>
    match block : afterBlock? (c :: tail) with
    | some rest =>
      have := length_afterBlock? block
      ([], stripFrom false rest) :: seams false rest
    | none =>
      if !shieldsSlashes c && startsDoubleSlash tail then
        (seams false (restOfLine tail)).map fun s => (c :: s.1, s.2)
      else if lineStart && startsDoubleSlash (c :: tail) then seams false (restOfLine tail)
      else (seams (c == '\n') tail).map fun s => (c :: s.1, s.2)
  termination_by text.length
  decreasing_by
    · exact this
    · exact Nat.lt_succ_of_le (length_restOfLine_le tail)
    · exact Nat.lt_succ_of_le (length_restOfLine_le tail)
    · exact Nat.lt_succ_self _

/-- A comment starts at the seam, or with the character before it. -/
def FormsComment (before after : List Char) : Prop :=
  StartsComment before after ∨ ∃ front c, before = front ++ [c] ∧ StartsComment front (c :: after)

section Scan

variable {lineStart : Bool} {c d e : Char} {before text rest tail out : List Char}
  {s : List Char × List Char}

theorem seams_nil (lineStart : Bool) : seams lineStart [] = [] := by rw [seams]

theorem seams_block (block : afterBlock? (c :: tail) = some rest) :
    seams lineStart (c :: tail) = ([], stripFrom false rest) :: seams false rest := by
  rw [seams]
  split
  · next found => rw [Option.some.inj (block.symm.trans found)]
  · next missing => cases block.symm.trans missing

theorem seams_unblocked (unblocked : afterBlock? (c :: tail) = none) :
    seams lineStart (c :: tail) =
      if !shieldsSlashes c && startsDoubleSlash tail then
        (seams false (restOfLine tail)).map fun s => (c :: s.1, s.2)
      else if lineStart && startsDoubleSlash (c :: tail) then seams false (restOfLine tail)
      else (seams (c == '\n') tail).map fun s => (c :: s.1, s.2) := by
  rw [seams]
  split
  · next found => cases unblocked.symm.trans found
  · rfl

/-- At a seam the kept text is in two parts. -/
theorem append_of_mem_seams (seam : s ∈ seams lineStart text) :
    s.1 ++ s.2 = stripFrom lineStart text := by
  induction lineStart, text using stripFrom.induct generalizing s with
  | case1 =>
    rw [seams_nil] at seam
    cases seam
  | case2 lineStart c tail rest block _ ih =>
    rw [seams_block block] at seam
    rw [stripFrom_block block]
    rcases List.mem_cons.mp seam with rfl | later
    · rfl
    · exact ih later
  | case3 lineStart c tail unblocked slashes ih =>
    rw [seams_unblocked unblocked, if_pos slashes] at seam
    obtain ⟨s, later, rfl⟩ := List.mem_map.mp seam
    rw [stripFrom_unblocked unblocked, if_pos slashes, List.cons_append, ih later]
  | case4 lineStart c tail unblocked kept slashes ih =>
    rw [seams_unblocked unblocked, if_neg kept, if_pos slashes] at seam
    rw [stripFrom_unblocked unblocked, if_neg kept, if_pos slashes]
    exact ih seam
  | case5 lineStart c tail unblocked kept plain ih =>
    rw [seams_unblocked unblocked, if_neg kept, if_neg plain] at seam
    obtain ⟨s, later, rfl⟩ := List.mem_map.mp seam
    rw [stripFrom_unblocked unblocked, if_neg kept, if_neg plain, List.cons_append, ih later]

/-- A text with a seam has the end of a block comment in it. -/
theorem infix_of_mem_seams (seam : s ∈ seams lineStart text) : ['*', '/'] <:+: text := by
  induction lineStart, text using stripFrom.induct generalizing s with
  | case1 =>
    rw [seams_nil] at seam
    cases seam
  | case2 lineStart c tail rest block _ ih =>
    obtain ⟨body, same, ends⟩ := closedBlock_of_afterBlock? block
    exact same ▸ ends.trans (List.suffix_append ['/', '*'] body).isInfix
  | case3 lineStart c tail unblocked slashes ih =>
    rw [seams_unblocked unblocked, if_pos slashes] at seam
    obtain ⟨s, later, rfl⟩ := List.mem_map.mp seam
    exact List.infix_cons ((ih later).trans (List.dropWhile_suffix _).isInfix)
  | case4 lineStart c tail unblocked kept slashes ih =>
    rw [seams_unblocked unblocked, if_neg kept, if_pos slashes] at seam
    exact List.infix_cons ((ih seam).trans (List.dropWhile_suffix _).isInfix)
  | case5 lineStart c tail unblocked kept plain ih =>
    rw [seams_unblocked unblocked, if_neg kept, if_neg plain] at seam
    obtain ⟨s, later, rfl⟩ := List.mem_map.mp seam
    exact List.infix_cons (ih later)

theorem atLineEnd_stripFrom (lineEnd : AtLineEnd text) (lineStart : Bool) :
    AtLineEnd (stripFrom lineStart text) := by
  rcases lineEnd with rfl | ⟨later, rfl⟩
  · exact .inl (by rw [stripFrom])
  · have plain : startsDoubleSlash ('\n' :: later) = false := rfl
    rw [stripFrom_unblocked rfl, plain, Bool.and_false, if_neg Bool.false_ne_true]
    split
    · exact .inr ⟨_, rfl⟩
    · exact .inr ⟨_, rfl⟩

theorem atLineEnd_stripLine (text : List Char) :
    AtLineEnd (stripFrom false (restOfLine text)) :=
  atLineEnd_stripFrom (atLineEnd_restOfLine text) false

theorem AtLineEnd.not_cons (lineEnd : AtLineEnd (d :: out)) (inLine : d ≠ '\n') : False := by
  rcases lineEnd with nothing | ⟨later, same⟩
  · cases nothing
  · exact inLine (List.cons.inj same).1

theorem AtLineEnd.not_bareSlashes (lineEnd : AtLineEnd text) : ¬ BareSlashes before text := by
  rintro ⟨⟨rest, rfl⟩, -⟩
  exact lineEnd.not_cons (by decide)

theorem AtLineEnd.not_startsComment_cons (lineEnd : AtLineEnd text) :
    ¬ StartsComment before (c :: text) := by
  rintro (⟨body, same, -⟩ | ⟨⟨rest, same⟩, -⟩)
  · exact ((List.cons.inj same).2 ▸ lineEnd).not_cons (by decide)
  · exact ((List.cons.inj same).2 ▸ lineEnd).not_cons (by decide)

/-- What the kept text begins with begins the text, or stands at a seam. -/
theorem head_of_stripFrom (inLine : d ≠ '\n') (kept : stripFrom lineStart text = d :: out) :
    (∃ tail, text = d :: tail) ∨ ([], d :: out) ∈ seams lineStart text := by
  cases text with
  | nil =>
    rw [stripFrom] at kept
    cases kept
  | cons c tail =>
    cases block : afterBlock? (c :: tail) with
    | some rest =>
      rw [stripFrom_block block] at kept
      rw [seams_block block, kept]
      exact .inr List.mem_cons_self
    | none =>
      rw [stripFrom_unblocked block] at kept
      split at kept
      · exact .inl ⟨tail, by rw [(List.cons.inj kept).1]⟩
      · split at kept
        · exact ((kept ▸ atLineEnd_stripLine tail).not_cons inLine).elim
        · exact .inl ⟨tail, by rw [(List.cons.inj kept).1]⟩

/-- What two characters the kept text begins with begin the text, or one of them is at a seam. -/
theorem start_of_stripFrom (first : d ≠ '\n') (second : e ≠ '\n')
    (kept : stripFrom lineStart text = d :: e :: out) :
    (∃ tail, text = d :: e :: tail) ∨ ([], d :: e :: out) ∈ seams lineStart text ∨
      ([d], e :: out) ∈ seams lineStart text := by
  cases text with
  | nil =>
    rw [stripFrom] at kept
    cases kept
  | cons c tail =>
    cases block : afterBlock? (c :: tail) with
    | some rest =>
      rw [stripFrom_block block] at kept
      rw [seams_block block, kept]
      exact .inr (.inl List.mem_cons_self)
    | none =>
      rw [stripFrom_unblocked block] at kept
      rw [seams_unblocked block]
      split at kept
      next =>
        exact (((List.cons.inj kept).2 ▸ atLineEnd_stripLine tail).not_cons second).elim
      next unkept =>
        split at kept
        next => exact ((kept ▸ atLineEnd_stripLine tail).not_cons first).elim
        next plain =>
          obtain ⟨rfl, later⟩ := List.cons.inj kept
          rw [if_neg unkept, if_neg plain]
          rcases head_of_stripFrom second later with ⟨rest, rfl⟩ | seam
          · exact .inl ⟨rest, rfl⟩
          · exact .inr (.inr (List.mem_map.mpr ⟨_, seam, rfl⟩))

/-- The scan makes no end of a block comment where there was none. -/
theorem not_infix_stripFrom (unended : ¬ ['*', '/'] <:+: text) (lineStart : Bool) :
    ¬ ['*', '/'] <:+: stripFrom lineStart text := by
  induction lineStart, text using stripFrom.induct with
  | case1 =>
    rw [stripFrom]
    simp
  | case2 lineStart c tail rest block _ ih =>
    have seam : ([], stripFrom false rest) ∈ seams lineStart (c :: tail) := by
      rw [seams_block block]
      exact List.mem_cons_self
    exact absurd (infix_of_mem_seams seam) unended
  | case3 lineStart c tail unblocked slashes ih =>
    have later := ih fun ends => unended
      (List.infix_cons (ends.trans (List.dropWhile_suffix _).isInfix))
    rw [stripFrom_unblocked unblocked, if_pos slashes, List.infix_cons_iff, not_or]
    refine ⟨?_, later⟩
    rintro ⟨out, same⟩
    exact ((List.cons.inj same).2 ▸ atLineEnd_stripLine tail).not_cons (by decide)
  | case4 lineStart c tail unblocked kept slashes ih =>
    rw [stripFrom_unblocked unblocked, if_neg kept, if_pos slashes]
    exact ih fun ends => unended (List.infix_cons (ends.trans (List.dropWhile_suffix _).isInfix))
  | case5 lineStart c tail unblocked kept plain ih =>
    rw [List.infix_cons_iff, not_or] at unended
    rw [stripFrom_unblocked unblocked, if_neg kept, if_neg plain, List.infix_cons_iff, not_or]
    refine ⟨?_, ih unended.2⟩
    rintro ⟨out, same⟩
    obtain ⟨rfl, later⟩ := List.cons.inj same
    rcases head_of_stripFrom (by decide) later.symm with ⟨rest, rfl⟩ | seam
    · exact unended.1 (List.prefix_append ['*', '/'] rest)
    · exact unended.2 (infix_of_mem_seams seam)

theorem stripFrom_star (lineStart : Bool) (tail : List Char) : ∃ later rest, rest <:+ tail ∧
    stripFrom lineStart ('*' :: tail) = '*' :: stripFrom later rest := by
  rw [stripFrom_unblocked rfl]
  split
  · exact ⟨false, _, List.dropWhile_suffix _, rfl⟩
  · split
    next starts => simp [startsDoubleSlash] at starts
    next => exact ⟨_, tail, List.suffix_refl tail, rfl⟩

/-- A block comment left over stands at a seam. -/
theorem not_closedBlock_stripFrom (unblocked : afterBlock? text = none)
    (apart : ∀ out, stripFrom lineStart text = '/' :: '*' :: out →
      ([], '/' :: '*' :: out) ∉ seams lineStart text ∧ (['/'], '*' :: out) ∉ seams lineStart text) :
    ¬ ClosedBlock (stripFrom lineStart text) := by
  rintro ⟨body, kept, ends⟩
  obtain ⟨first, second⟩ := apart body kept
  rcases start_of_stripFrom (by decide) (by decide) kept with ⟨tail, rfl⟩ | seam | seam
  · have unended : ¬ ['*', '/'] <:+: tail := by
      intro found
      exact (afterBlock?_eq_none_iff _).mp unblocked ⟨tail, rfl, found⟩
    obtain ⟨later, rest, part, starred⟩ := stripFrom_star ('/' == '\n') tail
    rw [stripFrom_unblocked unblocked, starred] at kept
    have same : stripFrom later rest = body := by simpa [startsDoubleSlash] using kept
    exact not_infix_stripFrom (fun found => unended (found.trans part.isInfix)) later (same ▸ ends)
  · exact first seam
  · exact second seam

/-- If no seam forms a comment, then no comment starts in the kept text. -/
theorem uncommentedAfter_stripFrom
    (passed : lineStart = false → ¬ BareSlashes before (stripFrom lineStart text))
    (apart : ∀ s ∈ seams lineStart text, ¬ FormsComment (before ++ s.1) s.2) :
    UncommentedAfter before (stripFrom lineStart text) := by
  induction lineStart, text using stripFrom.induct generalizing before with
  | case1 =>
    rw [stripFrom]
    exact uncommentedAfter_nil
  | case2 lineStart c tail rest block _ ih =>
    rw [seams_block block, List.forall_mem_cons, List.append_nil] at apart
    rw [stripFrom_block block]
    exact ih (fun _ bare => apart.1 (.inl (.inr bare))) apart.2
  | case3 lineStart c tail unblocked slashes ih =>
    rw [seams_unblocked unblocked, if_pos slashes, List.forall_mem_map] at apart
    rw [stripFrom_unblocked unblocked, if_pos slashes, uncommentedAfter_cons]
    have lineEnd := atLineEnd_stripLine tail
    refine ⟨lineEnd.not_startsComment_cons, ih (fun _ => lineEnd.not_bareSlashes) ?_⟩
    simpa using apart
  | case4 lineStart c tail unblocked kept slashes ih =>
    rw [seams_unblocked unblocked, if_neg kept, if_pos slashes] at apart
    rw [stripFrom_unblocked unblocked, if_neg kept, if_pos slashes]
    exact ih (fun _ => (atLineEnd_stripLine tail).not_bareSlashes) apart
  | case5 lineStart c tail unblocked kept plain ih =>
    -- Two characters that start a comment here were side by side before, or a seam forms it.
    have here : ¬ StartsComment before (stripFrom lineStart (c :: tail)) := by
      rintro (closed | bare)
      · refine not_closedBlock_stripFrom unblocked (fun out same => ⟨fun seam => ?_, fun seam => ?_⟩)
          closed
        · exact apart _ seam (.inl (.inl (by simpa [← same] using closed)))
        · exact apart _ seam (.inr ⟨before, '/', rfl, .inl (same ▸ closed)⟩)
      · obtain ⟨out, same⟩ := bare.1
        rcases start_of_stripFrom (by decide) (by decide) same.symm with ⟨rest, raw⟩ | seam | seam
        · cases lineStart with
          | false => exact passed rfl bare
          | true => exact plain (by rw [raw]; rfl)
        · exact apart _ seam (.inl (.inr (by simpa [← same] using bare)))
        · refine apart _ seam (.inr ⟨before, '/', rfl, .inr ?_⟩)
          rw [← same] at bare
          exact bare
    rw [seams_unblocked unblocked, if_neg kept, if_neg plain, List.forall_mem_map] at apart
    rw [stripFrom_unblocked unblocked, if_neg kept, if_neg plain] at here ⊢
    rw [uncommentedAfter_cons]
    refine ⟨here, ih (fun _ bare => ?_) (by simpa using apart)⟩
    obtain ⟨open_, -⟩ := bareSlashes_concat_iff.mp bare
    obtain ⟨out, same⟩ := bare.1
    rcases start_of_stripFrom (by decide) (by decide) same.symm with ⟨rest, rfl⟩ | seam | seam
    · exact kept (by rw [open_]; rfl)
    · exact apart _ seam (.inl (.inr (by simpa [← same] using bare)))
    · refine apart _ seam (.inr ⟨before ++ [c], '/', by simp, .inr ?_⟩)
      rw [← same] at bare
      exact bare

/-- The kept text is free of comments just if no seam forms one. -/
theorem uncommented_stripFrom_iff (text : List Char) :
    Uncommented (stripFrom true text) ↔ ∀ s ∈ seams true text, ¬ FormsComment s.1 s.2 := by
  constructor
  · intro clean s seam
    have parts := append_of_mem_seams seam
    rintro (starts | ⟨front, c, last, starts⟩)
    · exact clean s.1 s.2 parts.symm starts
    · exact clean front (c :: s.2) (by rw [← parts, last]; simp) starts
  · intro apart
    have passed : true = false → ¬ BareSlashes [] (stripFrom true text) := nofun
    exact uncommentedAfter_stripFrom passed apart

end Scan

section Words

variable {before front text rest mark : List Char} {c : Char}

theorem uncommentedAfter_append : UncommentedAfter before (text ++ rest) ↔
    (∀ front later, text = front ++ later → later ≠ [] →
      ¬ StartsComment (before ++ front) (later ++ rest)) ∧
    UncommentedAfter (before ++ text) rest := by
  induction text generalizing before with
  | nil =>
    rw [List.nil_append, List.append_nil, iff_and_self]
    rintro - front later parts some
    exact absurd (List.append_eq_nil_iff.mp parts.symm).2 some
  | cons c text ih =>
    rw [List.cons_append, uncommentedAfter_cons, ih, ← and_assoc, List.append_cons before c text]
    refine and_congr_left fun _ => ⟨?_, ?_⟩
    · rintro ⟨here, later⟩ front after parts some
      cases front with
      | nil =>
        cases parts
        simpa using here
      | cons d front =>
        obtain ⟨rfl, split⟩ := List.cons.inj parts
        simpa using later front after split some
    · intro all
      refine ⟨by simpa using all [] (c :: text) rfl (List.cons_ne_nil _ _), ?_⟩
      intro front after parts some
      simpa using all (c :: front) after (by rw [parts, List.cons_append]) some

theorem uncommentedAfter_concat (open_ : shieldsSlashes c = false) :
    UncommentedAfter (before ++ [c]) text ↔ Uncommented text := by
  refine forall_congr' fun front => forall_congr' fun rest => imp_congr_right fun _ => not_congr ?_
  exact or_congr_right (bareSlashes_after_concat open_ before)

theorem ne_of_isBlank {d : Char} (blank : isBlank c = true) (solid : isBlank d = false) : c ≠ d := by
  rintro rfl
  rw [blank] at solid
  cases solid

theorem infix_append_blank (filled : mark ≠ []) (apart : c ∉ mark) :
    mark <:+: text ++ c :: rest ↔ mark <:+: text ∨ mark <:+: rest := by
  constructor
  · intro found
    rcases List.infix_append_iff.mp found with inside | behind | ⟨first, last, rfl, ends, starts⟩
    · exact .inl inside
    · rcases List.infix_cons_iff.mp behind with starts | inside
      · have nothing : mark <+: [] := by
          rw [← List.nil_append (c :: rest)] at starts
          exact (prefix_append_cons apart).mp starts
        exact absurd (List.prefix_nil.mp nothing) filled
      · exact .inr inside
    · cases last with
      | nil => exact .inl (by simpa using ends.isInfix)
      | cons d last =>
        obtain ⟨later, same⟩ := starts
        exact absurd (by simp [(List.cons.inj same).1]) apart
  · rintro (inside | inside)
    · exact inside.trans (List.prefix_append _ _).isInfix
    · exact (List.infix_cons inside).trans (List.suffix_append _ _).isInfix

/-- A mark without blanks is in a text if it is in one of its words. -/
theorem infix_iff_words (filled : mark ≠ []) (solid : ∀ c ∈ mark, isBlank c = false) :
    mark <:+: text ↔ ∃ w ∈ words text, mark <:+: w := by
  have apart : ∀ c, isBlank c = true → c ∉ mark := fun c blank member =>
    ne_of_isBlank blank (solid c member) rfl
  induction text using words_induction with
  | nil => simp [filled]
  | blank c rest blank ih =>
    rw [← List.nil_append (c :: rest), infix_append_blank filled (apart c blank),
      List.infix_nil, or_iff_right filled, List.nil_append, words_cons_blank blank]
    exact ih
  | last w word => simp [words_of_isWord word]
  | word w c rest word blank ih =>
    rw [infix_append_blank filled (apart c blank), words_isWord_append word blank,
      List.exists_mem_cons_iff]
    exact or_congr_right ih

/-- No comment starts in the words, and none goes from one of them to a later one. -/
def UncommentedWords : List (List Char) → Prop
  | [] => True
  | w :: ws =>
    (∀ front rest, w = front ++ rest → ¬ BareSlashes front rest ∧
      ∀ body, rest = '/' :: '*' :: body →
        ¬ ['*', '/'] <:+: body ∧ ∀ v ∈ ws, ¬ ['*', '/'] <:+: v) ∧
    UncommentedWords ws

/-- A comment that starts before a blank may end behind it. -/
theorem startsComment_append_blank (blank : isBlank c = true) :
    StartsComment before (text ++ c :: rest) ↔ BareSlashes before text ∨
      ∃ body, text = '/' :: '*' :: body ∧ (['*', '/'] <:+: body ∨ ['*', '/'] <:+: rest) := by
  have apart : c ≠ '/' ∧ c ≠ '*' :=
    ⟨ne_of_isBlank blank (by decide), ne_of_isBlank blank (by decide)⟩
  have slashes : BareSlashes before (text ++ c :: rest) ↔ BareSlashes before text :=
    and_congr_left fun _ => prefix_append_cons (by simp [apart])
  have ends : ∀ body : List Char, ['*', '/'] <:+: body ++ c :: rest ↔
      ['*', '/'] <:+: body ∨ ['*', '/'] <:+: rest := fun body =>
    infix_append_blank (List.cons_ne_nil _ _) (by simp [apart])
  rw [StartsComment, slashes, or_comm]
  refine or_congr_right ⟨?_, ?_⟩
  · rintro ⟨body, same, closed⟩
    have opens : ['/', '*'] <+: text ++ c :: rest := ⟨body, same.symm⟩
    obtain ⟨more, rfl⟩ := (prefix_append_cons (by simp [apart])).mp opens
    have parts : more ++ c :: rest = body := by simpa using same
    exact ⟨more, rfl, (ends more).mp (parts ▸ closed)⟩
  · rintro ⟨body, rfl, closed⟩
    exact ⟨body ++ c :: rest, rfl, (ends body).mpr closed⟩

theorem not_startsComment_blank (blank : isBlank c = true) : ¬ StartsComment before (c :: rest) :=
  not_startsComment_of_ne (ne_of_isBlank blank (by decide))

theorem uncommented_append_blank (blank : isBlank c = true) :
    Uncommented (text ++ c :: rest) ↔
      (∀ front later, text = front ++ later → ¬ StartsComment front (later ++ c :: rest)) ∧
      Uncommented rest := by
  have open_ : shieldsSlashes c = false := shieldsSlashes_eq_false.mpr
    ⟨ne_of_isBlank blank (by decide), ne_of_isBlank blank (by decide)⟩
  rw [Uncommented, uncommentedAfter_append, uncommentedAfter_cons, uncommentedAfter_concat open_,
    and_iff_right (not_startsComment_blank blank)]
  refine and_congr_left fun _ => ⟨fun all front later parts => ?_, fun all front later parts _ => ?_⟩
  · by_cases some : later = []
    · rw [some]
      exact not_startsComment_blank blank
    · exact all front later parts some
  · exact all front later parts

/-- Whether comments start in a text is seen from its words. -/
theorem uncommented_iff_words (text : List Char) :
    Uncommented text ↔ UncommentedWords (words text) := by
  have filled : ['*', '/'] ≠ [] := List.cons_ne_nil _ _
  have solid : ∀ c ∈ ['*', '/'], isBlank c = false :=
    List.forall_mem_cons.mpr ⟨by decide, List.forall_mem_singleton.mpr (by decide)⟩
  induction text using words_induction with
  | nil => exact iff_of_true uncommentedAfter_nil trivial
  | blank c rest blank ih =>
    rw [← List.nil_append (c :: rest), uncommented_append_blank blank, List.nil_append,
      words_cons_blank blank]
    refine (and_iff_right ?_).trans ih
    intro front later parts
    obtain ⟨rfl, rfl⟩ := List.append_eq_nil_iff.mp parts.symm
    exact not_startsComment_blank blank
  | last w word =>
    rw [words_of_isWord word, UncommentedWords, UncommentedWords, and_true]
    refine forall_congr' fun front => forall_congr' fun rest => imp_congr_right fun _ => ?_
    simp [StartsComment, ClosedBlock, and_comm]
  | word w c rest word blank ih =>
    rw [uncommented_append_blank blank, words_isWord_append word blank, UncommentedWords]
    refine and_congr ?_ ih
    refine forall_congr' fun front => forall_congr' fun later => imp_congr_right fun _ => ?_
    rw [startsComment_append_blank blank, infix_iff_words filled solid]
    simp only [not_or, not_exists, not_and]

theorem words_minify (code : String) :
    words (minify code).toList = words (stripFrom true code.toList) := by
  rw [toList_minify, words_unwords fun w member => isWord_of_mem_words member]

/-- Minified text is minified already just if no comment starts in it. -/
theorem minify_minify_eq_iff (code : String) :
    minify (minify code) = minify code ↔ Uncommented (minify code).toList := by
  have again : ∀ text, text = (minify code).toList → unwords (words text) = text := by
    rintro _ rfl
    rw [words_minify, toList_minify]
  rw [← String.toList_inj, toList_minify (minify code)]
  have shorter := stripFrom_sublist true (minify code).toList
  constructor
  · intro same
    have back := length_unwords_words_le (stripFrom true (minify code).toList)
    rw [same] at back
    exact (stripFrom_eq_self_iff (.init _)).mp (shorter.eq_of_length_le back)
  · intro clean
    rw [(stripFrom_eq_self_iff (.init _)).mpr clean]
    exact again _ rfl

/-- No seam forms a comment. -/
def SeamsHold (code : String) : Prop := ∀ s ∈ seams true code.toList, ¬ FormsComment s.1 s.2

/-- A second pass changes something just if a seam forms a comment. -/
theorem strip_again_iff (code : String) :
    (stripComments (stripComments code) = stripComments code ↔ SeamsHold code) ∧
      (minify (minify code) = minify code ↔ SeamsHold code) ∧
      (Uncommented (stripComments code).toList ↔ SeamsHold code) ∧
      (Uncommented (minify code).toList ↔ SeamsHold code) := by
  have stripped : Uncommented (stripComments code).toList ↔ SeamsHold code := by
    rw [toList_stripComments]
    exact uncommented_stripFrom_iff code.toList
  have minified : Uncommented (minify code).toList ↔ SeamsHold code := by
    rw [uncommented_iff_words, words_minify, ← uncommented_iff_words]
    exact uncommented_stripFrom_iff code.toList
  exact ⟨(stripComments_eq_self_iff _).trans stripped,
    (minify_minify_eq_iff code).trans minified, stripped, minified⟩

/-- A line comment right behind a block comment is left over, and takes the rest of the text with it
once line ends are blanks. -/
theorem line_comment_left_over :
    let code := "a; /* b */// c\nd;"
    stripComments code = "a; // c\nd;" ∧ stripComments (stripComments code) ≠ stripComments code ∧
      minify code = "a; // c d;" ∧ minify (minify code) = "a;" ∧
      minify (minify code) ≠ minify code := by
  decide +kernel

end Words

end ModuleBundler.Script
