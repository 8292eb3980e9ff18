import ModuleBundler.Proofs.Yaml.Input
import ModuleBundler.Yaml.Stream

/-! The tokens of a text that is not whole. No token that ends the reading is put among the
others before their end, and the end of a text is not taken for that of the stream if an
obstacle stands there. So such a text has a broken token and no end of stream, and what
broke it is due to the obstacle or is a flaw. -/
namespace ModuleBundler.Yaml

variable {obstacle : Option Failure}

section Readers

/-- Readers of single tokens know of no obstacle. -/
def Reads {α : Type} (read : Lexer.Reader α) : Prop :=
  ∀ whole chars, Settles none (fun _ => True) (read whole chars)

theorem settles_flawed {α : Type} {P : α → Prop} {answer : Except Flaw α}
    (holds : ∀ a, answer = .ok a → P a) : Settles obstacle P (Token.flawed answer) := by
  cases answer with
  | ok a => exact .ok (holds a rfl)
  | error cause => exact .flaw cause

theorem reads_simple {α : Type} (read : List Char → Except Flaw (α × List Char)) :
    Reads (Lexer.simple read) :=
  fun _ _ => settles_flawed fun _ _ => trivial

theorem reads_plainReader (bracketed : Bool) (indent : Nat) :
    Reads (Lexer.plainReader bracketed indent) := by
  intro whole chars
  rw [Lexer.plainReader]
  split
  next => exact .flaw _
  next => exact .ok trivial

theorem settles_versionNumber (whole : Bool) (chars : List Char) :
    Settles none (fun _ => True) (Token.versionNumber whole chars) := by
  rw [Token.versionNumber]
  split
  next => exact .flaw _
  next =>
    split
    next => exact .flaw _
    next =>
      split
      next => exact .scalar _
      next => exact .ok trivial

theorem reads_directiveLine : Reads Token.directiveLine := by
  intro whole chars
  rw [Token.directiveLine]
  -- Along the lines of a directive: whatever they ask for, they fail by a flaw or go on.
  repeat' first
    | exact .flaw _
    | exact .ok trivial
    | exact settles_versionNumber _ _
    | exact settles_flawed fun _ _ => trivial
    | refine Settles.bind (P := fun _ => True) ?_ fun _ _ => ?_
    | split
    | dsimp only

theorem settles_breaks (whole lineStart : Bool) (more chars : List Char) :
    Settles none (fun _ => True) (Quoted.breaks whole lineStart more chars) := by
  fun_induction Quoted.breaks whole lineStart more chars <;>
    first
    | exact .flaw _
    | exact .ok trivial
    | assumption

theorem settles_numbered (width : Nat) (chars : List Char) :
    Settles none (fun _ => True) (Quoted.numbered width chars) := by
  rw [Quoted.numbered, Quoted.ofNumber]
  repeat' first
    | exact .flaw _
    | exact .scalar _
    | exact .ok trivial
    | refine Settles.bind (P := fun _ => True) ?_ fun _ _ => ?_
    | split

theorem settles_escape (whole : Bool) (chars : List Char) :
    Settles none (fun _ => True) (Quoted.escape whole chars) := by
  rw [Quoted.escape.eq_def]
  repeat' first
    | exact .flaw _
    | exact .ok trivial
    | exact settles_numbered _ _
    | exact settles_breaks ..
    | refine Settles.bind (P := fun _ => True) ?_ fun _ _ => ?_
    | split

theorem settles_tail (whole : Bool) (quote : Char) (fuel : Nat) (done chars : List Char) :
    Settles none (fun _ => True) (Quoted.tail whole quote fuel done chars) := by
  fun_induction Quoted.tail whole quote fuel done chars with
  | case1 | case2 => exact .flaw _
  | case3 _ _ _ _ _ _ _ _ _ ih =>
    exact (settles_breaks ..).bind fun found _ => ih found.1 found.2
  | case4 _ _ _ _ _ _ _ _ ih => exact ih
  | case5 _ _ _ same _ ih =>
    subst same
    exact ih
  | case6 => exact .ok trivial
  | case7 _ _ _ _ _ _ _ ih => exact (settles_escape ..).bind fun found _ => ih found.1 found.2
  | case8 _ _ _ _ _ _ _ _ ih => exact ih

theorem reads_quoted (quote : Char) : Reads fun whole => Quoted.scan whole quote :=
  fun _ _ => settles_tail ..

end Readers

/-- Tokens that nothing follows. -/
def Token.IsFinal : Token → Prop
  | .streamEnd | .broken _ => True
  | _ => False

/-- A list of tokens as the composer may meet it: what broke it is due, and one that an obstacle cuts
off is broken and comes to no end. -/
structure Sealed (obstacle : Option Failure) (tokens : List Token) : Prop where
  due : ∀ cause, .broken cause ∈ tokens → cause.IsDue obstacle
  broken : obstacle ≠ none → ∃ cause, .broken cause ∈ tokens
  endless : obstacle ≠ none → .streamEnd ∉ tokens

namespace Lexer

variable {l l' : Lexer} {t : Token}

/-- A reading under way: no token so far is a last one. -/
structure Going (obstacle : Option Failure) (l : Lexer) : Prop where
  same : l.obstacle = obstacle
  inner : ∀ t ∈ l.tokens, ¬ t.IsFinal

theorem Going.push (going : Going obstacle l) (t : Token) (inner : ¬ t.IsFinal) :
    Going obstacle (l.push t) :=
  ⟨going.same, List.forall_mem_cons.mpr ⟨inner, going.inner⟩⟩

theorem Going.step (going : Going obstacle l) (same : l'.obstacle = l.obstacle)
    (tokens : l'.tokens = t :: l.tokens) (inner : ¬ t.IsFinal) : Going obstacle l' :=
  ⟨same.trans going.same, tokens ▸ (going.push t inner).inner⟩

theorem Going.insert (going : Going obstacle l) (before : Nat) (t : Token) (inner : ¬ t.IsFinal) :
    Going obstacle (l.insert before t) := by
  refine ⟨going.same, fun t' member => ?_⟩
  rcases List.mem_append.mp member with front | back
  · exact going.inner t' (List.mem_of_mem_take front)
  · rcases List.mem_cons.mp back with rfl | back
    · exact inner
    · exact going.inner t' (List.mem_of_mem_drop back)

theorem Going.replicate {count : Nat} (going : Going obstacle l)
    (same : l'.obstacle = l.obstacle)
    (tokens : l'.tokens = List.replicate count .blockEnd ++ l.tokens) : Going obstacle l' := by
  refine ⟨same.trans going.same, fun t member => ?_⟩
  rw [tokens] at member
  rcases List.mem_append.mp member with closed | before
  · rw [(List.mem_replicate.mp closed).2]
    exact id
  · exact going.inner t before

theorem Going.unwind (going : Going obstacle l) (column : Nat) :
    Going obstacle (l.unwind column) := by
  rw [Lexer.unwind]
  split
  next => exact going
  next => exact going.replicate rfl rfl

theorem rest_unwind (l : Lexer) (column : Nat) : (l.unwind column).rest = l.rest := by
  rw [Lexer.unwind]
  split
  next => rfl
  next => rfl

theorem Going.unwindAll (going : Going obstacle l) : Going obstacle l.unwindAll := by
  rw [Lexer.unwindAll]
  split
  next => exact going
  next => exact going.replicate rfl rfl

theorem Going.openBlock (going : Going obstacle l) (t : Token) (inner : ¬ t.IsFinal) :
    Going obstacle (l.openBlock t) := by
  rw [Lexer.openBlock]
  split
  next =>
    refine Going.push ?_ t inner
    exact ⟨going.same, going.inner⟩
  next => exact going

theorem Going.confirm (going : Going obstacle l) (c : Candidate) :
    Going obstacle (l.confirm c) := by
  have keyed := Going.insert (l := { l with candidates := l.candidates.filter fun e => e.1 != l.depth })
    ⟨going.same, going.inner⟩ c.tokenCount .key id
  rw [Lexer.confirm]
  split
  next =>
    have opened := Going.insert ⟨keyed.same, keyed.inner⟩ c.tokenCount .blockMappingStart id
    exact ⟨opened.same, opened.inner⟩
  next => exact ⟨keyed.same, keyed.inner⟩

theorem Going.skipToToken (going : Going obstacle l) (fuel : Nat) :
    Going obstacle (l.skipToToken fuel) := by
  induction fuel generalizing l with
  | zero => exact going
  | succ fuel ih =>
    rw [Lexer.skipToToken]
    split
    next =>
      refine ih ?_
      rw [onNewLine]
      split
      next => exact ⟨going.same, going.inner⟩
      next => exact ⟨going.same, going.inner⟩
    next => exact ⟨going.same, going.inner⟩

theorem Going.skipOrderMark (going : Going obstacle l) : Going obstacle l.skipOrderMark := by
  rw [Lexer.skipOrderMark]
  split
  next => exact ⟨going.same, going.inner⟩
  next => exact going

/-- A step that leaves a reading under way, or fails as is due. -/
def Keeps (obstacle : Option Failure) (s : Step) : Prop :=
  ∀ l, Going obstacle l → Settles obstacle (Going obstacle) (s l)

theorem Going.settles_dropStale (going : Going obstacle l) :
    Settles obstacle (fun l' => Going obstacle l' ∧ l'.rest = l.rest) l.dropStale :=
  .ite (.flaw _) (.ok ⟨⟨going.same, going.inner⟩, rfl⟩)

theorem keeps_dropStale : Keeps obstacle dropStale :=
  fun _ going => going.settles_dropStale.imp fun _ kept => kept.1

theorem keeps_dropCandidate : Keeps obstacle dropCandidate := by
  intro l going
  rw [dropCandidate]
  split
  next => exact .ok going
  next =>
    split
    next => exact .flaw _
    next => exact .ok ⟨going.same, going.inner⟩

theorem keeps_saveCandidate : Keeps obstacle saveCandidate := by
  intro l going
  rw [saveCandidate]
  split
  next => exact .ok going
  next => exact (keeps_dropCandidate l going).bind fun _ going => .ok ⟨going.same, going.inner⟩

theorem settles_needsMore (same : l.obstacle = obstacle) (needed : Bool) :
    Settles obstacle (fun _ => needed = true → obstacle = none) (l.needsMore needed) := by
  rw [needsMore, same]
  cases obstacle with
  | none => exact .ok fun _ => rfl
  | some cause =>
    cases needed with
    | true => exact .error fun is => congrArg some is
    | false => exact .ok fun never => by cases never

theorem settles_readFront {α : Type} {reader : Reader α} (reads : Reads reader)
    (chars : List Char) (size : Nat) :
    Settles obstacle (fun _ => True) (readFront reader obstacle chars size) := by
  fun_induction readFront reader obstacle chars size with
  | case1 _ _ _ _ _ _ read =>
    rw [read]
    exact .ok trivial
  | case2 _ _ _ _ whole read =>
    subst whole
    rw [read]
    exact .ok trivial
  | case3 _ _ _ _ _ cut read | case4 _ _ _ _ cut read =>
    subst cut
    rw [read]
    exact .error fun same => congrArg some same
  | case5 _ _ _ _ failed _ =>
    have due := (reads _ _).of_error failed
    rw [failed]
    split
    next same _ => cases same
    next same _ => cases same
    next same _ => cases same
    next => exact .error fun same => congrArg some same
    next same _ _ =>
      cases same
      exact (Settles.error due).amid
  | case6 _ _ _ _ _ _ ih | case7 _ _ _ _ _ ih => exact ih
  | case8 => exact .ok trivial
  | case9 _ _ _ _ _ _ failed => exact (Settles.error ((reads _ _).of_error failed)).amid

theorem Going.settles_read {α : Type} (going : Going obstacle l) (width : Nat) {reader : Reader α}
    (reads : Reads reader) : Settles obstacle (fun _ => True) (l.read width reader) := by
  rw [Lexer.read, going.same]
  exact (settles_readFront reads _ _).bind fun _ _ => .ok trivial

section Steps

theorem keeps_documentMark (t : Token) (inner : ¬ t.IsFinal) : Keeps obstacle (documentMark t) :=
  fun _ going => (keeps_dropCandidate _ going.unwindAll).bind fun _ going =>
    .ok (going.step rfl rfl inner)

theorem keeps_directive : Keeps obstacle directive :=
  fun _ going => (keeps_dropCandidate _ going.unwindAll).bind fun _ going =>
    (going.settles_read 1 reads_directiveLine).bind fun _ _ =>
      .ok (going.step rfl rfl id)

theorem keeps_openBracket (t : Token) (inner : ¬ t.IsFinal) : Keeps obstacle (openBracket t) :=
  fun _ going => (keeps_saveCandidate _ going).bind fun _ going =>
    .ok (going.step rfl rfl inner)

theorem keeps_closeBracket (t : Token) (inner : ¬ t.IsFinal) : Keeps obstacle (closeBracket t) :=
  fun _ going => (keeps_dropCandidate _ going).bind fun _ going =>
    .ok (going.step rfl rfl inner)

theorem keeps_comma : Keeps obstacle comma :=
  fun _ going => (keeps_dropCandidate _ going).bind fun _ going =>
    .ok (going.step rfl rfl id)

theorem keeps_blockIndicator (t : Token) (inner : ¬ t.IsFinal) (refusal : Flaw) :
    Keeps obstacle (blockIndicator t refusal) := by
  intro l going
  rw [blockIndicator]
  split
  next => exact .ok going
  next =>
    split
    next => exact .ok (going.openBlock t inner)
    next => exact .flaw _

/-- A candidate is dropped where a key may begin or may not. -/
theorem Going.settles_drop (going : Going obstacle l) (allowed : Bool) :
    Settles obstacle (Going obstacle) ((l.allowKey allowed).dropCandidate) :=
  keeps_dropCandidate _ ⟨going.same, going.inner⟩

theorem keeps_item : Keeps obstacle item :=
  fun _ going => (keeps_blockIndicator _ id _ _ going).bind fun _ going =>
    (going.settles_drop true).bind fun _ going => .ok (going.step rfl rfl id)

theorem keeps_explicitKey : Keeps obstacle explicitKey :=
  fun _ going => (keeps_blockIndicator _ id _ _ going).bind fun _ going =>
    (going.settles_drop _).bind fun _ going => .ok (going.step rfl rfl id)

theorem keeps_value : Keeps obstacle value := by
  intro l going
  rw [value]
  split
  next c _ => exact .ok ((going.confirm c).step rfl rfl id)
  next =>
    exact (keeps_blockIndicator _ id _ _ going).bind fun _ going =>
      (going.settles_drop _).bind fun _ going => .ok (going.step rfl rfl id)

theorem keeps_opening {α : Type} {reader : Reader α} (reads : Reads reader) (token : α → Token)
    (inner : ∀ found, ¬ (token found).IsFinal) : Keeps obstacle (opening reader token) :=
  fun _ going => (keeps_saveCandidate _ going).bind fun _ going =>
    (going.settles_read 1 reads).bind fun found _ =>
      .ok (going.step rfl rfl (inner found.1))

theorem keeps_quoted (quote : Char) : Keeps obstacle (quoted quote) :=
  keeps_opening (reads_quoted quote) _ fun _ => id

theorem keeps_block (folded : Bool) : Keeps obstacle (block folded) :=
  fun _ going => (going.settles_drop true).bind fun _ going =>
    (going.settles_read 1 (reads_simple _)).bind fun _ _ =>
      .ok (going.step rfl rfl id)

theorem keeps_plain : Keeps obstacle plain :=
  fun _ going => (keeps_saveCandidate _ going).bind fun _ going =>
    (going.settles_read 0 (reads_plainReader _ _)).bind fun _ _ =>
      .ok (going.step rfl rfl id)

/-- Every token keeps the reading under way. -/
theorem keeps_token (c : Char) (rest : List Char) : Keeps obstacle (token c rest) := by
  intro l going
  rw [token]
  refine .ite (keeps_directive l going) ?_
  refine .ite (keeps_documentMark _ id l going) ?_
  refine .ite (keeps_documentMark _ id l going) ?_
  refine .ite (keeps_openBracket _ id l going) ?_
  refine .ite (keeps_openBracket _ id l going) ?_
  refine .ite (keeps_closeBracket _ id l going) ?_
  refine .ite (keeps_closeBracket _ id l going) ?_
  refine .ite (keeps_comma l going) ?_
  refine .ite (keeps_item l going) ?_
  refine .ite (keeps_explicitKey l going) ?_
  refine .ite (keeps_value l going) ?_
  refine .ite (keeps_opening (reads_simple _) _ (fun _ => id) l going) ?_
  refine .ite (keeps_opening (reads_simple _) _ (fun _ => id) l going) ?_
  refine .ite (keeps_opening (reads_simple _) _ (fun _ => id) l going) ?_
  refine .ite (keeps_block _ l going) ?_
  refine .ite (keeps_block _ l going) ?_
  refine .ite (keeps_quoted _ l going) ?_
  exact .ite (keeps_plain l going) (.flaw _)

end Steps

theorem keeps_readToken (c : Char) (rest : List Char) : Keeps obstacle (readToken c rest) :=
  fun l going => (settles_needsMore going.same _).bind fun _ _ =>
    (keeps_token c rest l going).bind fun next going =>
      (settles_needsMore going.same _).bind fun _ _ => keeps_dropStale next going

/-- Nothing is left to be read only in a text without an obstacle. -/
theorem Going.settles_advance (going : Going obstacle l) (fuel : Nat) :
    Settles obstacle (fun found => (found = none → obstacle = none) ∧
      ∀ next, found = some next → Going obstacle next) (l.advance fuel) := by
  have start := going.skipOrderMark.skipToToken fuel
  rw [advance]
  refine (settles_needsMore start.same _).bind fun _ more => ?_
  refine start.settles_dropStale.bind fun l kept => ?_
  have going := kept.1.unwind l.position.column
  dsimp only
  split
  next ended =>
    rw [rest_unwind, kept.2] at ended
    exact .ok ⟨fun _ => more (by rw [ended]; rfl), fun _ some => by cases some⟩
  next c rest _ =>
    refine (keeps_readToken c rest _ going).bind fun next going => .ok ⟨fun none => ?_, ?_⟩
    · cases none
    · rintro _ ⟨⟩
      exact going

/-- A reading that ends. -/
theorem Going.sealed_breakOff (going : Going obstacle l) {cause : Failure}
    (due : cause.IsDue obstacle) : Sealed obstacle (l.breakOff cause).tokens := by
  have before : ∀ t ∈ l.tokens.drop (l.tokenCount - l.settledCount), ¬ t.IsFinal :=
    fun t member => going.inner t (List.mem_of_mem_drop member)
  refine ⟨fun other member => ?_, fun _ => ⟨cause, List.mem_cons_self⟩, fun _ member => ?_⟩
  · rcases List.mem_cons.mp member with same | member
    · cases same
      exact due
    · exact absurd trivial (before _ member)
  · rcases List.mem_cons.mp member with same | member
    · cases same
    · exact before _ member trivial

theorem Going.sealed_finish (going : Going obstacle l) (whole : obstacle = none) (fuel : Nat) :
    Sealed obstacle (l.finish fuel).tokens := by
  have last : Settles obstacle (Going obstacle)
      (dropStale (Lexer.skipToToken fuel l.skipOrderMark) >>= (·.unwindAll.dropCandidate)) :=
    (keeps_dropStale _ (going.skipOrderMark.skipToToken fuel)).bind fun _ going =>
      keeps_dropCandidate _ going.unwindAll
  rw [finish]
  split
  next closed ended =>
    have inner := (last.of_ok ended).inner
    refine ⟨fun cause member => ?_, fun cut => absurd whole cut, fun cut => absurd whole cut⟩
    rcases List.mem_cons.mp member with same | member
    · cases same
    · exact absurd trivial (inner _ member)
  next cause failed => exact going.sealed_breakOff (last.of_error failed)

theorem Going.sealed_run (going : Going obstacle l) (fuel : Nat) :
    Sealed obstacle (l.run fuel).tokens := by
  induction fuel generalizing l with
  | zero => exact going.sealed_breakOff (Failure.isDue_flaw _)
  | succ fuel ih =>
    rw [run]
    split
    next cause failed => exact going.sealed_breakOff ((going.settles_advance _).of_error failed)
    next ended => exact going.sealed_finish (((going.settles_advance _).of_ok ended).1 rfl) _
    next next read => exact ih (((going.settles_advance _).of_ok read).2 next rfl)

end Lexer

/-- A text with an obstacle comes to a broken token and to no end. -/
theorem sealed_tokens (input : Input) : Sealed input.obstacle (tokens input) := by
  have start : Lexer.Going input.obstacle (.ofInput input) := ⟨rfl, fun _ member => by cases member⟩
  obtain ⟨due, broken, endless⟩ := start.sealed_run (input.chars.length + 1)
  rw [tokens]
  exact ⟨fun cause member => due cause (List.mem_reverse.mp member),
    fun cut => (broken cut).imp fun _ member => List.mem_reverse.mpr member,
    fun cut member => endless cut (List.mem_reverse.mp member)⟩

end ModuleBundler.Yaml
