import Mathlib.Data.List.DropRight
import ModuleBundler.Script.Minified

/-! The words of a text, which are its runs of characters between blanks. Collapsing
the blanks of a text and trimming it leaves its words, joined by single spaces; so
what is minified is known from the words that the comments leave. -/
namespace ModuleBundler.Text

/-- Runs of characters that are not blank. -/
def words (text : List Char) : List (List Char) := (text.splitOnP isBlank).filter (· ≠ [])

def unwords (ws : List (List Char)) : List Char := [' '].intercalate ws

/-- Nothing is blank in it, and it is not empty. -/
def IsWord (w : List Char) : Prop := w ≠ [] ∧ ∀ c ∈ w, isBlank c = false

section Words

variable {text w : List Char} {c : Char}

@[simp] theorem words_nil : words [] = [] := rfl

/-- A blank parts the words before it from those after it. -/
theorem words_append_blank (blank : isBlank c = true) (before after : List Char) :
    words (before ++ c :: after) = words before ++ words after := by
  rw [words, List.splitOnP_append_cons _ _ blank, List.filter_append]
  rfl

theorem words_cons_blank (blank : isBlank c = true) (text : List Char) :
    words (c :: text) = words text := words_append_blank blank [] text

theorem words_of_isWord (word : IsWord w) : words w = [w] := by
  rw [words, List.splitOnP_eq_singleton word.2]
  simp [word.1]

/-- A word, and what a text has after it. -/
theorem words_isWord_append (word : IsWord w) (blank : isBlank c = true) (rest : List Char) :
    words (w ++ c :: rest) = w :: words rest := by
  rw [words_append_blank blank, words_of_isWord word]
  rfl

/-- Induction along the blanks of a text: it is empty or starts with a blank, it is one word, or it
starts with a word and a blank. -/
@[elab_as_elim]
theorem words_induction {motive : List Char → Prop} (text : List Char) (nil : motive [])
    (blank : ∀ c rest, isBlank c = true → motive rest → motive (c :: rest))
    (last : ∀ w, IsWord w → motive w)
    (word : ∀ w c rest, IsWord w → isBlank c = true → motive rest → motive (w ++ c :: rest)) :
    motive text := by
  induction size : text.length using Nat.strongRecOn generalizing text with
  | ind size ih =>
    cases found : text.find? isBlank with
    | none =>
      by_cases empty : text = []
      · exact empty ▸ nil
      · exact last text ⟨empty, by simpa using List.find?_eq_none.mp found⟩
    | some c =>
      obtain ⟨here, front, rest, rfl, plain⟩ := List.find?_eq_some_iff_append.mp found
      have behind : motive rest := ih rest.length (by simp [← size]; omega) rest rfl
      by_cases empty : front = []
      · subst empty
        exact blank c rest here behind
      · exact word front c rest ⟨empty, by simpa using plain⟩ here behind

theorem isWord_of_mem_words (member : w ∈ words text) : IsWord w := by
  induction text using words_induction with
  | nil => cases member
  | blank c rest blank ih => exact ih (words_cons_blank blank rest ▸ member)
  | last v word =>
    rw [words_of_isWord word, List.mem_singleton] at member
    exact member ▸ word
  | word v c rest word blank ih =>
    rw [words_isWord_append word blank] at member
    rcases List.mem_cons.mp member with rfl | later
    · exact word
    · exact ih later

end Words

section Unwords

variable {v : List Char} {vs ws : List (List Char)}

@[simp] theorem unwords_nil : unwords [] = [] := List.intercalate_nil

@[simp] theorem unwords_singleton (w : List Char) : unwords [w] = w := List.intercalate_singleton

theorem unwords_cons (w : List Char) (some : ws ≠ []) :
    unwords (w :: ws) = w ++ ' ' :: unwords ws := by
  cases ws with
  | nil => exact absurd rfl some
  | cons v rest =>
    rw [unwords, List.intercalate_cons_cons, List.append_assoc]
    rfl

theorem unwords_append (first : vs ≠ []) (second : ws ≠ []) :
    unwords (vs ++ ws) = unwords vs ++ ' ' :: unwords ws := by
  induction vs with
  | nil => exact absurd rfl first
  | cons v rest ih =>
    by_cases last : rest = []
    · subst last
      rw [List.singleton_append, unwords_cons v second, unwords_singleton]
    · rw [List.cons_append, unwords_cons v (by simp [last]), ih last, unwords_cons v last]
      simp

theorem unwords_eq_nil (filled : ∀ w ∈ ws, w ≠ []) : unwords ws = [] ↔ ws = [] := by
  cases ws with
  | nil => simp
  | cons w rest =>
    have first : w ≠ [] := filled w List.mem_cons_self
    by_cases last : rest = []
    · simp [last, first]
    · simp [unwords_cons w last, first]

theorem words_unwords (words : ∀ w ∈ ws, IsWord w) : Text.words (unwords ws) = ws := by
  induction ws with
  | nil => rfl
  | cons w rest ih =>
    obtain ⟨word, others⟩ := List.forall_mem_cons.mp words
    by_cases last : rest = []
    · rw [last, unwords_singleton, words_of_isWord word]
    · rw [unwords_cons w last, words_isWord_append word (by decide), ih others]

theorem length_unwords_words_le (text : List Char) :
    (unwords (words text)).length ≤ text.length := by
  induction text using words_induction with
  | nil => rfl
  | blank c rest blank ih =>
    rw [words_cons_blank blank, List.length_cons]
    exact Nat.le_succ_of_le ih
  | last w word => rw [words_of_isWord word, unwords_singleton]
  | word w c rest word blank ih =>
    rw [words_isWord_append word blank, List.length_append, List.length_cons]
    by_cases final : words rest = []
    · rw [final, unwords_singleton]
      omega
    · rw [unwords_cons w final, List.length_append, List.length_cons]
      omega

/-- Joining in groups, and then the groups that are not empty, joins everything. -/
theorem unwords_flatten {groups : List (List (List Char))}
    (filled : ∀ ws ∈ groups, ∀ w ∈ ws, w ≠ []) :
    unwords groups.flatten = unwords ((groups.map unwords).filter (· ≠ [])) := by
  induction groups with
  | nil => rfl
  | cons ws rest ih =>
    have later := ih fun vs member => filled vs (List.mem_cons_of_mem _ member)
    have here : unwords ws = [] ↔ ws = [] := unwords_eq_nil (filled ws List.mem_cons_self)
    have inRest : ∀ w ∈ rest.flatten, w ≠ [] := by
      intro w member
      obtain ⟨vs, inRest, inGroup⟩ := List.mem_flatten.mp member
      exact filled vs (List.mem_cons_of_mem _ inRest) w inGroup
    have restNil : rest.flatten = [] ↔ (rest.map unwords).filter (· ≠ []) = [] := by
      rw [← unwords_eq_nil inRest, later]
      exact unwords_eq_nil (by simp)
    rw [List.flatten_cons, List.map_cons]
    by_cases empty : ws = []
    · rw [empty, unwords_nil, List.filter_cons_of_neg (by simp)]
      exact later
    · rw [List.filter_cons_of_pos (by simpa [here] using empty)]
      by_cases last : rest.flatten = []
      · rw [last, restNil.mp last, List.append_nil, unwords_singleton]
      · rw [unwords_append empty last, unwords_cons _ (mt restNil.mpr last), later]

end Unwords

section Trim

variable {kind : Char → Bool} {lead body trail : List Char}

/-- Neither end of the text is of the kind. -/
structure Tight (kind : Char → Bool) (text : List Char) : Prop where
  front : ∀ c ∈ text.head?, kind c = false
  back : ∀ c ∈ text.getLast?, kind c = false

theorem dropWhile_of_head (front : ∀ c ∈ body.head?, kind c = false) :
    body.dropWhile kind = body := by
  cases body with
  | nil => rfl
  | cons c rest => rw [List.dropWhile_cons_of_neg (by simp [front c rfl])]

/-- Trimming takes what is of the kind off the ends of a text that is tight inside. -/
theorem trimBy_around (leads : ∀ c ∈ lead, kind c = true) (tight : Tight kind body)
    (trails : ∀ c ∈ trail, kind c = true) : trimBy kind (lead ++ (body ++ trail)) = body := by
  rw [trimBy, List.dropWhile_append_of_pos leads]
  by_cases empty : body = []
  · subst empty
    have gone : trail.dropWhile kind = [] := List.dropWhile_eq_nil_iff.mpr trails
    rw [List.nil_append, gone]
    rfl
  · have kept : (body ++ trail).dropWhile kind = body ++ trail := by
      refine dropWhile_of_head fun c first => tight.front c ?_
      rwa [List.head?_append_of_ne_nil _ empty] at first
    have unkept : ∀ c ∈ trail.reverse, kind c = true := by simpa using trails
    have back : ∀ c ∈ body.reverse.head?, kind c = false := by simpa using tight.back
    rw [kept, List.reverse_append, List.dropWhile_append_of_pos unkept, dropWhile_of_head back,
      List.reverse_reverse]

theorem tight_unwords {ws : List (List Char)} (words : ∀ w ∈ ws, IsWord w) :
    Tight isBlank (unwords ws) := by
  induction ws with
  | nil => exact ⟨by simp, by simp⟩
  | cons w rest ih =>
    obtain ⟨filled, plain⟩ := words w List.mem_cons_self
    have later := ih fun v member => words v (List.mem_cons_of_mem _ member)
    have front : ∀ c ∈ w.head?, isBlank c = false := fun c first => plain c (List.mem_of_head? first)
    by_cases last : rest = []
    · rw [last, unwords_singleton]
      exact ⟨front, fun c final => plain c (List.mem_of_getLast? final)⟩
    · have more : unwords rest ≠ [] := by
        rw [Ne, unwords_eq_nil fun v member => (words v (List.mem_cons_of_mem _ member)).1]
        exact last
      rw [unwords_cons w last]
      constructor
      · rwa [List.head?_append_of_ne_nil _ filled]
      · intro c final
        apply later.back c
        rwa [List.getLast?_append_of_ne_nil _ (by simp), List.getLast?_cons_of_ne_nil more] at final

end Trim

end ModuleBundler.Text

namespace ModuleBundler.Script

open Text

variable {front text : List Char}

theorem collapseBlanks_append (plain : ∀ c ∈ front, isBlank c = false) (rest : List Char) :
    collapseBlanks (front ++ rest) = front ++ collapseBlanks rest := by
  induction front with
  | nil => rfl
  | cons c front ih =>
    have here : ¬ isBlank c = true := by simp [plain c List.mem_cons_self]
    rw [List.cons_append, collapseBlanks, if_neg here,
      ih fun d member => plain d (List.mem_cons_of_mem _ member), List.cons_append]

theorem collapseBlanks_cons_blank {c : Char} (blank : isBlank c = true) (rest : List Char) :
    collapseBlanks (c :: rest) = ' ' :: collapseBlanks (rest.dropWhile isBlank) := by
  rw [collapseBlanks, if_pos blank]

/-- Collapsed from its first word on, a text is its words, and perhaps a last space. -/
theorem collapseBlanks_dropWhile (text : List Char) :
    ∃ trail, (∀ c ∈ trail, isBlank c = true) ∧
      collapseBlanks (text.dropWhile isBlank) = unwords (words text) ++ trail := by
  have kept : ∀ w rest, IsWord w → (w ++ rest).dropWhile isBlank = w ++ rest := by
    intro w rest word
    obtain ⟨c, front, rfl⟩ := List.exists_cons_of_ne_nil word.1
    rw [List.cons_append, List.dropWhile_cons_of_neg (by simp [word.2 c List.mem_cons_self])]
  induction text using words_induction with
  | nil => exact ⟨[], by simp, by simp [collapseBlanks]⟩
  | blank c rest blank ih => rwa [List.dropWhile_cons_of_pos blank, words_cons_blank blank]
  | last w word =>
    refine ⟨[], by simp, ?_⟩
    have alone := collapseBlanks_append word.2 []
    rw [List.append_nil] at alone
    rw [← List.append_nil w, kept w [] word, List.append_nil, alone, words_of_isWord word,
      unwords_singleton, collapseBlanks]
  | word w c rest word blank ih =>
    obtain ⟨trail, blanks, later⟩ := ih
    rw [kept w _ word, collapseBlanks_append word.2, collapseBlanks_cons_blank blank, later,
      words_isWord_append word blank]
    by_cases final : words rest = []
    · refine ⟨' ' :: trail, List.forall_mem_cons.mpr ⟨by decide, blanks⟩, ?_⟩
      rw [final, unwords_singleton, unwords_nil, List.nil_append]
    · refine ⟨trail, blanks, ?_⟩
      rw [unwords_cons w final, List.append_assoc, List.cons_append]

theorem trim_collapseBlanks (text : List Char) :
    trim (collapseBlanks text) = unwords (words text) := by
  have tight : Tight isBlank (unwords (words text)) :=
    tight_unwords fun w member => isWord_of_mem_words member
  obtain ⟨trail, blanks, collapsed⟩ := collapseBlanks_dropWhile text
  cases text with
  | nil => simp [collapseBlanks, trim, trimBy]
  | cons c rest =>
    by_cases blank : isBlank c = true
    · have leads : ∀ d ∈ [' '], isBlank d = true := List.forall_mem_singleton.mpr (by decide)
      rw [List.dropWhile_cons_of_pos blank] at collapsed
      rw [collapseBlanks_cons_blank blank, collapsed]
      exact trimBy_around leads tight blanks
    · have leads : ∀ d ∈ [], isBlank d = true := by simp
      rw [List.dropWhile_cons_of_neg blank] at collapsed
      rw [collapsed]
      exact trimBy_around leads tight blanks

/-- Minified text is the words that the comments leave, joined by single spaces. -/
theorem minifyChars_eq_words (code : List Char) :
    minifyChars code = unwords (words (stripFrom true code)) := trim_collapseBlanks _

end ModuleBundler.Script
