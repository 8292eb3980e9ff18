import ModuleBundler.Text.Blank

/-! Import calls in script text. A call is the word `require` or `import`, an
opening parenthesis, a quoted specifier and a closing parenthesis, with blanks
anywhere between them. Either quote may open and either may close. The scan is
textual: it also sees calls inside comments and strings. -/
namespace ModuleBundler.Script

open Text

def isQuote (c : Char) : Bool := c == '\'' || c == '"'

/-- Text after a word, if it starts with that word. -/
def afterWord? (word text : List Char) : Option (List Char) :=
  if word.isPrefixOf text then some (text.drop word.length) else none

def afterCallee? (text : List Char) : Option (List Char) :=
  afterWord? "require".toList text <|> afterWord? "import".toList text

/-- Text after a character that may follow blanks. -/
def afterSymbol? (expected : Char → Bool) (text : List Char) : Option (List Char) :=
  match text.dropWhile isBlank with
  | [] => none
  | c :: rest => if expected c then some rest else none

/-- The specifier of an import call that starts the text, and the text after the call. -/
def importAt? (text : List Char) : Option (List Char × List Char) := do
  let rest ← afterCallee? text
  let rest ← afterSymbol? (· == '(') rest
  let rest ← afterSymbol? isQuote rest
  let specifier := rest.takeWhile (!isQuote ·)
  let rest ← afterSymbol? (· == ')') ((rest.dropWhile (!isQuote ·)).drop 1)
  if specifier = [] then none else some (specifier, rest)

theorem length_afterWord? {word text rest : List Char} (found : afterWord? word text = some rest) :
    rest.length ≤ text.length := by
  unfold afterWord? at found
  split at found
  · cases found; simp
  · cases found

theorem length_afterSymbol? {expected : Char → Bool} {text rest : List Char}
    (found : afterSymbol? expected text = some rest) : rest.length < text.length := by
  unfold afterSymbol? at found
  have le : (text.dropWhile isBlank).length ≤ text.length := (List.dropWhile_sublist _).length_le
  split at found
  · cases found
  · next c tail eq =>
    split at found
    · cases found
      rw [eq, List.length_cons] at le
      omega
    · cases found

theorem length_importAt? {text rest specifier : List Char}
    (found : importAt? text = some (specifier, rest)) : rest.length < text.length := by
  simp only [importAt?, Option.bind_eq_bind, Option.bind_eq_some_iff] at found
  obtain ⟨r1, h1, r2, h2, r3, h3, r4, h4, last⟩ := found
  have same : rest = r4 := by
    split at last
    · cases last
    · simp_all
  subst same
  have l1 : r1.length ≤ text.length := by
    simp only [afterCallee?, Option.orElse_eq_orElse, Option.orElse_eq_or,
      Option.or_eq_some_iff] at h1
    rcases h1 with h | ⟨_, h⟩ <;> exact length_afterWord? h
  have l2 := length_afterSymbol? h2
  have l3 := length_afterSymbol? h3
  have l4 := length_afterSymbol? h4
  have l5 : ((r3.dropWhile (!isQuote ·)).drop 1).length ≤ r3.length := by
    simp only [List.length_drop]
    have := (List.dropWhile_sublist (l := r3) (!isQuote ·)).length_le
    omega
  omega

/-- Specifiers from left to right; after a call the scan goes on behind it. -/
def importsIn (text : List Char) : List (List Char) :=
  match text with
  | [] => []
  | c :: tail =>
    match call : importAt? (c :: tail) with
    | some (specifier, rest) =>
      have := length_importAt? call
      specifier :: importsIn rest
    | none => importsIn tail
  termination_by text.length
  decreasing_by
    · exact this
    · exact Nat.lt_succ_self _

/-- The specifiers of all import calls of a script, in order. -/
def scanImports (content : String) : List String :=
  (importsIn content.toList).map String.ofList

end ModuleBundler.Script
