/-! Paths as sequences of components between slashes. Splitting and joining are
inverse on components that hold no slash. -/
namespace ModuleBundler.Path

/-- One name between two slashes. -/
abbrev Component := List Char

/-- The pieces between slashes, empty ones included; there is always at least one. -/
def split : List Char → List Component
  | [] => [[]]
  | '/' :: rest => [] :: split rest
  | c :: rest =>
    match split rest with
    | [] => [[c]]
    | first :: others => (c :: first) :: others

def joinWith : List Component → List Char
  | [] => []
  | [last] => last
  | first :: rest => first ++ '/' :: joinWith rest

/-- The pieces that are not empty. -/
def names (path : List Char) : List Component := (split path).filter (· ≠ [])

def here : Component := ['.']

def parent : Component := ['.', '.']

/-- The longest start that two lists share. -/
def commonStart {α : Type} [DecidableEq α] : List α → List α → List α
  | a :: as, b :: bs => if a = b then a :: commonStart as bs else []
  | _, _ => []

end ModuleBundler.Path
