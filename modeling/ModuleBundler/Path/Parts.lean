import ModuleBundler.Path.Components

/-! Paths by their parts. Empty components and single dots are dropped and parent
steps are kept; the root is nothing, one slash, or two. -/
namespace ModuleBundler.Path

structure Parts where
  /-- How many slashes the path begins with: none, one or two. -/
  slashes : Nat
  names : List Component
  deriving DecidableEq

namespace Parts

def ofChars (path : List Char) : Parts where
  slashes :=
    match (path.takeWhile (· = '/')).length with
    | 0 => 0
    | 2 => 2
    | _ => 1
  names := (Path.names path).filter (· ≠ here)

def ofString (path : String) : Parts := ofChars path.toList

def toChars (p : Parts) : List Char :=
  match List.replicate p.slashes '/' ++ joinWith p.names with
  | [] => here
  | path => path

def toString (p : Parts) : String := String.ofList p.toChars

/-- The root, if there is one, and the names. -/
def all (p : Parts) : List Component :=
  if p.slashes = 0 then p.names else List.replicate p.slashes '/' :: p.names

/-- The last name; a root has none. -/
def name (p : Parts) : Component := p.names.getLastD []

/-- The part of a name from its last dot on, unless the dot is its first or last character. -/
def suffixOf (name : Component) : List Char :=
  let tail := name.reverse.takeWhile (· ≠ '.')
  if tail.length + 1 < name.length ∧ tail ≠ [] then '.' :: tail.reverse else []

def suffix (p : Parts) : List Char := suffixOf p.name

/-- The path below `base`, if it lies there; parent steps are not undone. -/
def below? (p base : Parts) : Option Parts :=
  if p.slashes = base.slashes ∧ base.names.isPrefixOf p.names then
    some ⟨0, p.names.drop base.names.length⟩
  else none

/-- The path one name further down. -/
def child (p : Parts) (name : Component) : Parts := { p with names := p.names ++ [name] }

end Parts
end ModuleBundler.Path
