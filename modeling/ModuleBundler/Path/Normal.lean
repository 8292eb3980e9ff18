import ModuleBundler.Path.Components

/-! The normal form of a path and the operations that keep it. A normal path has
no empty component, no `.`, and `..` only at the start of a relative path. A path
that begins with exactly two slashes keeps both; any other absolute path begins
with one. Relative paths are taken from the root directory. -/
namespace ModuleBundler.Path

def isAbsolute (path : String) : Bool := path.toList.head? == some '/'

/-- How many slashes the normal form begins with. -/
def leadingSlashes : List Char → Nat
  | '/' :: '/' :: '/' :: _ => 1
  | '/' :: '/' :: _ => 2
  | '/' :: _ => 1
  | _ => 0

/-- Adds a component to a normal sequence, kept last first. A parent step undoes the last
component; with nothing to undo it stays in a relative path and vanishes at the root. -/
def descend (rooted : Bool) (reversed : List Component) (next : Component) : List Component :=
  if next = [] ∨ next = here then reversed
  else if next = parent then
    match reversed with
    | [] => if rooted then [] else [parent]
    | last :: before => if last = parent then parent :: reversed else before
  else next :: reversed

def normalComponents (rooted : Bool) (components : List Component) : List Component :=
  (components.foldl (descend rooted) []).reverse

def normalChars (path : List Char) : List Char :=
  let slashes := leadingSlashes path
  match List.replicate slashes '/' ++ joinWith (normalComponents (slashes ≠ 0) (split path)) with
  | [] => here
  | normal => normal

/-- The normal form; an empty path is the current directory. -/
def normalize (path : String) : String := String.ofList (normalChars path.toList)

/-- A second path seen from a first; an absolute one stands alone. -/
def join (base path : String) : String :=
  if isAbsolute path then path
  else if base.isEmpty || base.toList.getLast? == some '/' then base ++ path
  else base ++ "/" ++ path

/-- The normal absolute form. -/
def absolute (path : String) : String := normalize (join "/" path)

/-- Everything before the last component, without the slashes that end it unless it is all
slashes. -/
def directory (path : String) : String :=
  let head := (path.toList.reverse.dropWhile (· ≠ '/'))
  match head.dropWhile (· = '/') with
  | [] => String.ofList head
  | stripped => String.ofList stripped.reverse

/-- The way from one place to another: up to what they share, then down. -/
def relative (path start : String) : String :=
  let target := names (absolute path).toList
  let source := names (absolute start).toList
  let shared := (commonStart source target).length
  match List.replicate (source.length - shared) parent ++ target.drop shared with
  | [] => String.ofList here
  | steps => String.ofList (joinWith steps)

end ModuleBundler.Path
