import ModuleBundler.Ordered.Set
import ModuleBundler.Path.Normal
import ModuleBundler.Script.Import

/-! Discovery of the files that a script reaches through its import calls. The
walk holds the paths still to be visited in a stack, the next one first, and the
paths seen in the order of discovery. A path seen is not visited again, so that
cyclic imports come to an end. The walk itself reads nothing: it names the next
path and is given its text. -/
namespace ModuleBundler.Source

/-- Whether a path ends in one of the extensions. -/
def isSourceFile (extensions : List String) (path : String) : Bool :=
  extensions.any fun e => e.toList.isSuffixOf path.toList

/-- The normal paths of the source files that a script imports, in source order. Specifiers are
seen from the folder of the script; those of packages and of other files are left out. -/
def localImports (extensions : List String) (path content : String) : List String :=
  ((Script.scanImports content).map fun specifier =>
    Path.normalize (Path.join (Path.directory path) specifier)).filter (isSourceFile extensions)

structure Walk where
  /-- Paths to visit, the next one first; some may have been seen since. -/
  stack : List String
  seen : OrderedSet String
  /-- Visited files with their local imports, in order of visit. -/
  edges : List (String × List String)

namespace Walk

def start (path : String) (seen : OrderedSet String) : Walk := ⟨[path], seen, []⟩

/-- The first path of the stack not seen yet, and the walk without it. -/
def next? (w : Walk) : Option (String × Walk) :=
  match w.stack.dropWhile (· ∈ w.seen) with
  | [] => none
  | path :: rest => some (path, { w with stack := rest })

/-- Marks a path as seen; this comes before its text is read. -/
def enter (w : Walk) (path : String) : Walk := { w with seen := w.seen.insert path }

/-- Takes in the imports of a file; they are visited next, in source order. -/
def supply (w : Walk) (path : String) (imports : List String) : Walk :=
  { w with stack := imports ++ w.stack, edges := w.edges ++ [(path, imports)] }

/-- How far a walk got: to its end, to an error, or only through its budget. -/
structure Run (ε σ : Type) where
  walk : Walk
  state : σ
  outcome : Option (Except ε Unit)

variable {ε σ : Type}

/-- Visits at most `budget` paths. Each visit asks `check` for leave, marks the path, and reads its
imports; what the two find lives in a state of their own. -/
def run (check : StateM σ (Except ε Unit)) (imports : String → StateM σ (Except ε (List String))) :
    (budget : Nat) → Walk → σ → Run ε σ
  | 0, w, s => ⟨w, s, none⟩
  | budget + 1, w, s =>
    match w.next? with
    | none => ⟨w, s, some (.ok ())⟩
    | some (path, w) =>
      match check s with
      | (.error e, s) => ⟨w, s, some (.error e)⟩
      | (.ok (), s) =>
        let w := w.enter path
        match imports path s with
        | (.error e, s) => ⟨w, s, some (.error e)⟩
        | (.ok found, s) => run check imports budget (w.supply path found) s

end Walk
end ModuleBundler.Source
