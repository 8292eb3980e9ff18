import ModuleBundler.Path.Parts
import ModuleBundler.Source.Disk

/-! Folders and log files by the names that lead to them from the root. A path is
followed name by name through folders that are there; a parent step goes back by
one. A folder is made together with those above it that are missing. -/
namespace ModuleBundler.Log

open ModuleBundler.Path Source

/-- What stands at a place: a folder, or a file with its lines. -/
inductive Item where
  | folder
  | file (lines : List String)
  deriving DecidableEq

/-- The names that lead to a place from the root. -/
abbrev Place := List Component

/-- What is in use below the root, which is a folder itself. -/
structure Tree where
  items : Table Place Item

/-- Why a path leads nowhere, or why no folder can be made at its end. -/
inductive Obstacle where
  | absent
  | present
  | notFolder
  | nameTooLong
  deriving DecidableEq

/-- The refusal of a path that meets an obstacle. -/
def Obstacle.refusal (path : String) : Obstacle → SystemError
  | absent => .absent path
  | present => .present path
  | notFolder => .notFolder path
  | nameTooLong => .nameTooLong path

namespace Tree

/-- The tree with all folders on the way to a place, and nothing else. -/
def holding (place : Place) : Tree where
  items := .ofList ((List.range place.length).map fun i => (place.take (i + 1), .folder))

def item? (t : Tree) (place : Place) : Option Item :=
  if place = [] then some .folder else t.items.get? place

/-- The most bytes of a name, and of a whole path. -/
def nameLimit : Nat := 255

def pathLimit : Nat := 4095

def isNameTooLong (name : Component) : Bool := nameLimit < (String.ofList name).utf8ByteSize

/-- The place one step on from a folder. -/
def step (t : Tree) (place : Place) (name : Component) : Except Obstacle Place :=
  if name = parent then .ok place.dropLast
  else if isNameTooLong name then .error .nameTooLong
  else
    match t.item? (place ++ [name]) with
    | some _ => .ok (place ++ [name])
    | none => .error .absent

/-- The place to which names lead from a place, if all but the last lead to folders. -/
def follow (t : Tree) : Place → List Component → Except Obstacle Place
  | place, [] => .ok place
  | place, name :: rest => do
    if t.item? place ≠ some .folder then throw .notFolder
    t.follow (← t.step place name) rest

def isFolder (t : Tree) (start : Place) (names : List Component) : Bool :=
  match t.follow start names with
  | .ok place => t.item? place = some .folder
  | .error _ => false

/-- Makes the folder to which names lead from a place; all above it must be there. -/
def makeFolder (t : Tree) (start : Place) (names : List Component) : Except Obstacle Tree := do
  if pathLimit < (String.ofList (joinWith names)).utf8ByteSize then throw .nameTooLong
  let above ← t.follow start names.dropLast
  if t.item? above ≠ some .folder then throw .notFolder
  match names.getLast? with
  | none => throw .present
  | some name =>
    match t.step above name with
    | .ok _ => throw .present
    | .error .absent => return ⟨t.items.insert (above ++ [name]) .folder⟩
    | .error obstacle => throw obstacle

/-- Makes a folder unless it is there, and answers what stands in the way otherwise. -/
def ensureFolder (t : Tree) (start : Place) (names : List Component) : Except Obstacle Tree :=
  match t.makeFolder start names with
  | .error obstacle => if t.isFolder start names then .ok t else .error obstacle
  | made => made

/-- Makes the folder of a path, given by its names from the last to the first, and those above it,
unless they are there. If one cannot be made it is named, and those above it stay. -/
def ensureFolders (t : Tree) (start : Place) (shown : List Component → String) :
    List Component → Tree × Option SystemError
  | [] => (t, none)
  | last :: before =>
    let names := (last :: before).reverse
    let settle (t : Tree) : Except Obstacle Tree → Tree × Option SystemError
      | .ok made => (made, none)
      | .error obstacle => (t, some (obstacle.refusal (shown names)))
    match t.ensureFolder start names with
    | .error .absent =>
      match t.ensureFolders start shown before with
      | (t, none) => settle t (t.ensureFolder start names)
      | refused => refused
    | answer => settle t answer

/-- Opens the file at a place for lines to come, which makes it unless it is there. -/
def openFile (t : Tree) (place : Place) (path : String) : Except SystemError Tree :=
  match t.item? place with
  | some .folder => .error (.isFolder path)
  | some (.file _) => .ok t
  | none => .ok ⟨t.items.insert place (.file [])⟩

/-- Adds a line to the file at a place. -/
def addLine (t : Tree) (place : Place) (line : String) : Tree where
  items := t.items.modify place fun
    | .file lines => .file (lines ++ [line])
    | .folder => .folder

/-- The files below a folder, by the names that lead from it to them, in the order of names. -/
def filesBelow (t : Tree) (folder : Place) : List (List Component × List String) :=
  let found := t.items.entries.filterMap fun (place, item) =>
    match item with
    | .file lines =>
      if folder.isPrefixOf place then some (place.drop folder.length, lines) else none
    | .folder => none
  found.mergeSort fun a b => !decide (b.1 < a.1)

end Tree
end ModuleBundler.Log
