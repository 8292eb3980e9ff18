import ModuleBundler.Cancellation
import ModuleBundler.Ordered.Table
import ModuleBundler.Source.Disk
import ModuleBundler.Watch.Patterns
import ModuleBundler.Watch.Rules

/-! Reactions to changes of files. A change to a source file that is not ignored is
recorded with its time; unless the file is new, everyone registered hears of it, in
the order of registration. One listener's failure keeps no other from hearing. -/
namespace ModuleBundler.Watch

open Source Cancellation

/-- Listeners are told apart by a type of their own. -/
structure Watcher (κ : Type) where
  /-- The folder of the project, where it was found. -/
  root : Path.Parts
  extensions : OrderedSet String
  /-- Patterns from the project's file. -/
  filePatterns : OrderedSet String
  /-- Patterns given by the user. -/
  userPatterns : OrderedSet String
  listeners : OrderedSet κ
  /-- When each path was last changed. -/
  timestamps : Table String Float

namespace Watcher

variable {κ : Type} [DecidableEq κ]

/-- Finds the folder that a path leads to, through any links on the way. -/
abbrev Locate := String → Path.Parts

/-- Where a path leads if no link is on the way: the path made absolute and normal. -/
def rootOf : Locate := fun path => .ofString (Disk.key path)

/-- The pattern file: the one that is named, or else the usual one in the project. -/
def patternPlace (root : Path.Parts) : Option String → Path.Parts
  | none | some "" => root.child ".gitignore".toList
  | some path => .ofString path

/-- A watcher for a project; without extensions it follows the usual ones. -/
def start (locate : Locate) (root : String) (extensions : List String)
    (patternPath : Option String) (userPatterns : List String) :
    StateM Host (Except LookError (Watcher κ)) := do
  match ← readPatterns (patternPlace (locate root) patternPath).toString with
  | .error e => return .error e
  | .ok filePatterns =>
    return .ok {
      root := locate root
      extensions := .ofList (if extensions.isEmpty then [".js"] else extensions)
      filePatterns := filePatterns
      userPatterns := .ofList userPatterns
      listeners := ∅
      timestamps := ∅ }

/-- A watcher under the settings of a project. -/
def ofSettings (locate : Locate) (root : String) (s : Settings) :
    StateM Host (Except LookError (Watcher κ)) :=
  start locate root s.sourceExtensions none s.watchIgnorePatterns

/-- All patterns, those of the file first. -/
def patterns (w : Watcher κ) : List String := w.filePatterns.toList ++ w.userPatterns.toList

def ignores (w : Watcher κ) (path : String) : Bool := isIgnored w.root w.patterns path

/-- Whether a path ends like a source file. -/
def isSource (w : Watcher κ) (path : String) : Bool :=
  decide (String.ofList (Path.Parts.ofString path).suffix ∈ w.extensions)

def isAccepted (w : Watcher κ) (path : String) : Bool := !w.ignores path && w.isSource path

/-- Registers a listener; one that is registered keeps its place. -/
def register (w : Watcher κ) (listener : κ) : Watcher κ :=
  { w with listeners := w.listeners.insert listener }

def unregister (w : Watcher κ) (listener : κ) : Watcher κ :=
  { w with listeners := w.listeners.erase listener }

/-- When a path was last changed. -/
def timestamp? (w : Watcher κ) (path : String) : Option Float := w.timestamps.get? path

def record (w : Watcher κ) (path : String) (time : Float) : Watcher κ :=
  { w with timestamps := w.timestamps.insert path time }

end Watcher

/-- A watcher with its clock and what the listeners act on. -/
structure Site (κ : Type) (σ : Type) where
  watcher : Watcher κ
  clock : Clock
  audience : σ

/-- What a listener does when it hears of a path; it may fail. -/
abbrev Hearing (κ : Type) (σ : Type) := κ → String → σ → Except String Unit × σ

/-- Tells listeners of a path, one after the other, whether or not one fails. -/
def tell {κ : Type} {σ : Type} (hear : Hearing κ σ) (path : String) (listeners : List κ)
    (audience : σ) : σ :=
  listeners.foldl (fun audience listener => (hear listener path audience).2) audience

/-- Kinds of changes that the system reports. -/
inductive EventKind where
  | created
  | modified
  | deleted
  | moved
  deriving DecidableEq

structure Event where
  kind : EventKind
  path : String
  /-- Where a moved file went, if that is told. -/
  destination : Option String
  isFolder : Bool

namespace Site

variable {κ : Type} {σ : Type} [DecidableEq κ]

/-- Takes note of a change if the path is accepted, which is the answer; `invalidates` says whether
listeners hear of it. -/
def change (hear : Hearing κ σ) (path : String) (invalidates : Bool) (s : Site κ σ) :
    Bool × Site κ σ :=
  if s.watcher.isAccepted path then
    let (time, clock) := Clock.read s.clock
    let watcher := s.watcher.record path time
    let audience :=
      if invalidates then tell hear path watcher.listeners.toList s.audience else s.audience
    (true, ⟨watcher, clock, audience⟩)
  else (false, s)

/-- Handles an event. Events of folders say nothing about sources; a file that is new concerns
nobody until another file imports it; a move changes both ends. -/
def handle (hear : Hearing κ σ) (e : Event) (s : Site κ σ) : Site κ σ :=
  if e.isFolder then s
  else
    match e.kind with
    | .created => (s.change hear e.path false).2
    | .modified | .deleted => (s.change hear e.path true).2
    | .moved =>
      let s := (s.change hear e.path true).2
      match e.destination with
      | none | some "" => s
      | some path => (s.change hear path true).2

end Site
end ModuleBundler.Watch
