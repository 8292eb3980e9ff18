import ModuleBundler.Graph.Basic
import ModuleBundler.Source.Reader
import ModuleBundler.Source.Walk

/-! Resolution of an entry file into the files it reaches, and their projection
onto a module graph. Paths seen in earlier resolutions can be handed over; they
are not read again. -/
namespace ModuleBundler.Source

open Cancellation

/-- Why a discovery stopped. -/
inductive DiscoveryError where
  | interrupted (stop : Interruption)
  | unreadable (e : ReadError)

def DiscoveryError.message : DiscoveryError → String
  | interrupted stop => stop.message
  | unreadable e => e.message

def DiscoveryError.kind : DiscoveryError → String
  | interrupted _ => "OperationCancelledError"
  | unreadable e => e.kind

structure Resolver where
  reader : Reader
  extensions : List String

namespace Resolver

def part : String := "aerobundle.resolver"

/-- Asks a token, if there is one, for leave to visit one more file. -/
def leave (token : Option Token) : StateM Host (Except DiscoveryError Unit) := do
  let answer ← Host.withClock ((checkpoint token) "dependency resolution").run
  return answer.mapError .interrupted

/-- The local imports of a file whose text is at hand. -/
def importsOf (r : Resolver) (path content : String) : StateM Host (List String) := do
  let found := localImports r.extensions path content
  Host.report (Log.plain .debug part s!"Resolved {found.length} local import(s) in {path}")
  return found

/-- Reads a file for its local imports. -/
def readImports (r : Resolver) (path : String) :
    StateM Host (Except DiscoveryError (List String)) := do
  match ← r.reader.readText path with
  | .error e => return .error (.unreadable e)
  | .ok content => return .ok (← r.importsOf path content)

/-- More visits than any walk over the files of a disk can make: each file has two normal paths,
one for each number of leading slashes, and the first path without a file ends the walk. -/
def visitBudget (disk : Disk) : Nat := 2 * disk.entries.size + 2

/-- Walks on from where a walk stands. -/
def walkFrom (r : Resolver) (token : Option Token) (w : Walk) (host : Host) :
    Walk.Run DiscoveryError Host :=
  Walk.run (leave token) r.readImports (visitBudget host.disk) w host

/-- All paths seen once the walk from an entry file is over: those seen before come first. The set
holds them also when the walk fails. -/
structure Resolution where
  seen : OrderedSet String
  outcome : Option (Except DiscoveryError (List String))

def resolve (r : Resolver) (path : String) (seen : OrderedSet String) (token : Option Token) :
    StateM Host Resolution := fun host =>
  let start := Path.absolute path
  if start ∈ seen then (⟨seen, some (.ok seen.toList)⟩, host)
  else
    let run := r.walkFrom token (Walk.start start seen) host
    (⟨run.walk.seen, run.outcome.map (·.map fun _ => run.walk.seen.toList)⟩, run.state)

end Resolver

/-- Paths handed over as seen: a map that the caller shares, or another collection, whose paths are
copied. A collection can be read again, unlike an iterator, which is used up by the copying. -/
inductive SeenPaths where
  | shared (paths : OrderedSet String)
  | copied (paths : List String)
  deriving DecidableEq

namespace SeenPaths

def toSet : SeenPaths → OrderedSet String
  | shared paths => paths
  | copied paths => .ofList paths

/-- What the caller holds afterwards: a shared map has taken in all that was reached. -/
def after (reached : OrderedSet String) : SeenPaths → SeenPaths
  | shared _ => shared reached
  | copied paths => copied paths

end SeenPaths

/-- Resolves an entry file from the paths that a caller hands over. -/
def Resolver.resolveFor (r : Resolver) (path : String) (given : SeenPaths) (token : Option Token) :
    StateM Host (Resolution × SeenPaths) := do
  let found ← r.resolve path given.toSet token
  return (found, given.after found.seen)

/-- Why a projection failed: on the way to the files, or on the way into the graph. -/
inductive ProjectionError where
  | discovery (e : DiscoveryError)
  | graph (e : Graph.Error)

/-- The name of a file in a graph: seen from the root, or absolute without one. -/
def moduleName (root : Option String) (path : String) : String :=
  match root with
  | some root => Path.relative path root
  | none => path

/-- Adds a module for each path; every success takes the time of day. -/
def addFiles (root : Option String) (start : String) :
    List String → Graph → StateM Clock (Except Graph.Error Graph)
  | [], g => return .ok g
  | path :: rest, g => fun clock =>
    let metadata := Table.ofList [("path", Json.text path)]
    match g.addModule (moduleName root path) metadata (path == start) clock.now with
    | .error e => (.error e, clock)
    | .ok g => addFiles root start rest g (Clock.read clock).2

/-- Adds the edges of a walk in its order. -/
def addImports (root : Option String) (edges : List (String × List String)) (g : Graph) :
    Except Graph.Error Graph :=
  edges.foldlM (fun g (source, targets) => targets.foldlM (fun g target =>
    g.addDependency (moduleName root source) (moduleName root target)) g) g

/-- The graph of a finished walk: files in order of discovery, imports in order of visit. -/
def Walk.project (w : Walk) (root : Option String) (start : String) :
    StateM Host (Except Graph.Error Graph) := do
  match ← Host.withWallClock (addFiles root start w.seen.toList .empty) with
  | .error e => return .error e
  | .ok g =>
    match addImports root w.edges g with
    | .error e => return .error e
    | .ok g =>
      Host.report (Log.plain .debug Resolver.part
        s!"Built module graph for {start}: {g.size} module(s)")
      return .ok g

/-- The import graph of an entry file, with names seen from `root` if it is given. -/
def Resolver.buildGraph (r : Resolver) (entry : String) (root : Option String)
    (token : Option Token) : StateM Host (Option (Except ProjectionError Graph)) := fun host =>
  let start := Path.absolute entry
  let run := r.walkFrom token (Walk.start start ∅) host
  match run.outcome with
  | none => (none, run.state)
  | some (.error e) => (some (.error (.discovery e)), run.state)
  | some (.ok ()) =>
    let (result, host) := run.walk.project (root.map Path.absolute) start run.state
    (some (result.mapError .graph), host)

end ModuleBundler.Source
