import ModuleBundler.Cancellation
import ModuleBundler.Log.Entry
import ModuleBundler.Source.Disk

/-! The surroundings that reading and building depend on, as one value: files,
refusals that lie in wait, the two clocks, and a record of what was looked at,
how long was waited and what was reported. -/
namespace ModuleBundler.Source

/-- A refusal that the next look at a path meets, whatever the path. -/
structure Fault where
  number : Int
  reason : String
  deriving DecidableEq

structure Host where
  disk : Disk
  /-- One place for each look to come; an empty place lets it pass. -/
  faults : List (Option Fault)
  /-- Seconds for deadlines. -/
  clock : Clock
  /-- Seconds of the day, for timestamps. -/
  wallClock : Clock
  /-- Paths of the reading attempts begun. -/
  visits : List String
  /-- Seconds waited between attempts. -/
  pauses : List Float
  journal : Log.Journal

/-- Why a look at a path showed nothing. -/
inductive LookError where
  | system (e : SystemError)
  /-- The path holds a NUL, which no path may. -/
  | nullByte

def LookError.message : LookError → String
  | system e => e.message
  | nullByte => "embedded null byte"

/-- The kind of an error, as reports name it. -/
def LookError.kind : LookError → String
  | system e => e.kind
  | nullByte => "ValueError"

namespace Host

def ofDisk (disk : Disk) : Host where
  disk := disk
  faults := []
  clock := ⟨0.0, 1.0⟩
  wallClock := ⟨1000.0, 1.0⟩
  visits := []
  pauses := []
  journal := []

instance : Inhabited Host := ⟨ofDisk default⟩

def report (entry : Log.Entry) : StateM Host Unit :=
  modify fun h => { h with journal := h.journal ++ [entry] }

def recordVisit (path : String) : StateM Host Unit :=
  modify fun h => { h with visits := h.visits ++ [path] }

def pause (seconds : Float) : StateM Host Unit :=
  modify fun h => { h with pauses := h.pauses ++ [seconds] }

/-- Runs a step that needs the clock for deadlines only. -/
def withClock {α : Type} (step : StateM Clock α) : StateM Host α := fun h =>
  let (answer, clock) := step h.clock
  (answer, { h with clock := clock })

/-- Runs a step that needs the clock for timestamps only. -/
def withWallClock {α : Type} (step : StateM Clock α) : StateM Host α := fun h =>
  let (answer, clock) := step h.wallClock
  (answer, { h with wallClock := clock })

/-- One look at a path: a waiting fault comes first, then a NUL in the path, then the disk. -/
def look (path : String) : StateM Host (Except LookError Entry) := fun h =>
  let (fault, rest) := match h.faults with
    | [] => (none, [])
    | first :: rest => (first, rest)
  let answer := match fault with
    | some f => .error (.system ⟨f.number, f.reason, path⟩)
    | none =>
      if path.toList.contains '\x00' then .error .nullByte
      else (h.disk.find path).mapError .system
  (answer, { h with faults := rest })

/-- One look that needs a file. -/
def openFile (path : String) : StateM Host (Except LookError ByteArray) := do
  match ← look path with
  | .error e => return .error e
  | .ok .folder => return .error (.system (.isFolder path))
  | .ok (.file content) => return .ok content

end Host
end ModuleBundler.Source
