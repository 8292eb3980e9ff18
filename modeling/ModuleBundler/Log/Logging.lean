import ModuleBundler.Cancellation
import ModuleBundler.Log.Line
import ModuleBundler.Log.Tree
import ModuleBundler.Source.Host

/-! Where records go. Setting up opens a file for the day and, unless that is not
wanted, a console, in place of what was open before. Records of the package's
loggers that are grave enough are written to both; records of other loggers are
made but go nowhere. -/
namespace ModuleBundler.Log

open Source

/-- What records are written to. -/
inductive Handler where
  | file (place : Place)
  | console
  deriving DecidableEq

/-- Why records could not be given a place to go. -/
inductive SetUpError where
  | time (e : TimeError)
  | look (e : LookError)

structure Logging where
  /-- Absolute path of the working directory. -/
  folder : String
  clock : Clock
  /-- The least level of records; if it is unset, that of all other loggers. -/
  level : Level
  handlers : List Handler
  tree : Tree
  printed : List String

namespace Logging

/-- The logger whose name begins those of all parts. -/
def packageLogger : String := "aerobundle"

def usualFolder : String := ".aerobundle_logs"

/-- The least level of loggers outside the package. -/
def outerLevel : Level := .warning

/-- Seconds that pass with each record. -/
def tick : Float := 0.25

/-- The place of a path as the system follows it to a file: normal and absolute. -/
def placeOf (path : String) : Place := Path.names (Path.absolute path).toList

/-- Nothing is set up yet. -/
def start (folder : String) (now : Float) : Logging :=
  ⟨folder, ⟨now, tick⟩, .info, [], .holding (placeOf folder), []⟩

/-- Whether a logger belongs to the package. -/
def isInside (logger : String) : Bool :=
  logger == packageLogger || (packageLogger ++ ".").toList.isPrefixOf logger.toList

/-- The least level of records that a logger makes. -/
def threshold (l : Logging) (logger : String) : Level :=
  if isInside logger ∧ l.level ≠ .unset then l.level else outerLevel

/-- Records without a positive level are never made. -/
def isEnabled (l : Logging) (logger : String) (level : Level) : Bool :=
  0 < level.number && (l.threshold logger).number ≤ level.number

/-- The lines of a text. -/
def linesOf (text : String) : List String := text.splitOn "\n"

/-- Writes a record. Neither a file nor the console takes one whose time it cannot tell. -/
def write (r : Record) (l : Logging) : Handler → Logging
  | .file place =>
    match r.line with
    | .ok line => { l with tree := l.tree.addLine place line }
    | .error _ => l
  | .console =>
    match r.plainLine? with
    | some line => { l with printed := l.printed ++ linesOf line }
    | none => l

/-- Makes a record, if the logger is enabled for its level, and writes it. -/
def log (logger : String) (level : Level) (message : String) (fields : Table String Json)
    (l : Logging) : Logging :=
  if l.isEnabled logger level then
    let (now, clock) := Clock.read l.clock
    let r : Record := ⟨.real now, level, logger, "MainThread", message, some fields, none⟩
    let made := { l with clock := clock }
    if isInside logger then made.handlers.foldl (write r) made else made
  else l

/-- Year, month and day in the name of a file; only they have two digits each at least. -/
def dayText (seconds : Float) : Except TimeError String := do
  let (date, _) ← timeOf (.real seconds)
  return date.textWith ""

/-- Makes a folder, and those above it, in the working directory or from the root. -/
def makeFolders (folder : Path.Parts) (l : Logging) : Logging × Option LookError :=
  if folder.toChars.contains '\x00' then (l, some .nullByte)
  else
    let start := if folder.slashes = 0 then placeOf l.folder else []
    let shown (names : List Path.Component) := { folder with names := names : Path.Parts }.toString
    let (tree, refusal) := l.tree.ensureFolders start shown folder.names.reverse
    ({ l with tree := tree }, refusal.map .system)

/-- Opens the file of the day in a folder, and a console if it is wanted, and answers the path of
the file. -/
def openFile (folder : Path.Parts) (console : Bool) (l : Logging) :
    Except SetUpError (String × Logging) := do
  let day ← (dayText l.clock.now).mapError .time
  let path := (folder.child s!"aerobundle_{day}.log".toList).toString
  let absolute := Path.normalize (Path.join l.folder path)
  let tree ← (l.tree.openFile (placeOf absolute) absolute).mapError fun e => .look (.system e)
  let handlers := .file (placeOf absolute) :: if console then [.console] else []
  return (path, { l with handlers := handlers, tree := tree })

/-- Sets up a folder for log files, and a console if it is wanted, and answers the path of the file
of the day, which is continued if it is there. Without the folder records go where they went before;
without the file they go nowhere. -/
def setUp (folder : Option String) (level : Level) (console : Bool) (l : Logging) :
    Except SetUpError String × Logging :=
  let place := match folder with
    | none => (Path.Parts.ofString l.folder).child usualFolder.toList
    | some path => Path.Parts.ofString path
  match l.makeFolders place with
  | (made, some e) => (.error (.look e), made)
  | (made, none) =>
    let cleared := { made with level := level, handlers := [] }
    match cleared.openFile place console with
    | .error e => (.error e, cleared)
    | .ok (path, ready) =>
      (.ok path, ready.log packageLogger .info s!"Logging initialized in {place.toString}"
        (.ofList [("log_file", .text path)]))

/-- The log files in the working directory with their lines, in the order of their paths. -/
def listing (l : Logging) : List (String × List String) :=
  (l.tree.filesBelow (placeOf l.folder)).map fun (names, lines) =>
    (String.ofList (Path.joinWith names), lines)

end Logging
end ModuleBundler.Log
