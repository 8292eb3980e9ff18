import ModuleBundler.Path.Parts
import ModuleBundler.Settings.Basic
import ModuleBundler.Source.Host

/-! Settings from a file. A file that is missing, cannot be opened or is no
document leaves the defaults in place and is reported; so does a document that is
no mapping. What makes a value of a document is a loader, which may be any. -/
namespace ModuleBundler.Settings

open Source

/-- Why a loader makes no value of a file that it reads as a text. -/
inductive LoadFailure (ε : Type) where
  /-- The text is no document. -/
  | malformed (reason : String)
  /-- The bytes read are no text, and the loader passes on what it is told of them. -/
  | undecodable
  | other (e : ε)

/-- What a loader of documents comes to on a file with some content. -/
abbrev Loader (ε : Type) := ByteArray → Except (LoadFailure ε) Value

/-- What stops the reading of a settings file for good. -/
inductive FileError (ε : Type) where
  /-- Whether the file exists could not be told. -/
  | look (e : LookError)
  | undecodable
  | loader (e : ε)
  | refused (r : Refusal)

variable {ε : Type}

/-- The place of the settings file in the working directory. -/
def usualPath : String := "/.aerobundle.yml"

/-- Refusals that mean that nothing stands at a path. -/
def absenceNumbers : List Int :=
  [SystemError.absentNumber, SystemError.notFolderNumber, SystemError.badHandleNumber,
    SystemError.linkLoopNumber]

/-- Whether something stands at a path; refusals of any other kind are passed on. -/
def fileExists (path : String) : StateM Host (Except LookError Bool) := do
  match ← Host.look path with
  | .ok _ => return .ok true
  | .error .nullByte => return .ok false
  | .error (.system e) =>
    return if absenceNumbers.contains e.number then .ok false else .error (.system e)

/-- The defaults, with a report of why they are taken. -/
def fallBack (level : Log.Level) (message : String) :
    StateM Host (Except (FileError ε) Settings) := do
  Host.report (Log.plain level part message)
  return .ok default

def unreadable (path reason : String) : StateM Host (Except (FileError ε) Settings) :=
  fallBack .warning s!"Error reading configuration file {path}: {reason}, using defaults"

/-- The kind of a value as the message about a document that is no mapping shows it. -/
def shownKind (v : Value) : String := s!"<class '{v.kind}'>"

/-- Settings from the value of a document. -/
def ofDocument : Value → StateM Host (Except (FileError ε) Settings)
  | .null => fallBack .warning "Configuration file is empty, using defaults"
  | .mapping entries => do
    let (answer, journal) := ofValue (.mapping entries)
    journal.forM Host.report
    return answer.mapError .refused
  | value =>
    fallBack .warning ("Configuration file must contain a YAML dictionary, " ++
      s!"got {shownKind value}, using defaults")

/-- Settings from the content of a file. -/
def ofContent (loader : Loader ε) (path : String) (content : ByteArray) :
    StateM Host (Except (FileError ε) Settings) :=
  match loader content with
  | .ok value => ofDocument value
  | .error (.malformed reason) => unreadable path reason
  | .error .undecodable => return .error .undecodable
  | .error (.other e) => return .error (.loader e)

/-- Reads the settings file at a path. -/
def load (loader : Loader ε) (path : String) : StateM Host (Except (FileError ε) Settings) := do
  match ← fileExists path with
  | .error e => return .error (.look e)
  | .ok false =>
    fallBack .info s!"Configuration file not found at {path}, using defaults"
  | .ok true =>
    match ← Host.openFile path with
    | .error (.system e) => unreadable path e.message
    | .error .nullByte => return .error (.look .nullByte)
    | .ok content => ofContent loader path content

/-- The settings file of a path as it is given, and the form of the path that messages show. -/
def loadAt (loader : Loader ε) (path : String) :
    String × StateM Host (Except (FileError ε) Settings) :=
  let shown := (Path.Parts.ofString path).toString
  (shown, load loader shown)

end ModuleBundler.Settings
