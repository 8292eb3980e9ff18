import ModuleBundler.Ordered.Table
import ModuleBundler.Path.Normal
import ModuleBundler.Text.Quoted

/-! The files of a project as a table of contents by normal absolute path. Every
ancestor of an entry is a folder without an entry of its own. -/
namespace ModuleBundler.Source

/-- Refusals that the system reports by number. -/
structure SystemError where
  number : Int
  reason : String
  path : String
  deriving DecidableEq

namespace SystemError

def absentNumber : Int := 2
def badHandleNumber : Int := 9
def presentNumber : Int := 17
def notFolderNumber : Int := 20
def folderNumber : Int := 21
def nameTooLongNumber : Int := 36
def linkLoopNumber : Int := 40

def absent (path : String) : SystemError := ⟨absentNumber, "No such file or directory", path⟩

def present (path : String) : SystemError := ⟨presentNumber, "File exists", path⟩

def notFolder (path : String) : SystemError := ⟨notFolderNumber, "Not a directory", path⟩

def isFolder (path : String) : SystemError := ⟨folderNumber, "Is a directory", path⟩

def nameTooLong (path : String) : SystemError := ⟨nameTooLongNumber, "File name too long", path⟩

def message (e : SystemError) : String := s!"[Errno {e.number}] {e.reason}: {Text.quoted e.path}"

/-- The refusals that have a name of their own, by number. -/
def kinds : List (Int × String) :=
  [(1, "PermissionError"), (2, "FileNotFoundError"), (4, "InterruptedError"),
    (11, "BlockingIOError"), (13, "PermissionError"), (17, "FileExistsError"),
    (20, "NotADirectoryError"), (21, "IsADirectoryError"), (32, "BrokenPipeError"),
    (110, "TimeoutError")]

def kind (e : SystemError) : String :=
  ((kinds.find? fun k => k.1 == e.number).map Prod.snd).getD "OSError"

end SystemError

/-- What stands at a path. -/
inductive Entry where
  | file (content : ByteArray)
  | folder

/-- Size in bytes; a folder has a fixed one. -/
def Entry.size : Entry → Nat
  | .file content => content.size
  | .folder => 4096

structure Disk where
  entries : Table String Entry

namespace Disk

def empty : Disk := ⟨∅⟩

instance : Inhabited Disk := ⟨empty⟩

/-- The name under which a path is kept: absolute, normal, with one leading slash. -/
def key (path : String) : String :=
  match (Path.absolute path).toList with
  | '/' :: '/' :: rest => String.ofList ('/' :: rest)
  | chars => String.ofList chars

/-- Whether one key lies strictly above another. -/
def isAbove (upper lower : String) : Bool :=
  upper ≠ lower && (upper == "/" || (upper ++ "/").toList.isPrefixOf lower.toList)

/-- What stands at a key: an entry, a folder above entries, or nothing, which below a file is
refused in its own way. -/
def find (d : Disk) (path : String) : Except SystemError Entry :=
  let place := key path
  match d.entries.get? place with
  | some entry => .ok entry
  | none =>
    if place == "/" || d.entries.keys.any (isAbove place) then .ok .folder
    else if d.entries.entries.any fun e =>
        isAbove e.1 place && (match e.2 with | .file _ => true | .folder => false) then
      .error (.notFolder path)
    else .error (.absent path)

def put (d : Disk) (path : String) (entry : Entry) : Disk := ⟨d.entries.insert (key path) entry⟩

def remove (d : Disk) (path : String) : Disk := ⟨d.entries.erase (key path)⟩

end Disk
end ModuleBundler.Source
