import ModuleBundler.Ordered.Set
import ModuleBundler.Path.Parts
import ModuleBundler.Watch.Glob

/-! Which paths are not watched: those below folders that hold no sources, files
that may hold secrets, and whatever the patterns of the project name. Only the path
below the project counts. -/
namespace ModuleBundler.Watch

/-- Names of folders and files that are never watched. -/
def idleNames : List String :=
  [".git", "node_modules", "bower_components", ".cache", ".next", "coverage", "dist", "build",
    "__pycache__", ".venv", "venv"]

/-- Patterns for the names of files that may hold secrets. -/
def secretPatterns : List String :=
  [".env", ".env.*", "*.key", "*.pem", "credentials.json", ".npmrc", "secrets.yaml",
    "secrets.yml"]

/-- A path as the rules see it: its parts below the project, or all of them if it lies elsewhere. -/
def within (root path : Path.Parts) : Path.Parts := (path.below? root).getD path

/-- Whether a pattern names a path as a whole, its last name, or a folder on the way to it. -/
def names (pattern : String) (place : Path.Parts) (name : String) : Bool :=
  let glob := Glob.ofString pattern
  glob.accepts place.toString || glob.accepts name ||
    place.all.dropLast.any fun part => part == pattern.toList

def hasIdleName (place : Path.Parts) : Bool :=
  place.all.any fun part => idleNames.contains (String.ofList part)

def isSecret (name : String) : Bool := secretPatterns.any fun p => (Glob.ofString p).accepts name

/-- Whether a path is left out under the patterns of a project. -/
def isIgnored (root : Path.Parts) (patterns : List String) (path : String) : Bool :=
  let parts := Path.Parts.ofString path
  let place := within root parts
  let name := String.ofList parts.name
  hasIdleName place || isSecret name || patterns.any fun p => names p place name

end ModuleBundler.Watch
