import ModuleBundler.Script.Minified
import ModuleBundler.Settings.Basic
import ModuleBundler.Source.Discovery

/-! One build of a bundle, one attempt to read at a time. The files are discovered
from the entry point and then read once more in order of discovery; each stands
in the bundle under a line with its path seen from the project root. -/
namespace ModuleBundler.Bundle

open Cancellation Source

def part : String := "aerobundle.bundler"

/-- Why a request for a bundle failed. -/
inductive Failure where
  /-- Discovery or reading failed while the bundle of an entry point was built. -/
  | build (cause : DiscoveryError) (projectRoot entryPoint : String)
  /-- The time limit of the settings is a whole number too large for a double. -/
  | timeoutTooLarge

def Failure.message : Failure → String
  | build cause _ _ => s!"Bundle generation failed: {cause.message}"
  | timeoutTooLarge => "int too large to convert to float"

def Failure.kind : Failure → String
  | build .. => "BundleGenerationError"
  | timeoutTooLarge => "OverflowError"

/-- What is to be built, and how. -/
structure Plan where
  resolver : Resolver
  minify : Bool
  /-- The root and the entry point as they were asked for. -/
  projectRoot : String
  entryPoint : String
  token : Option Token

namespace Plan

def root (p : Plan) : String := Path.absolute p.projectRoot

/-- The entry file, not yet in normal form. -/
def entryFile (p : Plan) : String := Path.join p.root p.entryPoint

end Plan

/-- A file in a bundle: its path on a comment line, then its text. -/
def sectionText (root path content : String) : String :=
  s!"\n// File: {Path.relative path root}\n{content}\n"

/-- The bundle of sections. -/
def assemble (minify : Bool) (sections : List String) : String :=
  let text := String.join sections
  if minify then Script.minify text else text

inductive Build where
  | discovering (d : Discovery)
  /-- `reading` is the next of the files; `sections` holds those before it. -/
  | collecting (files rest : List String) (reading : Reading) (sections : List String)

namespace Build

inductive Outcome where
  | going (next : Build)
  | built (text : String)
  | failed (e : Failure)

def start (p : Plan) : Build := .discovering (.start (Path.absolute p.entryFile) ∅)

def pending? : Build → Option String
  | discovering d => d.pending?
  | collecting _ _ reading _ => some reading.path

/-- Builds are timed by a watch that stands still. -/
def duration : Float := 0.0

def requested (p : Plan) : List (String × Json) :=
  [("project_root", .text p.projectRoot), ("entry_point", .text p.entryPoint)]

/-- Reports why a build failed. -/
def fail (p : Plan) (cause : DiscoveryError) : StateM Host Outcome := do
  Host.report ⟨.error, part, s!"Bundle generation failed for {p.entryFile}: {cause.message}",
    some (requested p ++ [("error_type", .text cause.kind)])⟩
  return .failed (.build cause p.projectRoot p.entryPoint)

/-- Puts the bundle together once every file has been read again. -/
def complete (p : Plan) (files sections : List String) : StateM Host Outcome := do
  let text := assemble p.minify sections
  Host.report ⟨.info, part,
    s!"Built bundle for {p.entryFile}: {files.length} file(s), {text.length} chars",
    some (requested p ++ [("file_count", .whole files.length), ("chars", .whole text.length),
      ("minified", .bool p.minify), ("duration_ms", .real duration)])⟩
  return .built text

/-- Begins to read the next file, or completes the bundle if there is none. -/
def collect (p : Plan) (files sections : List String) : List String → StateM Host Outcome
  | [] => complete p files sections
  | path :: rest => do
    return .going (.collecting files rest (← Reading.begin p.resolver.reader path) sections)

def advance (p : Plan) : Build → StateM Host Outcome
  | .discovering d => do
    match ← d.advance p.resolver p.token with
    | .going next => return .going (.discovering next)
    | .failed _ e => fail p e
    | .done walk => collect p walk.seen.toList [] walk.seen.toList
  | .collecting files rest reading sections => do
    match ← reading.perform p.resolver.reader with
    | .failed e => fail p (.unreadable e)
    | .again next _ => return .going (.collecting files rest next sections)
    | .done content =>
      collect p files (sections ++ [sectionText p.root reading.path content]) rest

end Build
end ModuleBundler.Bundle
