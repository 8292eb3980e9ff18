import ModuleBundler.Settings.File
import ModuleBundler.Yaml.Value

/-! The loader of documents that the settings are read with. -/
namespace ModuleBundler.Yaml

open Settings

/-- A failure as a loader reports it: every flaw of the notation is a malformed text. -/
def Failure.reported : Failure → LoadFailure Failure
  | flaw cause => .malformed cause.message
  | undecodable => .undecodable
  | cause => .other cause

def loader : Loader Failure := fun content =>
  (valueOf (.ofContent content)).mapError Failure.reported

end ModuleBundler.Yaml
