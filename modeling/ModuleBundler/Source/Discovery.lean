import ModuleBundler.Source.Resolver

/-! A walk over files, one attempt to read at a time. Between two steps anything
else may happen to the surroundings; the reading that comes next has already
begun and can be asked for. -/
namespace ModuleBundler.Source

open Cancellation

structure Discovery where
  walk : Walk
  /-- The attempt that comes next, if a file is being read. -/
  reading : Option Reading

namespace Discovery

/-- What a step comes to. -/
inductive Outcome where
  | going (next : Discovery)
  | done (walk : Walk)
  | failed (walk : Walk) (e : DiscoveryError)

def start (path : String) (seen : OrderedSet String) : Discovery := ⟨Walk.start path seen, none⟩

/-- The path that the next step reads. -/
def pending? (d : Discovery) : Option String := d.reading.map (·.path)

/-- Makes the attempt begun, or asks for leave to visit the next path and begins to read it. -/
def advance (r : Resolver) (token : Option Token) (d : Discovery) : StateM Host Outcome := do
  match d.reading with
  | some reading =>
    match ← reading.perform r.reader with
    | .done content =>
      let imports ← r.importsOf reading.path content
      return .going ⟨d.walk.supply reading.path imports, none⟩
    | .failed e => return .failed d.walk (.unreadable e)
    | .again next _ => return .going { d with reading := some next }
  | none =>
    match d.walk.next? with
    | none => return .done d.walk
    | some (path, walk) =>
      match ← Resolver.leave token with
      | .error e => return .failed walk e
      | .ok () => return .going ⟨walk.enter path, some (← Reading.begin r.reader path)⟩

end Discovery
end ModuleBundler.Source
