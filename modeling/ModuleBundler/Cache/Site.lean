import ModuleBundler.Cache.Basic
import ModuleBundler.Source.Host

/-! A cache at work in its surroundings. Each operation is a single step on the
cache and reports what it met. -/
namespace ModuleBundler.Cache

open Source

/-- A cache and the surroundings of those who use it. -/
structure Site (ε : Type) where
  cache : Cache ε
  host : Host

namespace Site

variable {ε : Type}

def onCache {α : Type} (step : StateM (Cache ε) α) : StateM (Site ε) α := fun s =>
  let (answer, cache) := step s.cache
  (answer, { s with cache := cache })

def onHost {α : Type} (step : StateM Host α) : StateM (Site ε) α := fun s =>
  let (answer, host) := step s.host
  (answer, { s with host := host })

def part : String := "aerobundle.cache"

def report (message : String) : StateM (Site ε) Unit :=
  onHost (Host.report (Log.plain .debug part message))

def lookUp (key : Key) : StateM (Site ε) (Option String) := do
  let found ← onCache (Cache.lookUp key)
  let outcome := if found.isSome then "hit" else "miss"
  report s!"Bundle cache {outcome}: {key.text}"
  return found

def put (key : Key) (text : String) : StateM (Site ε) Unit := onCache (Cache.put key text)

def clear : StateM (Site ε) Unit := do
  onCache Cache.clear
  report "Bundle cache cleared"

def beginBuild (key : Key) : StateM (Site ε) Claim := do
  let claim ← onCache (Cache.beginBuild key)
  if !claim.isOwner then report s!"Joining in-flight bundle build: {key.text}"
  return claim

def completeBuild (key : Key) (ticket : Ticket) (text : String) (generation : Int) :
    StateM (Site ε) (Except TicketError Unit) := do
  if (← get).cache.generation ≠ generation then
    report s!"Discarding bundle built before cache clear: {key.text}"
  onCache (Cache.completeBuild key ticket text generation)

def failBuild (key : Key) (ticket : Ticket) (error : ε) :
    StateM (Site ε) (Except TicketError Unit) := onCache (Cache.failBuild key ticket error)

end Site
end ModuleBundler.Cache
