import ModuleBundler.Bundle.Build
import ModuleBundler.Cache.Site

/-! Requests for bundles. A request looks into the cache, unless a fresh build is
forced, then claims the build of its key. The owner of a build carries it out and
ends it; all others wait for its ticket. Every step is one operation on the cache
or at most one attempt to read, so that requests may run in any order beside each
other. -/
namespace ModuleBundler

open Cancellation Source ModuleBundler.Bundle Decimal

/-- Settings and what follows from them. -/
structure Bundler where
  settings : Settings

namespace Bundler

def reader (b : Bundler) : Reader :=
  .withLimits b.settings.readMaxRetries (b.settings.maxFileSizeKb * 1024)

def resolver (b : Bundler) : Resolver := ⟨b.reader, b.settings.sourceExtensions⟩

/-- The fingerprint of a text under the algorithm of the settings. -/
def fingerprint (b : Bundler) (text : String) : String :=
  b.settings.fingerprintAlgorithm.fingerprint text.toUTF8

/-- The import graph of an entry point, with names seen from the root. -/
def buildGraph (b : Bundler) (projectRoot entryPoint : String) (token : Option Token) :
    StateM Host (Option (Except ProjectionError Graph)) :=
  b.resolver.buildGraph (Path.join (Path.absolute projectRoot) entryPoint) (some projectRoot) token

end Bundler

namespace Bundle

abbrev Site := Cache.Site Failure

/-- Where a request stands. -/
inductive Request.Phase where
  /-- The look into the cache comes next. -/
  | asking
  /-- The claim comes next. -/
  | claiming
  /-- The build is owned and about to start. -/
  | starting (ticket : Cache.Ticket) (generation : Int)
  | building (ticket : Cache.Ticket) (generation : Int) (plan : Plan) (build : Build)
  /-- The build is over and about to be ended in the cache. -/
  | ending (ticket : Cache.Ticket) (generation : Int) (result : Except Failure String)
  | waiting (ticket : Cache.Ticket)
  | finished (result : Except Failure String)

structure Request where
  bundler : Bundler
  key : Cache.Key
  token : Option Token
  phase : Request.Phase

namespace Request

def start (bundler : Bundler) (key : Cache.Key) (force : Bool) (token : Option Token) : Request :=
  ⟨bundler, key, token, if force then .claiming else .asking⟩

/-- The path that the next step reads. -/
def pending? (r : Request) : Option String :=
  match r.phase with
  | .building _ _ _ build => build.pending?
  | _ => none

def result? (r : Request) : Option (Except Failure String) :=
  match r.phase with
  | .finished result => some result
  | _ => none

def goTo (r : Request) (phase : Phase) : Request := { r with phase := phase }

/-- The token of a build: the one given, or one for the time limit of the settings. -/
def buildToken (r : Request) : StateM Host (Except Failure (Option Token)) := do
  match r.token with
  | some token => return .ok (some token)
  | none =>
    match r.bundler.settings.timeoutSeconds? with
    | none => return .error .timeoutTooLarge
    | some seconds =>
      if seconds == 0.0 then return .ok none
      match ← Host.withClock (Token.start (some (.real seconds))).run with
      | none => return .error .timeoutTooLarge
      | some token => return .ok (some token)

def plan (r : Request) (token : Option Token) : Plan where
  resolver := r.bundler.resolver
  minify := r.bundler.settings.minify
  projectRoot := r.key.root
  entryPoint := r.key.entry
  token := token

/-- One step. A request that waits for a build still in flight, like a finished one, stays. -/
def advance (r : Request) : StateM Site Request := do
  match r.phase with
  | .asking =>
    match ← Cache.Site.lookUp r.key with
    | some text => return r.goTo (.finished (.ok text))
    | none => return r.goTo .claiming
  | .claiming =>
    let claim ← Cache.Site.beginBuild r.key
    if claim.isOwner then return r.goTo (.starting claim.ticket claim.generation)
    else return r.goTo (.waiting claim.ticket)
  | .starting ticket generation =>
    match ← Cache.Site.onHost r.buildToken with
    | .error e => return r.goTo (.ending ticket generation (.error e))
    | .ok token =>
      let plan := r.plan token
      return r.goTo (.building ticket generation plan (.start plan))
  | .building ticket generation plan build =>
    match ← Cache.Site.onHost (build.advance plan) with
    | .going next => return r.goTo (.building ticket generation plan next)
    | .built text => return r.goTo (.ending ticket generation (.ok text))
    | .failed e => return r.goTo (.ending ticket generation (.error e))
  | .ending ticket generation result =>
    match result with
    | .ok text =>
      let _ ← Cache.Site.completeBuild r.key ticket text generation
    | .error e =>
      let _ ← Cache.Site.failBuild r.key ticket e
    return r.goTo (.finished result)
  | .waiting ticket =>
    match (← get).cache.result? ticket with
    | some result => return r.goTo (.finished result)
    | none => return r
  | .finished _ => return r

end Request

/-- Empties the cache; every later request builds anew. -/
def clearCache : StateM Site Unit := do
  Cache.Site.clear
  Cache.Site.onHost (Host.report (Log.plain .info part "Bundle cache cleared"))

/-- Reacts to a changed source file, which may belong to any bundle. -/
def onSourceChanged (path : String) : StateM Site Unit := do
  Cache.Site.onHost (Host.report ⟨.debug, part, s!"Source changed: {path}",
    some [("file_path", .text path)]⟩)
  clearCache

end Bundle
end ModuleBundler
