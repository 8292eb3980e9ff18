import ModuleBundler.Bundle.Request
import ModuleBundler.Source.Survey

/-! Sessions: bundlers at work on common files, step by step. While a step runs,
others may cut in, each before an attempt to read of a given number; among them
are further requests that join a build in flight. Everything runs in one fixed
order, so that a session has one outcome. -/
namespace ModuleBundler.Bundle

open Cancellation Source Decimal

/-- A token to be made when a step starts. -/
structure TokenOrder where
  timeout : Option Number
  cancelled : Bool

inductive Action where
  | generate (key : Cache.Key) (force : Bool) (token : Option TokenOrder)
  /-- Like `generate`, with the fingerprint. -/
  | bundle (key : Cache.Key) (force : Bool) (token : Option TokenOrder)
  | graph (key : Cache.Key) (token : Option TokenOrder)
  | resolve (path : String)
  | fingerprint (text : String)
  | clearCache
  | sourceChanged (path : String)
  | cacheInfo
  | contains (key : Cache.Key)
  | write (path : String) (entry : Source.Entry)
  | delete (path : String)
  | setFaults (faults : List (Option Fault))
  /-- Requests that join the build of a key, by default the key of the step they cut into. -/
  | join (key : Option Cache.Key) (count : Nat) (force : Bool)

/-- An action of one of the bundlers, and steps that cut in before its attempts by number. -/
structure Step where
  bundler : Nat
  action : Action
  interruptions : List (Nat × List Step)

instance : Inhabited Step := ⟨⟨0, .clearCache, []⟩⟩

/-- A bundle with its fingerprint. -/
structure Bundled where
  text : String
  etag : String
  key : Cache.Key

inductive Answer where
  | nothing
  | text (value : String)
  | bundled (value : Bundled)
  | survey (value : Survey)
  | paths (value : List String)
  | cache (value : Cache Failure)
  | truth (value : Bool)
  | count (value : Nat)

inductive StepError where
  | failure (e : Failure)
  | discovery (e : DiscoveryError)
  | graph (e : Graph.Error)
  /-- The timeout of a token is a whole number too large for a double. -/
  | tokenTimeout

/-- How a step ended; one that would wait for ever has no end. -/
abbrev Ending := Option (Except StepError Answer)

structure Session where
  /-- Each bundler and the number of the cache that it uses. -/
  bundlers : List (Bundler × Nat)
  caches : List (Cache Failure)
  host : Host

/-- A session in the middle of a step. -/
structure Run where
  session : Session
  /-- Attempts to read since the step began. -/
  attempts : Nat
  interruptions : List (Nat × List Step)
  hooked : List Ending
  /-- Joined requests, each with the cache that it waits in. -/
  joined : List (Nat × Request)

namespace Run

def onHost {α : Type} (step : StateM Host α) : StateM Run α := fun r =>
  let (answer, host) := step r.session.host
  (answer, { r with session := { r.session with host := host } })

/-- A step on a cache and the host. -/
def onSite {α : Type} (cache : Nat) (step : StateM Site α) : StateM Run α := fun r =>
  let (answer, site) := step ⟨r.session.caches.getD cache default, r.session.host⟩
  (answer, { r with session := { r.session with
    caches := r.session.caches.set cache site.cache, host := site.host } })

/-- Makes the token that a step asks for. -/
def makeToken : Option TokenOrder → StateM Run (Except StepError (Option Token))
  | none => return .ok none
  | some order => do
    match ← onHost (Host.withClock (Token.start order.timeout).run) with
    | none => return .error .tokenTimeout
    | some token => return .ok (some (if order.cancelled then token.cancel else token))

/-- Work that proceeds by attempts to read. -/
inductive Task where
  | request (cache : Nat) (r : Request)
  | discovery (resolver : Resolver) (token : Option Token) (d : Discovery)

/-- What finished work leaves. -/
inductive Product where
  | text (result : Except Failure String)
  | walk (result : Except DiscoveryError Walk)

/-- One step of work; a request that can only wait stops where it is. -/
inductive Progress where
  | going (task : Task)
  | done (product : Product)
  | stuck

def Task.pending? : Task → Option String
  | request _ r => r.pending?
  | discovery _ _ d => d.pending?

def Task.advance : Task → StateM Run Progress
  | request cache r => do
    match r.phase with
    | .finished result => return .done (.text result)
    | .waiting _ =>
      let r ← onSite cache r.advance
      match r.result? with
      | some result => return .done (.text result)
      | none => return .stuck
    | _ => return .going (.request cache (← onSite cache r.advance))
  | discovery resolver token d => do
    match ← onHost (d.advance resolver token) with
    | .going next => return .going (.discovery resolver token next)
    | .done walk => return .done (.walk (.ok walk))
    | .failed _ e => return .done (.walk (.error e))

/-- Lets requests join the build of a key and answers how many have joined builds so far. -/
def joinBuild (bundler : Bundler) (cache : Nat) (key : Cache.Key) (force : Bool) :
    (count : Nat) → StateM Run Nat
  | 0 => return ((← get).session.caches.getD cache default).statistics.coalescedWaits
  | count + 1 => do
    let r := Request.start bundler key force none
    let r ← onSite cache r.advance
    let r ← match r.phase with
      | .claiming => onSite cache r.advance
      | _ => pure r
    modify fun run => { run with joined := run.joined ++ [(cache, r)] }
    joinBuild bundler cache key force count

/-- The graph of a finished walk, analysed. -/
def surveyWalk (key : Cache.Key) : Except DiscoveryError Walk → StateM Run Ending
  | .error e => return some (.error (.discovery e))
  | .ok walk => do
    let root := Path.absolute key.root
    match ← onHost (walk.project (some root) (Path.absolute (Path.join root key.entry))) with
    | .error e => return some (.error (.graph e))
    | .ok g =>
      match ← onHost (survey g) with
      | .error e => return some (.error (.graph e))
      | .ok found => return some (.ok (.survey found))

mutual

/-- Carries work out to its end, letting others cut in before each attempt to read. -/
def drive (current : Cache.Key) : (fuel : Nat) → Task → StateM Run (Option Product)
  | 0, _ => return none
  | fuel + 1, task => do
    if task.pending?.isSome then
      modify fun run => { run with attempts := run.attempts + 1 }
      let run ← get
      let due := run.interruptions.filter fun i => i.1 == run.attempts
      set { run with interruptions := run.interruptions.filter fun i => i.1 != run.attempts }
      interrupt current fuel (due.flatMap Prod.snd)
    match ← task.advance with
    | .going next => drive current fuel next
    | .done product => return some product
    | .stuck => return none

/-- Runs steps that cut in, one after the other. -/
def interrupt (current : Cache.Key) : (fuel : Nat) → List Step → StateM Run Unit
  | 0, _ => return ()
  | _, [] => return ()
  | fuel + 1, step :: rest => do
    let ending ← perform current fuel step
    modify fun run => { run with hooked := run.hooked ++ [ending] }
    interrupt current fuel rest

/-- The request of a key, carried out. -/
def request (fuel : Nat) (bundler : Bundler) (cache : Nat) (key : Cache.Key) (force : Bool)
    (order : Option TokenOrder) : StateM Run (Option (Except StepError String)) :=
  match fuel with
  | 0 => return none
  | fuel + 1 => do
    match ← makeToken order with
    | .error e => return some (.error e)
    | .ok token =>
      match ← drive key fuel (.request cache (.start bundler key force token)) with
      | some (.text (.ok text)) => return some (.ok text)
      | some (.text (.error e)) => return some (.error (.failure e))
      | _ => return none

/-- Carries out one action. -/
def perform (current : Cache.Key) : (fuel : Nat) → Step → StateM Run Ending
  | 0, _ => return none
  | fuel + 1, step => do
    let some (bundler, cache) := (← get).session.bundlers[step.bundler]? | return none
    match step.action with
    | .generate key force token =>
      return (← request fuel bundler cache key force token).map (·.map .text)
    | .bundle key force token =>
      return (← request fuel bundler cache key force token).map
        (·.map fun text => .bundled ⟨text, bundler.fingerprint text, key⟩)
    | .graph key order =>
      match ← makeToken order with
      | .error e => return some (.error e)
      | .ok token =>
        let entry := Path.absolute (Path.join (Path.absolute key.root) key.entry)
        match ← drive current fuel (.discovery bundler.resolver token (.start entry ∅)) with
        | some (.walk walked) => surveyWalk key walked
        | _ => return none
    | .resolve path =>
      match ← drive current fuel (.discovery bundler.resolver none
          (.start (Path.absolute path) ∅)) with
      | some (.walk (.ok walk)) => return some (.ok (.paths walk.seen.toList))
      | some (.walk (.error e)) => return some (.error (.discovery e))
      | _ => return none
    | .fingerprint text => return some (.ok (.text (bundler.fingerprint text)))
    | .clearCache =>
      onSite cache clearCache
      return some (.ok .nothing)
    | .sourceChanged path =>
      onSite cache (onSourceChanged path)
      return some (.ok .nothing)
    | .cacheInfo => return some (.ok (.cache ((← get).session.caches.getD cache default)))
    | .contains key =>
      return some (.ok (.truth (((← get).session.caches.getD cache default).contains key)))
    | .write path entry =>
      onHost (modify fun h => { h with disk := h.disk.put path entry })
      return some (.ok .nothing)
    | .delete path =>
      onHost (modify fun h => { h with disk := h.disk.remove path })
      return some (.ok .nothing)
    | .setFaults faults =>
      onHost (modify fun h => { h with faults := faults })
      return some (.ok .nothing)
    | .join key count force =>
      return some (.ok (.count (← joinBuild bundler cache (key.getD current) force count)))

end

/-- What has become of a joined request. -/
def settle (joiner : Nat × Request) : StateM Run Ending := do
  let r ← onSite joiner.1 joiner.2.advance
  return r.result?.map fun
    | .ok text => .ok (.text text)
    | .error e => .error (.failure e)

end Run

/-- How a step ended, with what cut in and what joined. -/
structure StepOutcome where
  ending : Ending
  hooked : List Ending
  joined : List Ending

mutual

/-- Number of steps, those that cut in included. -/
def countSteps : List Step → Nat
  | [] => 0
  | ⟨_, _, interruptions⟩ :: rest => 1 + countAll interruptions + countSteps rest

def countAll : List (Nat × List Step) → Nat
  | [] => 0
  | (_, steps) :: rest => countSteps steps + countAll rest

end

namespace Session

/-- A session of bundlers over some files; each bundler has a cache of its own unless `shared`. -/
def start (settings : List Settings) (shared : Bool) (host : Host) : Session where
  bundlers := settings.zipIdx.map fun (s, i) => (⟨s⟩, if shared then 0 else i)
  caches := settings.map fun _ => default
  host := host

/-- More than a step and all that cuts in can take: each step adds at most one file, each build
reads every file twice under two names, and no file is tried more than `1025` times. -/
def budget (s : Session) (step : Step) : Nat :=
  let steps := countSteps [step]
  steps * (8 * (s.host.disk.entries.size + steps + 2) * 1026 + 16)

/-- The key of the step that others cut into. -/
def currentKey (step : Step) : Cache.Key :=
  match step.action with
  | .generate key .. | .bundle key .. | .graph key .. | .contains key => key
  | _ => ⟨"", ""⟩

def perform (step : Step) : StateM Session StepOutcome := fun s =>
  let run : Run := ⟨s, 0, step.interruptions, [], []⟩
  let (ending, run) := Run.perform (currentKey step) (s.budget step) step run
  let (joined, run') := run.joined.mapM Run.settle run
  (⟨ending, run.hooked, joined⟩, run'.session)

end Session
end ModuleBundler.Bundle
