import ModuleBundler.Cache.Statistics
import ModuleBundler.Ordered.Table

/-! The bundle cache. A text stays until it is replaced or everything is cleared.
At most one build of a key is in flight for new requests: the first to claim the
key owns the build, and later ones wait for its ticket. Clearing starts a new
generation: builds begun before it still serve those who wait for them, but are
neither stored nor joined any more. -/
namespace ModuleBundler

namespace Cache

/-- What a bundle is kept under: the project root and the entry point, as they were given. -/
structure Key where
  root : String
  entry : String
  deriving DecidableEq

def Key.text (k : Key) : String := s!"({Text.quoted k.root}, {Text.quoted k.entry})"

/-- The number of a build, counted from zero in the order of claims. -/
structure Ticket where
  number : Nat
  deriving DecidableEq

/-- The answer to a claim. An owner has to complete or fail its build with the generation given. -/
structure Claim where
  ticket : Ticket
  isOwner : Bool
  generation : Int

/-- A build was to be finished a second time. -/
inductive TicketError where
  | alreadyFinished
  deriving DecidableEq

end Cache

open Cache

/-- A cache whose builds may fail with an `ε`. -/
structure Cache (ε : Type) where
  entries : Table Key String
  inFlight : Table Key Ticket
  generation : Int
  statistics : Statistics Nat
  /-- How each build ended, by the number of its ticket. -/
  builds : List (Option (Except ε String))

namespace Cache

variable {ε : Type}

def empty : Cache ε := ⟨∅, ∅, 0, .zero, []⟩

instance : Inhabited (Cache ε) := ⟨empty⟩

def size (c : Cache ε) : Nat := c.entries.size

def keys (c : Cache ε) : List Key := c.entries.keys

def contains (c : Cache ε) (key : Key) : Bool := c.entries.contains key

def count (change : Statistics Nat → Statistics Nat) (c : Cache ε) : Cache ε :=
  { c with statistics := change c.statistics }

/-- The text of a key; the look-up counts as a hit or as a miss. -/
def lookUp (key : Key) : StateM (Cache ε) (Option String) := fun c =>
  match c.entries.get? key with
  | some text => (some text, c.count fun s => { s with hits := s.hits + 1 })
  | none => (none, c.count fun s => { s with misses := s.misses + 1 })

/-- The cache with a text stored. -/
def store (c : Cache ε) (key : Key) (text : String) : Cache ε :=
  let entries := c.entries.insert key text
  { c with
    entries := entries
    statistics := { c.statistics with
      stores := c.statistics.stores + 1
      currentEntryCount := entries.size
      peakEntryCount := max c.statistics.peakEntryCount entries.size } }

def put (key : Key) (text : String) : StateM (Cache ε) Unit := modify (·.store key text)

/-- Removes every text, detaches every build in flight and starts a new generation. -/
def clear : StateM (Cache ε) Unit := modify fun c =>
  { c with
    entries := ∅
    inFlight := ∅
    generation := c.generation + 1
    statistics := { c.statistics with clears := c.statistics.clears + 1, currentEntryCount := 0 } }

/-- Claims the build of a key, or joins the one in flight. -/
def beginBuild (key : Key) : StateM (Cache ε) Claim := fun c =>
  match c.inFlight.get? key with
  | some ticket =>
    (⟨ticket, false, c.generation⟩,
      c.count fun s => { s with coalescedWaits := s.coalescedWaits + 1 })
  | none =>
    let ticket : Ticket := ⟨c.builds.length⟩
    (⟨ticket, true, c.generation⟩,
      { c with inFlight := c.inFlight.insert key ticket, builds := c.builds ++ [none] })

/-- Takes a build out of flight, unless its key has a newer one there. -/
def release (c : Cache ε) (key : Key) (ticket : Ticket) : Cache ε :=
  if c.inFlight.get? key = some ticket then { c with inFlight := c.inFlight.erase key } else c

/-- How a build ended, if it has. -/
def result? (c : Cache ε) (ticket : Ticket) : Option (Except ε String) :=
  (c.builds[ticket.number]?).join

/-- Gives a ticket its result, which happens once. -/
def resolve (ticket : Ticket) (result : Except ε String) :
    StateM (Cache ε) (Except TicketError Unit) := fun c =>
  match c.result? ticket with
  | some _ => (.error .alreadyFinished, c)
  | none => (.ok (), { c with builds := c.builds.set ticket.number (some result) })

/-- Ends a build with a text: stores it if nothing was cleared since `generation`, then serves
those who wait. -/
def completeBuild (key : Key) (ticket : Ticket) (text : String) (generation : Int) :
    StateM (Cache ε) (Except TicketError Unit) := do
  modify fun c =>
    (if c.generation = generation then c.store key text else c).release key ticket
  resolve ticket (.ok text)

/-- Ends a build with an error; no text changes. -/
def failBuild (key : Key) (ticket : Ticket) (error : ε) :
    StateM (Cache ε) (Except TicketError Unit) := do
  modify fun c => (c.count fun s => { s with failures := s.failures + 1 }).release key ticket
  resolve ticket (.error error)

/-- Hits among look-ups in percent; zero before the first. -/
def hitRate (c : Cache ε) : Float :=
  let total := c.statistics.hits + c.statistics.misses
  if total = 0 then 0.0 else Float.ofNat c.statistics.hits / Float.ofNat total * 100.0

end Cache
end ModuleBundler
