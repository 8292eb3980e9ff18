import ModuleBundler.Json.Basic
import ModuleBundler.Text.Quoted

/-! Counters of a bundle cache. The cache counts in natural numbers; a record read
back from data keeps whatever stands in its fields. -/
namespace ModuleBundler.Cache

universe u

structure Statistics (α : Type u) where
  hits : α
  misses : α
  /-- Texts written, directly or by a build. -/
  stores : α
  /-- Requests that joined a build in flight. -/
  coalescedWaits : α
  /-- Builds that failed. -/
  failures : α
  clears : α
  currentEntryCount : α
  peakEntryCount : α
  deriving DecidableEq

namespace Statistics

def zero : Statistics Nat := ⟨0, 0, 0, 0, 0, 0, 0, 0⟩

instance : Inhabited (Statistics Nat) := ⟨zero⟩

/-- The counters by name, in their fixed order. -/
def fields {α : Type u} (s : Statistics α) : List (String × α) :=
  [("hits", s.hits), ("misses", s.misses), ("stores", s.stores),
    ("coalesced_waits", s.coalescedWaits), ("failures", s.failures), ("clears", s.clears),
    ("current_entry_count", s.currentEntryCount), ("peak_entry_count", s.peakEntryCount)]

/-- The counters that a look-up by name finds; fails with the first name that it lacks. -/
def ofFields {α : Type u} (field? : String → Option α) : Except String (Statistics α) := do
  let get (name : String) : Except String α :=
    match field? name with
    | some value => .ok value
    | none => .error name
  return {
    hits := ← get "hits"
    misses := ← get "misses"
    stores := ← get "stores"
    coalescedWaits := ← get "coalesced_waits"
    failures := ← get "failures"
    clears := ← get "clears"
    currentEntryCount := ← get "current_entry_count"
    peakEntryCount := ← get "peak_entry_count" }

def toJson (s : Statistics Nat) : Json :=
  .object (s.fields.map fun f => (f.1, .whole f.2))

end Statistics
end ModuleBundler.Cache
