import ModuleBundler.Graph.Search
import ModuleBundler.Graph.Validity
import ModuleBundler.Source.Host

/-! What the whole-graph analyses say about one graph, with the reports they make. -/
namespace ModuleBundler.Source

open Cancellation

structure Survey where
  graph : Graph
  cycles : List (List String)
  order : List String
  consistent : Bool

def graphPart : String := "aerobundle.module_graph"

/-- Runs every analysis on a graph. -/
def survey (g : Graph) : StateM Host (Except Graph.Error Survey) := do
  match (g.cycles unchecked).result with
  | .error e => return .error e
  | .ok cycles =>
    if !cycles.isEmpty then
      Host.report (Log.plain .debug graphPart
        s!"Detected {cycles.length} circular dependency chain(s)")
    match (g.executionOrder unchecked).result with
    | .error e => return .error e
    | .ok order =>
      let violations := g.inconsistencies
      if !violations.isEmpty then
        Host.report (Log.plain .warning graphPart
          s!"Module graph validation found {violations.length} error(s)")
      return .ok ⟨g, cycles, order, violations.isEmpty⟩

end ModuleBundler.Source
