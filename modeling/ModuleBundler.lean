import ModuleBundler.Bundle.Session
import ModuleBundler.Graph.Record
import ModuleBundler.Log.Logging
import ModuleBundler.Watch.Watcher
import ModuleBundler.Yaml.Loader
import ModuleBundler.Proofs.Cache.Coherence
import ModuleBundler.Proofs.Cache.Protocol
import ModuleBundler.Proofs.Cache.Coalescing
import ModuleBundler.Proofs.Source.Attempt
import ModuleBundler.Proofs.Bundle.Yield
import ModuleBundler.Proofs.Bundle.Steps
import ModuleBundler.Proofs.Bundle.Concurrency
import ModuleBundler.Proofs.Bundle.Ledger
import ModuleBundler.Proofs.Bundle.Freshness
import ModuleBundler.Proofs.Bundle.Sharing
import ModuleBundler.Proofs.Path.Normal
import ModuleBundler.Proofs.Source.Files
import ModuleBundler.Proofs.Bundle.Termination
import ModuleBundler.Proofs.Bundle.Sequence
import ModuleBundler.Proofs.Watch.Dispatch
import ModuleBundler.Proofs.Watch.Transparency
import ModuleBundler.Proofs.Graph.Diagram
import ModuleBundler.Proofs.Graph.Mutation
import ModuleBundler.Proofs.Graph.Validity
import ModuleBundler.Proofs.Graph.Refinement
import ModuleBundler.Proofs.Graph.Replay
import ModuleBundler.Proofs.Script.Sections
import ModuleBundler.Proofs.Bundle.Failure
import ModuleBundler.Proofs.Bundle.Balance
import ModuleBundler.Proofs.Graph.Records
import ModuleBundler.Proofs.Watch.Runs
import ModuleBundler.Proofs.Bundle.Wrapping
import ModuleBundler.Proofs.Graph.Reach
import ModuleBundler.Proofs.Graph.Exploration
import ModuleBundler.Proofs.Graph.Cycles
import ModuleBundler.Proofs.Graph.Order
import ModuleBundler.Proofs.Source.Descent
import ModuleBundler.Proofs.Source.Canonical
import ModuleBundler.Proofs.Source.Projection
import ModuleBundler.Proofs.Path.Relative
import ModuleBundler.Proofs.Graph.Renaming
import ModuleBundler.Proofs.Source.Naming
import ModuleBundler.Proofs.Script.Marks
import ModuleBundler.Proofs.Script.Seams
import ModuleBundler.Proofs.Script.Identifiers
import ModuleBundler.Proofs.Graph.Closure
import ModuleBundler.Proofs.Graph.Removal
import ModuleBundler.Proofs.Script.Spacing
import ModuleBundler.Proofs.Script.Calls
import ModuleBundler.Proofs.Source.Series
import ModuleBundler.Proofs.Source.Retry
import ModuleBundler.Proofs.Bundle.Content
import ModuleBundler.Proofs.Watch.Endings
import ModuleBundler.Proofs.Source.Backoff
import ModuleBundler.Proofs.Graph.Budget
import ModuleBundler.Proofs.Source.Budget
import ModuleBundler.Proofs.Source.Decoding
import ModuleBundler.Proofs.Settings.Constraints
import ModuleBundler.Proofs.Watch.Ignoring
import ModuleBundler.Proofs.Settings.Startup
import ModuleBundler.Proofs.Log.Line
