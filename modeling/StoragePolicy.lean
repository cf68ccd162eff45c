import StoragePolicy.Main
import StoragePolicy.Engine.Session
import StoragePolicy.Config
import StoragePolicy.Api.Router
import StoragePolicy.FilterService
import StoragePolicy.MetricStream
import StoragePolicy.Proofs.Number.Natural
import StoragePolicy.Proofs.Store.View
import StoragePolicy.Proofs.Registry.Ids
import StoragePolicy.Proofs.Registry.Sparing
import StoragePolicy.Proofs.Registry.Callers
import StoragePolicy.Proofs.Engine.Renewal
import StoragePolicy.Proofs.Condition.Reread
import StoragePolicy.Proofs.Engine.Rejection
import StoragePolicy.Proofs.Engine.Deployed
import StoragePolicy.Proofs.Engine.Uninstalled
import StoragePolicy.Proofs.Number.Decimal
import StoragePolicy.Proofs.Number.Packing
import StoragePolicy.Proofs.Number.Scientific
import StoragePolicy.Proofs.Number.Shortest
import StoragePolicy.Proofs.Engine.Fired
import StoragePolicy.Proofs.Registry.Overtaking
import StoragePolicy.Proofs.Registry.Refinement
import StoragePolicy.Proofs.Registry.Vacancy
import StoragePolicy.Proofs.Rule.Writable
import StoragePolicy.Proofs.Rule.Accepted
import StoragePolicy.Proofs.Engine.Streaming
import StoragePolicy.Proofs.Engine.Halting
import StoragePolicy.Proofs.Engine.Completion
import StoragePolicy.Proofs.Engine.Crew
import StoragePolicy.Proofs.Registry.Objectives
import StoragePolicy.Proofs.Condition.Grouping
import StoragePolicy.Proofs.Engine.Started
import StoragePolicy.Proofs.Engine.Reserved
import StoragePolicy.Proofs.Engine.Attempts
import StoragePolicy.Proofs.Text.Percent
import StoragePolicy.Proofs.Url.Segments
import StoragePolicy.Proofs.Command.Addressing
import StoragePolicy.Proofs.Command.Deletion
import StoragePolicy.Proofs.Monitor.Edges
import StoragePolicy.Proofs.Registry.Traffic
import StoragePolicy.Proofs.Engine.Stranded
import StoragePolicy.Proofs.Engine.Reported
import StoragePolicy.Proofs.Condition.Grammar
import StoragePolicy.Proofs.Rule.Laxity
import StoragePolicy.Proofs.Engine.Footprint
import StoragePolicy.Proofs.Store.Atomic
import StoragePolicy.Proofs.Registry.Reread
import StoragePolicy.Proofs.Policy.Target
import StoragePolicy.Proofs.Directory
import StoragePolicy.Proofs.Registry.Filters
import StoragePolicy.Proofs.Command.Lookup
import StoragePolicy.Proofs.Fanout
import StoragePolicy.Proofs.Engine.Reloading
import StoragePolicy.Proofs.Registry.ObjectTypes
import StoragePolicy.Proofs.Registry.Rivals
import StoragePolicy.Proofs.Text.ByteOrder
import StoragePolicy.Proofs.Store.Keys
import StoragePolicy.Proofs.Store.Laden
import StoragePolicy.Proofs.Text.Words
import StoragePolicy.Proofs.Sample.Putval
import StoragePolicy.Proofs.Text.Form
import StoragePolicy.Proofs.FilterService
import StoragePolicy.Proofs.Monitor.Learning
