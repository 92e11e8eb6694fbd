import LangGraph.Channels.Channel
import LangGraph.Checkpoint.Rows
import LangGraph.Pregel.ApplyWrites
import LangGraph.Pregel.ExitFlush
import LangGraph.Pregel.Hydrate
import LangGraph.Pregel.Committed
import LangGraph.Pregel.Core
import LangGraph.Pregel.Retried
import LangGraph.Pregel.NullWrites
import LangGraph.Pregel.Prepared
import LangGraph.Pregel.Runner
import LangGraph.Pregel.Thread
import LangGraph.Pregel.Untracked
import LangGraph.Pregel.UntrackedLoop
import LangGraph.Pregel.UntrackedThread
import LangGraph.Checkpoint.Sqlite
import LangGraph.Checkpoint.DeltaHistory
import LangGraph.Pregel.CachedWrites
import LangGraph.Pregel.Reraise
import LangGraph.Pregel.OrderIndependence
import LangGraph.Pregel.TaskId
import LangGraph.Pregel.CoreRun
import LangGraph.Pregel.PendingSends
import LangGraph.Pregel.SendTasks
import LangGraph.Pregel.NullResume
import LangGraph.Pregel.StateSnapshot
import LangGraph.Pregel.FailedApply
import LangGraph.Pregel.FailedSuperstep
import LangGraph.Pregel.Lookahead
import LangGraph.Pregel.Deferred
import LangGraph.Pregel.ErrorHandlers
import LangGraph.Pregel.CacheOrRun
import LangGraph.Pregel.RoutedFailures
import LangGraph.Pregel.InterruptReports
import LangGraph.Collections.Separated
import LangGraph.Pregel.ParentCommand
import LangGraph.Pregel.PendingOwners
import LangGraph.Channels.DeltaReplay
import LangGraph.Pregel.DeltaReads
import LangGraph.Pregel.DeltaPut
import LangGraph.Pregel.UpdateVisible
import LangGraph.Pregel.Moved
import LangGraph.Pregel.SeenVersions
import LangGraph.Pregel.InterruptBefore
import LangGraph.Sdk.UnionFilter
import LangGraph.Pregel.GotoSends
import LangGraph.Pregel.PendingInterrupts
import LangGraph.Pregel.SnapshotValues
import LangGraph.Pregel.SnapshotScheduling
import LangGraph.Collections.Gather
import LangGraph.Graph.Migration
import LangGraph.Pregel.AbandonedWork
import LangGraph.Transition.Attempts
import LangGraph.Pregel.NestedWork
import LangGraph.Pregel.RetriedInterrupts
import LangGraph.Serde.JsonPlus
import LangGraph.Serde.RoundTrip
import LangGraph.Collections.Like
import LangGraph.Store.Namespaces
import LangGraph.Store.Batched
import LangGraph.Store.Linearizable
import LangGraph.Store.Filters
import LangGraph.Store.Memory
import LangGraph.Store.BatchFailures
import LangGraph.Store.FailedBatch
import LangGraph.Sdk.Controller
import LangGraph.Sdk.Delivery
import LangGraph.Sdk.Reconnect
import LangGraph.Sdk.ExactlyOnce
import LangGraph.Sdk.FailedRotation
import LangGraph.Stream.Mux
import LangGraph.Stream.Termination
import LangGraph.Stream.Subgraphs
import LangGraph.Stream.Lifecycle
import LangGraph.Stream.NestedHandles
import LangGraph.Stream.Agreement
import LangGraph.Store.FilterAgreement
import LangGraph.Checkpoint.Listing
import LangGraph.Checkpoint.ListAgreement
import LangGraph.Checkpoint.SqliteDelta
import LangGraph.Hotmart.Models
import LangGraph.Hotmart.Policy
import LangGraph.Hotmart.Clients
import LangGraph.Hotmart.Execution
import LangGraph.Hotmart.Authority
import LangGraph.Hotmart.Reporting
import LangGraph.Hotmart.Ads
import LangGraph.Hotmart.Campaigns
import LangGraph.Hotmart.Graph
import LangGraph.Hotmart.Spending
import LangGraph.Collections.StableSort
import LangGraph.Hotmart.Commands
import LangGraph.Prebuilt.Tools
import LangGraph.Prebuilt.ToolNode
import LangGraph.Collections.Traced
import LangGraph.Serde.StrictDecoding
import LangGraph.Graph.Builder
import LangGraph.Graph.Compile
import LangGraph.Transition.Rendezvous
import LangGraph.Graph.TriggerCells
import LangGraph.Graph.Supersteps
import LangGraph.Graph.DeclaredEdges
import LangGraph.Graph.DeclaredRuns
import LangGraph.Graph.TaskWrites
import LangGraph.Graph.Deliveries
import LangGraph.Graph.EdgeRuns
import LangGraph.Channels.OverwriteLaw
import LangGraph.Checkpoint.Ids
import LangGraph.Collections.Tombstones
import LangGraph.Graph.Messages
import LangGraph.Sdk.Sse
import LangGraph.Graph.MessageReducers
import LangGraph.Graph.AddMessages
import LangGraph.Pregel.SharedInput
import LangGraph.Stream.Cursor
import LangGraph.Stream.Tee
import LangGraph.Pregel.NestedGraphs
import LangGraph.Pregel.LocalRead
import LangGraph.Stream.Interleave
import LangGraph.Checkpoint.Postgres
import LangGraph.Collections.Groups
import LangGraph.Pregel.TaskResults
import LangGraph.Store.Embeddings
import LangGraph.Store.Vectors
import LangGraph.Store.NamespacesInUse
import LangGraph.Collections.Pages
import LangGraph.Store.Pages
import LangGraph.Pregel.EnsureConfig
import LangGraph.Prebuilt.Injection
import LangGraph.Graph.NodeDefaults
import LangGraph.Graph.Recompile
import LangGraph.Graph.CommandLists
import LangGraph.Prebuilt.CombinedOutputs
import LangGraph.Pregel.ExecutorSlots
import LangGraph.Pregel.FinishedTasks
import LangGraph.Channels.Shared
import LangGraph.Pregel.BackgroundSaves
import LangGraph.Cli.UvLock
import LangGraph.Hotmart.CircuitBreaker
import LangGraph.Pregel.ExitTaskIds
import LangGraph.Collections.Attempts
import LangGraph.Hotmart.Http
import LangGraph.Hotmart.Urgency
import LangGraph.Hotmart.MetaAds
import LangGraph.Collections.ExtendedRat
import LangGraph.Hotmart.FloatLaws
import LangGraph.Hotmart.Support
import LangGraph.Hotmart.Escalation
import LangGraph.Hotmart.ModelSends
import LangGraph.Collections.Picked
import LangGraph.Hotmart.AccountStatus
import LangGraph.Hotmart.MediaPlans
import LangGraph.Cache.InMemory
import LangGraph.Cache.Sqlite
import LangGraph.Pregel.Lineage
import LangGraph.Pregel.RecursionLimit
import LangGraph.Store.LastPut
import LangGraph.Channels.Restored
import LangGraph.Checkpoint.Versions
