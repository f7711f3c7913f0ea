import NexusAgent.Runner.Approval
import NexusAgent.Multiagent.Roots
import NexusAgent.Tools.Sharing
import NexusAgent.Runner.Gating
import NexusAgent.Runner.TurnOrder
import NexusAgent.Runner.Isolation
import NexusAgent.Runner.Pairing
import NexusAgent.Runner.Accounting
import NexusAgent.Runner.Input
import NexusAgent.Runner.Recall
import NexusAgent.Serve.Completeness
import NexusAgent.Serve.Takeover
import NexusAgent.Storage.FileAdapter
import NexusAgent.Storage.SqliteAdapter
import NexusAgent.Storage.RedisAdapter
import NexusAgent.Storage.Deletion
import NexusAgent.Storage.Placement
import NexusAgent.Lib.ReadModifyWrite
import NexusAgent.Storage.AppendTurn
import NexusAgent.Storage.Containment
import NexusAgent.Runner.Operations
import NexusAgent.Runner.PendingMatch
import NexusAgent.Runner.Modes
import NexusAgent.Runner.EventGrammar
import NexusAgent.Runner.Sequence
import NexusAgent.Runner.Unpersisted
import NexusAgent.Multiagent.Completion
import NexusAgent.Multiagent.FirstComplete
import NexusAgent.Multiagent.Contexts
import NexusAgent.Multiagent.Nesting
import NexusAgent.Multiagent.Budget
import NexusAgent.Multiagent.Savings
import NexusAgent.Multiagent.StreamAgreement
import NexusAgent.Scope.Keys
import NexusAgent.Memory.CrossSession
import NexusAgent.Lib.Merge
import NexusAgent.Memory.Merge
import NexusAgent.Memory.Plugin
import NexusAgent.Memory.Approval
import NexusAgent.Tools.Grants
import NexusAgent.Tools.Reachability
import NexusAgent.Runner.AllowList
import NexusAgent.Session.Aggregate
import NexusAgent.Session.Groups
import NexusAgent.Session.SupervisorTree
import NexusAgent.Multiagent.Delegations
import NexusAgent.Lib.OrderBy
import NexusAgent.Storage.Listing
import NexusAgent.Storage.PrefixListing
import NexusAgent.Storage.Paging
import NexusAgent.Voice.EnergyVad
import NexusAgent.Voice.Duplex
import NexusAgent.Voice.BargeIn
import NexusAgent.Voice.Shutdown
import NexusAgent.Voice.AgentStream
import NexusAgent.Voice.SentenceOrder
import NexusAgent.Voice.ThinkFilter
import NexusAgent.Voice.Segmentation
import NexusAgent.Voice.TurnDetection
import NexusAgent.Runner.Underway
import NexusAgent.Runner.TcIds
import NexusAgent.Runner.TokenTotals
import NexusAgent.Lib.Settle
import NexusAgent.Lib.Replace
import NexusAgent.Lib.Drops
import NexusAgent.Rcs.Savings
import NexusAgent.Rcs.Eligibility
import NexusAgent.Tools.Updates
import NexusAgent.Context.Budget
import NexusAgent.Context.Alternation
import NexusAgent.Context.Folding
import NexusAgent.Context.Recurring
import NexusAgent.Runner.Recurring
import NexusAgent.Runner.RawTokens
import NexusAgent.Runner.Durability
import NexusAgent.Runner.LoopBound
import NexusAgent.Runner.Alternation
import NexusAgent.Lib.CharTable
import NexusAgent.Lib.Regex
import NexusAgent.Guardrails.Redaction
import NexusAgent.Lib.Split
import NexusAgent.Guardrails.Cost
import NexusAgent.Storage.Resolve
import NexusAgent.Skills.Store
import NexusAgent.Skills.RoundTrip
import NexusAgent.Skills.Folders
import NexusAgent.Skills.Searches
import NexusAgent.Skills.Scopes
import NexusAgent.Lib.Traverse
import NexusAgent.Orchestration.Resolver
import NexusAgent.Orchestration.References
import NexusAgent.Orchestration.Cycles
import NexusAgent.Voice.ToolBridge
import NexusAgent.Rag.Chunking
import NexusAgent.Lib.Glob
import NexusAgent.Artifacts.Store
import NexusAgent.Artifacts.Lookup
import NexusAgent.Lib.JsonText
import NexusAgent.Lib.JsonRead
import NexusAgent.Lib.Enclosed
import NexusAgent.Llm.ToolCallText
import NexusAgent.Llm.ToolCallRoundTrip
import NexusAgent.Lib.Interleave
import NexusAgent.Runner.Deltas
import NexusAgent.Rag.VectorStore
import NexusAgent.Lib.While
import NexusAgent.Context.Trimming
import NexusAgent.Lib.Heap
import NexusAgent.Context.SessionHeap
import NexusAgent.Llm.TokenCount
import NexusAgent.Context.Degrading
import NexusAgent.Lib.Locks
import NexusAgent.Server.EngineStream
import NexusAgent.Events.Emitter
import NexusAgent.Voice.Mulaw
import NexusAgent.Rag.Fusion
import NexusAgent.Lib.DataType
import NexusAgent.Storage.Refinement
import NexusAgent.Cache.Scoped
import NexusAgent.Lib.Purge
import NexusAgent.Rag.Provider
import NexusAgent.Lib.Base64
import NexusAgent.Voice.MediaStream
import NexusAgent.Lib.RowLocks
import NexusAgent.Storage.Postgres
