import SparseVllm.Scheduler.Schedule
import SparseVllm.Scheduler.Conservation
import SparseVllm.Chain.Index
import SparseVllm.Chain.Runtime
import SparseVllm.Chain.IndexSpec
import SparseVllm.Chain.RowPromise
import SparseVllm.Lib.Peel
import SparseVllm.Prefix.RadixForest
import SparseVllm.Prefix.RadixTree
import SparseVllm.Lib.Heap
import SparseVllm.Prefix.Index
import SparseVllm.Prefix.Views
import SparseVllm.Prefix.IndexSpec
import SparseVllm.Prefix.CapacityEpoch
import SparseVllm.Prefix.Residency
import SparseVllm.Prefix.Offload
import SparseVllm.Prefix.Promotion
import SparseVllm.CacheManager.Lookup
import SparseVllm.CacheManager.Standard
import SparseVllm.CacheManager.RuntimeState
import SparseVllm.Scheduler.Admission
import SparseVllm.CacheManager.Admission
import SparseVllm.Chain.IndexRun
import SparseVllm.Chain.Validation
import SparseVllm.Scheduler.Outcome
import SparseVllm.Scheduler.Step
import SparseVllm.Scheduler.Landing
import SparseVllm.CacheManager.Contract
import SparseVllm.Scheduler.Progress
import SparseVllm.Scheduler.Publish
import SparseVllm.Lib.SearchTree
import SparseVllm.Prefix.RoutingMembership
import SparseVllm.Prefix.Routing
import SparseVllm.Coordinator.Mixed
import SparseVllm.Coordinator.Reservation
import SparseVllm.Prefix.Shrinks
import SparseVllm.Prefix.Greedy
import SparseVllm.Prefix.Delivery
import SparseVllm.Prefix.Deletion
import SparseVllm.Layers.Reconstruct
import SparseVllm.Lib.Outcome
import SparseVllm.SnapKv.Scores
import SparseVllm.ModelRunner.Lockstep
import SparseVllm.Dispatcher.Requests
import SparseVllm.Lib.Walk
import SparseVllm.Prefix.Ancestry
import SparseVllm.Prefix.RadixHeap
import SparseVllm.Prefix.RadixShape
import SparseVllm.Prefix.RadixUpdates
import SparseVllm.Prefix.RadixFaithful
import SparseVllm.Prefix.RadixAgreement
import SparseVllm.Quest.Engine
import SparseVllm.Quest.Pages
import SparseVllm.Quest.View
import SparseVllm.Serving.Value
import SparseVllm.Serving.Parsing
import SparseVllm.Serving.Message
import SparseVllm.Serving.Deltas
import SparseVllm.Serving.Responses
import SparseVllm.Serving.Output
import SparseVllm.Serving.Shown
import SparseVllm.Serving.Chat
import SparseVllm.Serving.Agreement
import SparseVllm.Serving.Consistent
import SparseVllm.Serving.Endpoints
import SparseVllm.Prefix.Enforcement
import SparseVllm.CacheManager.Materialization
import SparseVllm.Scheduler.Broadcast
import SparseVllm.CacheManager.Memos
import SparseVllm.Lib.TopK
import SparseVllm.SnapKv.Select
import SparseVllm.Chain.Eviction
import SparseVllm.Lib.Rows
import SparseVllm.SnapKv.Slots
import SparseVllm.SnapKv.Allocation
import SparseVllm.SnapKv.Compaction
import SparseVllm.SnapKv.CompactionPaths
import SparseVllm.SnapKv.CompactionLayers
import SparseVllm.SnapKv.PrefixRecent
import SparseVllm.SnapKv.CompactionAgree
import SparseVllm.Lib.Lifecycle
import SparseVllm.Serving.Frames
import SparseVllm.Serving.StreamForm
import SparseVllm.Serving.StreamOrder
import SparseVllm.SmartRouter.ChainAffinity
import SparseVllm.CacheManager.RawKvAgree
import SparseVllm.Quantization.Fp8Tp
import SparseVllm.ShadowKv.Cover
import SparseVllm.Dispatcher.Detokenizer
import SparseVllm.Dispatcher.TextStream
import SparseVllm.Dispatcher.StreamedText
import SparseVllm.Lib.Image
import SparseVllm.Quest.Tables
import SparseVllm.DeltaKv.Storage
import SparseVllm.DeltaKv.Cover
import SparseVllm.Prefix.RoutingBalance
import SparseVllm.DeltaKv.Runs
import SparseVllm.OmniKv.Select
import SparseVllm.Lib.PageBounds
import SparseVllm.Quest.Bounds
import SparseVllm.Quest.Sharing
import SparseVllm.Quest.BoundsRun
import SparseVllm.Quest.Contents
import SparseVllm.Dispatcher.SeqIds
import SparseVllm.Prefix.Hits
import SparseVllm.Quest.Ledger
import SparseVllm.Dispatcher.Tracked
import SparseVllm.Dispatcher.Ends
import SparseVllm.Dispatcher.Owners
