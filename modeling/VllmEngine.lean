import VllmEngine.Lib.Numpy
import VllmEngine.Lib.HashChain
import VllmEngine.Lib.Python
import VllmEngine.Lib.Run
import VllmEngine.Lib.Raises
import VllmEngine.Lib.Descent
import VllmEngine.Lib.Dict
import VllmEngine.Lib.Speculative
import VllmEngine.Lib.Reserve
import VllmEngine.Request
import VllmEngine.BlockHash.Hasher
import VllmEngine.BlockHash.Chain
import VllmEngine.BlockHash.Isolation
import VllmEngine.BlockHash.Session
import VllmEngine.Kv.Spec
import VllmEngine.Kv.BlockPool
import VllmEngine.Kv.HashMap
import VllmEngine.Kv.Events
import VllmEngine.Kv.Lookup
import VllmEngine.Kv.Hybrid
import VllmEngine.Kv.HybridLookup
import VllmEngine.Kv.HybridOptimal
import VllmEngine.Kv.SingleType
import VllmEngine.Kv.Manager
import VllmEngine.Kv.PoolAccounting
import VllmEngine.Kv.ManagerAccounting
import VllmEngine.Kv.Accounting
import VllmEngine.Kv.Startup
import VllmEngine.Kv.Allocate
import VllmEngine.Kv.Solo
import VllmEngine.Kv.Estimate
import VllmEngine.Kv.Serve
import VllmEngine.Lib.Heapq
import VllmEngine.Sched.EncoderCache
import VllmEngine.Sched.State
import VllmEngine.Sched.Running
import VllmEngine.Sched.Schedule
import VllmEngine.Sched.Effects
import VllmEngine.Sched.Update
import VllmEngine.Sched.Lora
import VllmEngine.Sched.Offered
import VllmEngine.Serial.Payload
import VllmEngine.Sched.EncoderSlots
import VllmEngine.Sched.EncoderCalls
import VllmEngine.Sched.EncoderRuns
import VllmEngine.Offload.Simple
import VllmEngine.Offload.Replay
import VllmEngine.Distributed.ShmBroadcast
import VllmEngine.Distributed.ShmDelivery
import VllmEngine.Offload.CachePolicy
import VllmEngine.Offload.CpuManager
import VllmEngine.Offload.CpuConservation
import VllmEngine.Worker.BlockTable
import VllmEngine.Worker.InputBatch
import VllmEngine.Engine.Outputs
import VllmEngine.Engine.Collector
import VllmEngine.Engine.Detokenizer
import VllmEngine.Engine.OutputProcessor
import VllmEngine.Engine.Streaming
import VllmEngine.Distributed.ObjectReclaim
import VllmEngine.Distributed.WaveWakeup
import VllmEngine.Sample.RandomRejection
import VllmEngine.Distributed.StoreGather
import VllmEngine.Engine.TensorIpcMatching
import VllmEngine.Cache.Multimodal
import VllmEngine.Lora.OwnAdapters
import VllmEngine.Runner.RequestState
import VllmEngine.Sched.Departures
import VllmEngine.Runner.Rows
import VllmEngine.Worker.SlotMapping
import VllmEngine.Attention.Ubatch
import VllmEngine.Attention.LocalBatches
import VllmEngine.Distributed.NixlRead
import VllmEngine.Distributed.NixlRecvInv
import VllmEngine.Distributed.MultiConnector
import VllmEngine.Lib.Interleave
import VllmEngine.Serial.RoundTrip
import VllmEngine.Distributed.BuddyRuns
import VllmEngine.Attention.Reorder
import VllmEngine.Runner.DpSync
import VllmEngine.Reasoning.Thinking
import VllmEngine.Runner.GatheredTables
import VllmEngine.Tokenizers.Detokenize
import VllmEngine.SpecDecode.DraftSteps
import VllmEngine.SpecDecode.EagleInputs
import VllmEngine.Engine.StopStrings
import VllmEngine.Multimodal.GatherEmbeddings
import VllmEngine.Sched.RunningVisits
import VllmEngine.SpecDecode.Ngram
import VllmEngine.Logprobs.FlatLogprobs
import VllmEngine.Sample.ThinkingBudget
import VllmEngine.Sample.BudgetCountdown
import VllmEngine.Sample.BudgetEnforced
import VllmEngine.Distributed.StatelessGroup
import VllmEngine.Distributed.BarrierInv
import VllmEngine.Distributed.BarrierSeparates
import VllmEngine.Offload.EvictionContract
import VllmEngine.Distributed.RingChunks
import VllmEngine.Lib.Argsort
import VllmEngine.Distributed.ExpertSlots
import VllmEngine.Distributed.ExpertReplicas
import VllmEngine.Distributed.ExpertPacking
import VllmEngine.Distributed.ExpertHierarchy
import VllmEngine.Kv.SlidingHits
import VllmEngine.Kv.MambaAlign
import VllmEngine.Kv.MambaRuns
import VllmEngine.Sched.AlignedSlots
import VllmEngine.Lib.Links
import VllmEngine.Kv.FreeQueue
import VllmEngine.Lib.Steady
import VllmEngine.Kv.ModelLength
import VllmEngine.Kv.StoredEvents
