import Profi.Lib.FinMap
import Profi.Lib.PerCpuMap
import Profi.Bpf.Program
import Profi.Lib.Runs
import Profi.Kernel
import Profi.Lib.MetricVec
import Profi.Metrics
import Profi.Cache
import Profi.Drain
import Profi.EventLoop
import Profi.Accounting
import Profi.Bpf.Spec
import Profi.System
import Profi.Slots
import Profi.Ledger
import Profi.Attribution
import Profi.Loss
import Profi.DrainRace
import Profi.Export
import Profi.Closing
import Profi.Launches
import Profi.Errors
import Profi.Latency
import Profi.Allocations
import Profi.ActiveMemory
import Profi.FailedCalls
import Profi.SampledMemory
import Profi.SampledGuard
import Profi.Lib.OneInN
import Profi.SampledCounts
import Profi.CacheRuns
import Profi.CacheLimits
import Profi.Series
import Profi.Ownership
import Profi.LaunchLabels
import Profi.Enricher
import Profi.Lib.UnionMap
import Profi.PodWatch
import Profi.LoopCache
import Profi.Lookups
import Profi.PodCache
import Profi.Lib.Handoff
import Profi.Threads
import Profi.Races
import Profi.Requests
import Profi.Node
import Profi.Modes
import Profi.Promotion
import Profi.Bookkeeping
import Profi.Eviction
import Profi.KernelNames
import Profi.Lib.Lru
import Profi.Naming
import Profi.PidSeries
import Profi.Registry
import Profi.Attach
import Profi.HttpSecurity
import Profi.Otlp
import Profi.Completeness
import Profi.ContainerIds
import Profi.Lib.Quantile
import Profi.Nvtx
import Profi.Segments
import Profi.Signatures
import Profi.Stragglers
import Profi.DeadRanks
import Profi.DrainArithmetic
import Profi.DropAccounting
import Profi.Hangs
import Profi.KvList
import Profi.NcclBytes
import Profi.OtlpPoints
import Profi.Lib.CLayout
import Profi.Wire
import Profi.Lib.MapRel
import Profi.WireMaps
import Profi.Lib.Tally
import Profi.Lib.Memo
import Profi.Gpus
import Profi.Rescans
import Profi.DropBooks
import Profi.Lib.Cumulative
import Profi.Histograms
import Profi.OtlpExport
