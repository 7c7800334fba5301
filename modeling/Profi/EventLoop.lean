import Profi.Bpf.Program
import Profi.Cache
import Profi.Drain

/-!
# The Event Loop

The arms of the `select!` loop in `src/main.rs` that move calls from the eBPF maps to the
metrics: the ring buffer batch, the aggregate tick and the gc tick. Each arm is one step.

What an arm reads from outside the process (clock, enrichment, iteration orders, kernel
names, the upgrade requests of the pod watcher) comes in through `LoopEnv`.
-/

namespace Profi

variable {n : ℕ}

/-- `RINGBUF_CONSUME_BUDGET`. -/
def ringbufConsumeBudget : ℕ := 4096

/-! ## State -/

/-- The environment of one arm. `changedPids` are the processes whose pod changed since the
    last batch, `upgradedPids` the desired set when the watcher marked it dirty, in the order
    the set is enumerated. `readKernelName` answers with the normalized name. -/
structure LoopEnv where
  cacheEnv : CacheEnv
  now : ℕ
  aggOrder : KeyOrder AggKey
  launchOrder : KeyOrder LaunchKey
  ncclOrder : KeyOrder AggKey
  changedPids : List U32
  upgradedPids : Option (List U32)
  readKernelName : U32 → U64 → Option String

/-- An environment that knows nothing about pods, devices and kernels. -/
def LoopEnv.bare : LoopEnv where
  cacheEnv := ⟨fun _ => none, fun _ => none, fun _ => none, KeyOrder.asListed _⟩
  now := 0
  aggOrder := KeyOrder.asListed _
  launchOrder := KeyOrder.asListed _
  ncclOrder := KeyOrder.asListed _
  changedPids := []
  upgradedPids := none
  readKernelName := fun _ _ => none

/-- The local variables of `main` the arms work on. -/
structure Loop where
  metrics : Metrics
  cache : Cache
  kernelNames : KernelNames
  activeMemory : FinMap U32 I64
  upgradedPidsSynced : List U32

def Loop.init (args : Args) : Loop where
  metrics := .new args.kernelMode
  cache := .new
  kernelNames := ∅
  activeMemory := ∅
  upgradedPidsSynced := []

namespace Loop

/-- `cache.get_or_create`. -/
def getHandle (l : Loop) (args : Args) (env : LoopEnv) (key : MetricKey) (event : CudaEvent) :
    CachedHandles × Loop :=
  let (h, metrics, cache) :=
    l.cache.getOrCreate key l.metrics env.cacheEnv event l.kernelNames args.limits
  (h, { l with metrics, cache })

/-- `if !cache.last_seen.contains_key(&pid) { tracked_pids.set(..) }; cache.touch(pid)`. -/
def touchPid (l : Loop) (env : LoopEnv) (pid : U32) : Loop :=
  let metrics :=
    if pid ∈ l.cache.lastSeen then l.metrics
    else { l.metrics with trackedPids := l.cache.lastSeen.size + 1 }
  { l with metrics, cache := l.cache.touch env.now pid }

/-- Of the registry a touch only sets a gauge. -/
theorem touchPid_frame (l : Loop) (env : LoopEnv) (pid : U32) :
    l.touchPid env pid =
      { l with
        metrics := { l.metrics with trackedPids := (l.touchPid env pid).metrics.trackedPids }
        cache := l.cache.touch env.now pid } := by
  unfold touchPid
  split <;> rfl

end Loop

/-- `if x > 0 { c.inc_by(x) }` through an optional handle. -/
def Metrics.incByPos (m : Metrics) (c : Option CounterRef) (x : U64) : Metrics :=
  if x > 0 then m.incByOpt c x.toNat else m

/-! ## Ring buffer batch -/

/-- The cache key of a ring event. -/
def CudaEvent.metricKey (event : CudaEvent) : MetricKey where
  eventType := event.eventType
  pid := event.pid
  memcpyKind := event.memcpyKind
  errorCode := event.errorCode
  stream := event.stream
  addr := if event.eventType = .cudaLaunchKernel then event.addr else 0
  nvtxKey := if event.eventType = .cudaLaunchKernel then nvtxHash event.nvtxMarker else 0

namespace Loop

/-- The counters one ring event increments. -/
def countEvent (m : Metrics) (h : CachedHandles) (event : CudaEvent) : Metrics :=
  let m := m.incBy h.calls 1
  let m := m.observe h.duration event.durationNs
  let m := m.incByPos h.memcpyBytes event.size
  let m := m.incByPos h.mallocBytes event.size
  let m := m.incByPos h.ncclBytes (ncclEventBytes event)
  let m := m.incByOpt h.kernelCounter 1
  let m := m.observeOpt h.kernelHistogram event.durationNs
  m.incByOpt h.errorsCounter 1

/-- The processing of one ring event. -/
def consumeEvent (args : Args) (env : LoopEnv) (l : Loop) (event : CudaEvent) : Loop :=
  let (h, l) := l.getHandle args env event.metricKey event
  { l with metrics := countEvent l.metrics h event }.touchPid env event.pid

/-- The processing of one kernel registration. -/
def registerKernel (env : LoopEnv) (l : Loop) (reg : KernelRegEvent) : Loop :=
  -- a registration never replaces a name
  if (reg.pid, reg.hostFun) ∈ l.kernelNames then l
  else
    match env.readKernelName reg.pid reg.namePtr with
    | some name => { l with kernelNames := l.kernelNames.insert (reg.pid, reg.hostFun) name }
    | none => l

theorem registerKernel_frame (env : LoopEnv) (l : Loop) (reg : KernelRegEvent) :
    registerKernel env l reg =
      { l with kernelNames := (registerKernel env l reg).kernelNames } := by
  unfold registerKernel
  split
  · rfl
  · split <;> rfl

/-- Series of processes whose pod changed are dropped before a batch. -/
def invalidateChanged (l : Loop) (env : LoopEnv) : Loop :=
  if env.changedPids.isEmpty then l
  else
    let (metrics, cache) := l.cache.invalidatePids env.changedPids l.metrics
    { l with metrics, cache }

/-- The test for changed processes is a shortcut: without any, nothing is dropped. -/
theorem invalidateChanged_eq (l : Loop) (env : LoopEnv) :
    l.invalidateChanged env =
      { l with
        metrics := (l.cache.invalidatePids env.changedPids l.metrics).1
        cache := (l.cache.invalidatePids env.changedPids l.metrics).2 } := by
  unfold invalidateChanged
  split
  next hempty =>
    rw [List.isEmpty_iff.mp hempty]
    simp [Cache.invalidatePids]
  · rfl

/-- The ring buffer arm. Both rings share the budget, events first; registrations are only
    read in full kernel mode. -/
def consume (args : Args) (env : LoopEnv) (s : Bpf n × Loop) : Bpf n × Loop :=
  let l := s.2.invalidateChanged env
  let (batch, events) := s.1.events.consume ringbufConsumeBudget
  let l := batch.foldl (consumeEvent args env) l
  if args.kernelMode = .full then
    -- registrations get what the events left of the budget
    let (regs, kernelRegs) := s.1.kernelRegs.consume (ringbufConsumeBudget - batch.length)
    ({ s.1 with events, kernelRegs }, regs.foldl (registerKernel env) l)
  else ({ s.1 with events }, l)

end Loop

/-! ## Aggregate tick -/

/-- `buckets[i] += u64::from(c)` over all CPUs. -/
def sumBuckets {N : ℕ} (rows : List (Fin N → U32)) : List ℕ :=
  List.ofFn fun i => (rows.map fun row => (row i).toNat).sum

/-- The synthetic event of an aggregate: only the fields the cache reads. -/
def syntheticEvent (eventType : EventType) (pid memcpyKind : U32) (addr stream : U64)
    (errorCode : U32) : CudaEvent where
  eventType
  pid
  tid := 0
  memcpyKind
  timestampNs := 0
  durationNs := 0
  size := 0
  addr
  stream
  nvtxMarker := List.replicate 16 0
  comm := List.replicate 16 0
  errorCode

/-- The cache key of an `AGGREGATED` or `NCCL_AGG` key. -/
def AggKey.metricKey (key : AggKey) : MetricKey where
  eventType := key.eventType
  pid := key.pid
  memcpyKind := key.memcpyKind
  errorCode := key.errorCode
  stream := key.stream
  addr := 0
  nvtxKey := 0

/-- The cache key of a `LAUNCH_AGG` key: there is no return code to put in it. -/
def LaunchKey.metricKey (key : LaunchKey) : MetricKey where
  eventType := .cudaLaunchKernel
  pid := key.pid
  memcpyKind := 0
  errorCode := 0
  stream := key.stream
  addr := key.hostFun
  nvtxKey := 0

/-- `active_mem_delta`, by process. -/
abbrev MemDelta := FinMap U32 I64

/-- The signed contribution of a drained size to the active memory of its process. -/
def memSign (eventType : EventType) (size : U64) : I64 :=
  match eventType with
  | .cudaMalloc | .cudaMallocAsync => size
  | .cudaFree | .cudaFreeAsync => -size
  | _ => 0

/-- The `active_mem_delta` update for one drained key. -/
def MemDelta.add (delta : MemDelta) (key : AggKey) (totalSize : U64) : MemDelta :=
  if totalSize > 0 then
    match key.eventType with
    | .cudaMalloc | .cudaMallocAsync | .cudaFree | .cudaFreeAsync =>
      delta.insert key.pid ((delta.lookup key.pid).getD 0 + memSign key.eventType totalSize)
    | _ => delta
  else delta

/-- An update of the deltas enters the process of its key, if any. -/
theorem MemDelta.mem_of_mem_add {delta : MemDelta} {key : AggKey} {totalSize : U64} {p : U32}
    (h : p ∈ delta.add key totalSize) : p ∈ delta ∨ p = key.pid := by
  unfold MemDelta.add at h
  split at h
  · split at h
    all_goals first | exact .inl h | exact ((AList.mem_insert _).mp h).symm
  · exact .inl h

namespace Loop

/-- The counters one drained `AGGREGATED` key increments. -/
def countAggregated (m : Metrics) (h : CachedHandles) (totalCount : ℕ)
    (totalDuration totalSize : U64) (buckets : List ℕ) : Metrics :=
  let m := m.incBy h.calls totalCount
  let m := incCumulativeBucketCounters m .cudaDurationBucketTotal h.labels.histLabels
    cudaDurationBucketLe buckets
  let m := m.incLabels .cudaDurationSumSecondsTotal h.labels.histLabels totalDuration.toNat
  let m := m.incLabels .cudaDurationCountTotal h.labels.histLabels totalCount
  let m := m.incByOpt h.kernelCounter totalCount
  let m := m.incByPos h.memcpyBytes totalSize
  let m := m.incByPos h.mallocBytes totalSize
  m.incByOpt h.errorsCounter totalCount

/-- The `AGGREGATED` closure. -/
def processAggregated (args : Args) (env : LoopEnv) (s : Loop × MemDelta) (key : AggKey)
    (perCpu : List AggValue) : Loop × MemDelta :=
  let totalCount := (perCpu.map (·.count)).sum
  let totalDuration := (perCpu.map (·.durationSumNs)).sum
  let totalSize := (perCpu.map (·.sizeSum)).sum
  let buckets := sumBuckets (perCpu.map (·.bucketCounts))
  -- a row nobody counted in makes no handle
  if totalCount = 0 then s
  else
    let synthetic :=
      syntheticEvent key.eventType key.pid key.memcpyKind 0 key.stream key.errorCode
    let (h, l) := s.1.getHandle args env key.metricKey synthetic
    let metrics := countAggregated l.metrics h totalCount totalDuration totalSize buckets
    ({ l with metrics }.touchPid env key.pid, s.2.add key totalSize)

/-- The counters one drained `LAUNCH_AGG` key increments. The kernel duration series only
    exist in full mode, where every launch handle has their labels. -/
def countLaunch (m : Metrics) (h : CachedHandles) (count : ℕ) (totalDur : U64)
    (buckets : List ℕ) : Metrics :=
  let m := m.incBy h.calls count
  let m := m.incByOpt h.kernelCounter count
  match h.labels.kernelHistLabels, m.kernelMode with
  | some labels, .full =>
    let m := incCumulativeBucketCounters m .cudaKernelDurationBucketTotal labels
      cudaKernelDurationBucketLe buckets
    let m := m.incLabels .cudaKernelDurationSumSecondsTotal labels totalDur.toNat
    m.incLabels .cudaKernelDurationCountTotal labels count
  | _, _ => m

/-- The `LAUNCH_AGG` closure. -/
def processLaunch (args : Args) (env : LoopEnv) (l : Loop) (key : LaunchKey)
    (perCpu : List LaunchAggValue) : Loop :=
  let count := (perCpu.map (·.count)).sum
  let totalDur := (perCpu.map (·.totalDurationNs)).sum
  let buckets := sumBuckets (perCpu.map (·.bucketCounts))
  if count = 0 then l
  else
    let synthetic := syntheticEvent .cudaLaunchKernel key.pid 0 key.hostFun key.stream 0
    let (h, l) := l.getHandle args env key.metricKey synthetic
    { l with metrics := countLaunch l.metrics h count totalDur buckets }.touchPid env key.pid

/-- The counters one drained `NCCL_AGG` key increments. -/
def countNccl (m : Metrics) (h : CachedHandles) (count : ℕ) (durSum bytesSum : U64)
    (buckets : List ℕ) : Metrics :=
  let m := m.incBy h.calls count
  let m := m.incByPos h.ncclBytes bytesSum
  let m := m.incByOpt h.errorsCounter count
  let m := incCumulativeBucketCounters m .ncclDurationBucketTotal h.labels.histLabels
    ncclDurationBucketLe buckets
  let m := m.incLabels .ncclDurationSumSecondsTotal h.labels.histLabels durSum.toNat
  m.incLabels .ncclDurationCountTotal h.labels.histLabels count

/-- The `NCCL_AGG` closure. -/
def processNccl (args : Args) (env : LoopEnv) (l : Loop) (key : AggKey)
    (perCpu : List NcclAggValue) : Loop :=
  let count := (perCpu.map (·.count)).sum
  let durSum := (perCpu.map (·.durationSumNs)).sum
  let bytesSum := (perCpu.map (·.bytesSum)).sum
  let buckets := sumBuckets (perCpu.map (·.bucketCounts))
  if count = 0 then l
  else
    let synthetic :=
      syntheticEvent key.eventType key.pid key.memcpyKind 0 key.stream key.errorCode
    let (h, l) := l.getHandle args env key.metricKey synthetic
    { l with metrics := countNccl l.metrics h count durSum bytesSum buckets }.touchPid env key.pid

/-- The labels of the active memory gauge; the `comm` label stays empty. -/
def gaugeLabels (env : LoopEnv) (pid : U32) : List String :=
  let labels := env.cacheEnv.lookup pid ""
  [decString pid, labels.comm, labels.namespace_, labels.pod, labels.container, labels.gpu,
    labels.gpuUuid]

/-- One process of the active memory update at the end of a tick. -/
def addActiveMemory (env : LoopEnv) (l : Loop) (pid : U32) (delta : I64) : Loop :=
  let bytes := (l.activeMemory.lookup pid).getD 0 + delta
  { l with
    activeMemory := l.activeMemory.insert pid bytes
    metrics := l.metrics.setActiveMemory (gaugeLabels env pid) bytes }

/-- The active memory update at the end of a tick. -/
def flushActiveMemory (env : LoopEnv) (l : Loop) (delta : MemDelta) : Loop :=
  delta.entries.foldl (fun l e => l.addActiveMemory env e.1 e.2) l

/-- Insert into `UPGRADED_PIDS`; a full map refuses. -/
def insertUpgraded (upgraded : FinMap U32 U8) (pid : U32) : FinMap U32 U8 :=
  if pid ∈ upgraded ∨ upgraded.size < upgradedPidsMaxEntries then upgraded.insert pid 1
  else upgraded

/-- The `UPGRADED_PIDS` synchronisation of a tick that found the set dirty. -/
def syncUpgradedPids (s : Bpf n × Loop) (desired : List U32) : Bpf n × Loop :=
  -- an empty record is not trusted: the map itself is listed instead
  let synced :=
    if s.2.upgradedPidsSynced.isEmpty then s.1.upgradedPids.keys else s.2.upgradedPidsSynced
  let kept := (synced.filter (· ∉ desired)).foldl (fun m pid => m.erase pid) s.1.upgradedPids
  let upgradedPids := (desired.filter (· ∉ synced)).foldl insertUpgraded kept
  ({ s.1 with upgradedPids }, { s.2 with upgradedPidsSynced := desired })

/-- The three drains of a tick. `LAUNCH_AGG` is left alone with detailed tracing. -/
def drainMaps (args : Args) (env : LoopEnv) (s : Bpf n × Loop) : Bpf n × Loop × MemDelta :=
  let ((l, delta), aggregated) :=
    drainPercpuHash env.aggOrder (processAggregated args env) (s.2, ∅) s.1.aggregated
  let (l, launchAgg) :=
    if args.detailedLaunches then (l, s.1.launchAgg)
    else drainPercpuHash env.launchOrder (processLaunch args env) l s.1.launchAgg
  let (l, ncclAgg) := drainPercpuHash env.ncclOrder (processNccl args env) l s.1.ncclAgg
  ({ s.1 with aggregated, launchAgg, ncclAgg }, l, delta)

/-- The aggregate tick arm. -/
def aggTick (args : Args) (env : LoopEnv) (s : Bpf n × Loop) : Bpf n × Loop :=
  let s :=
    match env.upgradedPids with
    | some desired => syncUpgradedPids s desired
    | none => s
  let (b, l, delta) := drainMaps args env s
  (b, l.flushActiveMemory env delta)

/-! ## gc tick -/

/-- The gc arm: stale processes lose their handles, kernel names and active memory. -/
def gcTick (args : Args) (env : LoopEnv) (l : Loop) : Loop :=
  let (stale, metrics, cache) := l.cache.gc l.metrics env.now (args.gcInterval * 1000000000)
  -- the gauge of a stale process is not removed here
  let kernelNames :=
    (l.kernelNames.keys.filter fun k => k.1 ∈ stale).foldl (fun m k => m.erase k) l.kernelNames
  let activeMemory := stale.foldl (fun m pid => m.erase pid) l.activeMemory
  { l with metrics, cache, kernelNames, activeMemory }

end Loop

end Profi
