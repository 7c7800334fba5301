import Profi.Metrics
import Profi.Lib.Runs

/-!
# The Metric Handle Cache

`src/cache.rs`: the cache of metric handles in front of the registry, keyed by what an
event is about. A miss resolves the label values, asks the registry for every child the
event type needs and keeps the references.

The label lists of a handle (`handleLabels`) are computed before the children are created
(`createHandles`), so that what a handle is labelled with can be read off one function.
-/

namespace Profi

/-! ## Keys, labels, environment -/

/-- `MetricKey`. -/
structure MetricKey where
  eventType : EventType
  pid : U32
  memcpyKind : U32
  errorCode : U32
  stream : U64
  addr : U64
  nvtxKey : U64
  deriving DecidableEq

structure CardinalityLimits where
  maxTimeSeries : ℕ := 50000
  maxStreamsPerPid : ℕ := 32
  maxKernelsPerPid : ℕ := 512

def Args.limits (args : Args) : CardinalityLimits where
  maxTimeSeries := args.maxTimeSeries
  maxStreamsPerPid := args.maxStreamsPerPid
  maxKernelsPerPid := args.maxKernelsPerPid

structure PodInfo where
  namespace_ : String
  pod : String
  container : String

structure GpuDevice where
  index : U32
  uuid : String

/-- The labels the enricher adds for a process. -/
structure Labels where
  comm : String
  namespace_ : String
  pod : String
  container : String
  gpu : String
  gpuUuid : String
  deriving DecidableEq

/-- What the cache reads from outside: the enricher's answers, `/proc/<pid>/comm` with
    trailing blanks cut, and the order in which the handle table is enumerated. -/
structure CacheEnv where
  resolveK8s : U32 → Option PodInfo
  resolveGpu : U32 → Option GpuDevice
  procComm : U32 → Option String
  handleOrder : KeyOrder MetricKey

namespace CacheEnv

/-- `Enricher::lookup`. -/
def lookup (env : CacheEnv) (pid : U32) (comm : String) : Labels where
  comm
  namespace_ := ((env.resolveK8s pid).map (·.namespace_)).getD ""
  pod := ((env.resolveK8s pid).map (·.pod)).getD ""
  container := ((env.resolveK8s pid).map (·.container)).getD ""
  gpu := ((env.resolveGpu pid).map fun g => decString g.index).getD ""
  gpuUuid := ((env.resolveGpu pid).map (·.uuid)).getD ""

/-- The bytes of a zero terminated array, read as UTF-8. -/
def cStr (bytes : List U8) : Option String :=
  String.fromUTF8? ⟨((bytes.takeWhile (· != 0)).map UInt8.ofBitVec).toArray⟩

/-- The `comm` of an event: its own, or the one in `/proc` when that is empty. -/
def commStr (env : CacheEnv) (event : CudaEvent) : String :=
  let commStr := (cStr event.comm).getD "unknown"
  -- an invalid name is "unknown" and no longer empty: `/proc` is not asked then
  if commStr.isEmpty then (env.procComm event.pid).getD "unknown" else commStr

end CacheEnv

/-- Names of kernels, by process and function address. -/
abbrev KernelNames := FinMap (U32 × U64) String

/-! ## Handles -/

/-- The label values of the children a handle holds. -/
structure HandleLabels where
  callsLabels : List String
  histLabels : List String
  memcpyLabels : Option (List String)
  mallocLabels : Option (List String)
  ncclBytesLabels : Option (List String)
  kernelCounterLabels : Option (List String)
  kernelHistLabels : Option (List String)
  errorsLabels : Option (List String)

/-- `CachedHandles`. -/
structure CachedHandles where
  calls : CounterRef
  duration : HistogramRef
  memcpyBytes : Option CounterRef
  mallocBytes : Option CounterRef
  ncclBytes : Option CounterRef
  kernelCounter : Option CounterRef
  kernelHistogram : Option HistogramRef
  errorsCounter : Option CounterRef
  labels : HandleLabels

/-- The `kernel` label of a launch. -/
def kernelName (kernelNames : KernelNames) (pid : U32) (addr : U64) : String :=
  if addr ≠ 0 then (kernelNames.lookup (pid, addr)).getD ("unknown_0x" ++ hexString addr)
  else "aggregated"

/-- The label lists `get_or_create` builds for a key seen first with this event. -/
def handleLabels (kernelMode : KernelMode) (env : CacheEnv) (kernelNames : KernelNames)
    (key : MetricKey) (event : CudaEvent) : HandleLabels :=
  let labels := env.lookup event.pid (env.commStr event)
  let pidS := decString event.pid
  let op := operationName key.eventType
  let streamS := streamLabel key.stream
  let enriched :=
    [pidS, labels.comm, labels.namespace_, labels.pod, labels.container, labels.gpu,
      labels.gpuUuid]
  -- no pid among these: processes of one pod and GPU share the duration series
  let histLabels := [op, labels.namespace_, labels.pod, labels.gpu]
  let errorsLabels :=
    if key.errorCode ≠ 0 then some (op :: enriched ++ [decString key.errorCode]) else none
  if profiIsNcclEvent key.eventType then
    { callsLabels := op :: enriched
      histLabels
      memcpyLabels := none
      mallocLabels := none
      ncclBytesLabels := some (op :: enriched)
      kernelCounterLabels := none
      kernelHistLabels := none
      errorsLabels }
  else
    let isMemcpy := key.eventType = .cudaMemcpy ∨ key.eventType = .cudaMemcpyAsync ∨
      key.eventType = .cudaMemset ∨ key.eventType = .cudaMemsetAsync
    -- `cudaMallocAsync` has no bytes series
    let isMalloc := key.eventType = .cudaMalloc ∨ key.eventType = .cudaMallocHost
    let name := kernelName kernelNames event.pid key.addr
    let kernelClass := classifyKernel name
    let phase := sanitizePhase ((CacheEnv.cStr event.nvtxMarker).getD "")
    { callsLabels := op :: enriched ++ [streamS]
      histLabels
      memcpyLabels :=
        if isMemcpy then some (memcpyDirection key.memcpyKind :: enriched ++ [streamS]) else none
      mallocLabels := if isMalloc then some enriched else none
      ncclBytesLabels := none
      kernelCounterLabels :=
        if key.eventType = .cudaLaunchKernel then
          some (name :: enriched ++ [kernelClass, phase])
        else none
      kernelHistLabels :=
        if key.eventType = .cudaLaunchKernel ∧ kernelMode = .full then
          some [name, labels.namespace_, labels.pod, labels.gpu, kernelClass, phase]
        else none
      errorsLabels }

namespace Metrics

/-- `with_label_values` for the families only some event types have. -/
def counterOpt (m : Metrics) (family : CounterFamily) :
    Option (List String) → Option CounterRef × Metrics
  | some labels => let (c, m) := m.counter family labels; (some c, m)
  | none => (none, m)

def histogramOpt (m : Metrics) (family : HistogramFamily) :
    Option (List String) → Option HistogramRef × Metrics
  | some labels => let (h, m) := m.histogram family labels; (some h, m)
  | none => (none, m)

end Metrics

/-- The `calls` family of an event type. -/
def callsFamily (eventType : EventType) : CounterFamily :=
  if profiIsNcclEvent eventType then .ncclCalls else .cudaCalls

/-- The `duration` family of an event type. -/
def durationFamily (eventType : EventType) : HistogramFamily :=
  if profiIsNcclEvent eventType then .ncclDuration else .cudaDuration

/-- Ask the registry for the children of a handle. -/
def createHandles (m : Metrics) (eventType : EventType) (l : HandleLabels) :
    CachedHandles × Metrics :=
  let (calls, m) := m.counter (callsFamily eventType) l.callsLabels
  let (duration, m) := m.histogram (durationFamily eventType) l.histLabels
  let (ncclBytes, m) := m.counterOpt .ncclBytes l.ncclBytesLabels
  let (memcpyBytes, m) := m.counterOpt .cudaMemcpyBytes l.memcpyLabels
  let (mallocBytes, m) := m.counterOpt .cudaMallocBytes l.mallocLabels
  let (kernelCounter, m) := m.counterOpt .cudaKernelLaunches l.kernelCounterLabels
  let (kernelHistogram, m) := m.histogramOpt .cudaKernelDuration l.kernelHistLabels
  let (errorsCounter, m) := m.counterOpt .cudaErrors l.errorsLabels
  let h : CachedHandles :=
    { calls, duration, memcpyBytes, mallocBytes, ncclBytes, kernelCounter, kernelHistogram,
      errorsCounter, labels := l }
  (h, m)

/-! ## The cache -/

/-- `MetricHandleCache`; instants are nanoseconds. -/
structure Cache where
  handles : FinMap MetricKey CachedHandles
  lastSeen : FinMap U32 ℕ
  streamsPerPid : FinMap U32 (List U64)
  kernelsPerPid : FinMap U32 (List U64)

namespace Cache

def new : Cache := ⟨∅, ∅, ∅, ∅⟩

/-- The per-process collapsing rule: a known value stays, a new one is admitted while there
    is room, everything else becomes zero. -/
def collapse (perPid : FinMap U32 (List U64)) (limit : ℕ) (pid : U32) (x : U64) :
    U64 × FinMap U32 (List U64) :=
  let known := (perPid.lookup pid).getD []
  if x ∈ known then (x, perPid.insert pid known)
  else if known.length < limit then (x, perPid.insert pid (known ++ [x]))
  else (0, perPid.insert pid known)

/-- The stream of a key, collapsed to the default stream beyond the per-process limit. -/
def collapseStream (cache : Cache) (limits : CardinalityLimits) (pid : U32) (stream : U64) :
    U64 × Cache :=
  if stream ≠ 0 then
    let (stream, streamsPerPid) := collapse cache.streamsPerPid limits.maxStreamsPerPid pid stream
    (stream, { cache with streamsPerPid })
  else (stream, cache)

/-- The kernel of a launch key, collapsed beyond the per-process limit. -/
def collapseKernel (cache : Cache) (limits : CardinalityLimits) (eventType : EventType) (pid : U32)
    (addr : U64) : U64 × Cache :=
  if addr ≠ 0 ∧ eventType = .cudaLaunchKernel then
    let (addr, kernelsPerPid) := collapse cache.kernelsPerPid limits.maxKernelsPerPid pid addr
    (addr, { cache with kernelsPerPid })
  else (addr, cache)

/-- The key after both collapsing rules. -/
def collapseKey (cache : Cache) (limits : CardinalityLimits) (key : MetricKey) :
    MetricKey × Cache :=
  let (stream, cache) := cache.collapseStream limits key.pid key.stream
  let (addr, cache) := cache.collapseKernel limits key.eventType key.pid key.addr
  ({ key with stream, addr }, cache)

/-- Create the handle of a key that is not in the cache. -/
def createHandle (cache : Cache) (m : Metrics) (env : CacheEnv) (kernelNames : KernelNames)
    (key : MetricKey) (event : CudaEvent) : CachedHandles × Metrics × Cache :=
  let (h, m) :=
    createHandles m key.eventType (handleLabels m.kernelMode env kernelNames key event)
  (h, m, { cache with handles := cache.handles.insert key h })

/-- `get_or_create`. At the global limit any handle of the same process is handed out; only
    a process without handles still gets a new one. -/
def getOrCreate (cache : Cache) (key : MetricKey) (m : Metrics) (env : CacheEnv)
    (event : CudaEvent) (kernelNames : KernelNames) (limits : CardinalityLimits) :
    CachedHandles × Metrics × Cache :=
  let (key, cache) := cache.collapseKey limits key
  match cache.handles.lookup key with
  | some h => (h, m, cache)
  | none =>
    if cache.handles.size ≥ limits.maxTimeSeries then
      -- counted even if the handle is created after all
      let m := { m with cardinalityDrops := m.cardinalityDrops + 1 }
      match (env.handleOrder.order cache.handles.keys).find? (·.pid = key.pid) with
      | some fallbackKey =>
        match cache.handles.lookup fallbackKey with
        | some h => (h, m, cache)
        | none => cache.createHandle m env kernelNames key event
      | none => cache.createHandle m env kernelNames key event
    else cache.createHandle m env kernelNames key event

/-- `touch`. -/
def touch (cache : Cache) (now : ℕ) (pid : U32) : Cache :=
  { cache with lastSeen := cache.lastSeen.insert pid now }

end Cache

/-! ## Removal -/

/-- `remove_bucket_counter_values`. -/
def removeBucketCounterValues (m : Metrics) (family : CounterFamily) (baseLabels : List String)
    (leValues : List String) : Metrics :=
  leValues.foldl (fun m le => m.removeCounter family (baseLabels ++ [le])) m

/-- `if let Some(ml) = labels { remove_label_values(ml) }`. -/
def removeCounterOpt (m : Metrics) (family : CounterFamily) : Option (List String) → Metrics
  | some labels => m.removeCounter family labels
  | none => m

/-- The calls and duration series of a handle. -/
def removeCallsMetrics (m : Metrics) (eventType : EventType) (l : HandleLabels) : Metrics :=
  if profiIsNcclEvent eventType then
    let m := m.removeCounter .ncclCalls l.callsLabels
    let m := m.removeHistogram .ncclDuration l.histLabels
    let m := removeBucketCounterValues m .ncclDurationBucketTotal l.histLabels ncclDurationBucketLe
    let m := m.removeCounter .ncclDurationSumSecondsTotal l.histLabels
    m.removeCounter .ncclDurationCountTotal l.histLabels
  else
    let m := m.removeCounter .cudaCalls l.callsLabels
    let m := m.removeHistogram .cudaDuration l.histLabels
    let m := removeBucketCounterValues m .cudaDurationBucketTotal l.histLabels cudaDurationBucketLe
    let m := m.removeCounter .cudaDurationSumSecondsTotal l.histLabels
    m.removeCounter .cudaDurationCountTotal l.histLabels

/-- The kernel duration series of a handle; the families only exist in full mode. -/
def removeKernelHistMetrics (m : Metrics) : Option (List String) → Metrics
  | none => m
  | some labels =>
    if m.kernelMode = .full then
      let m := m.removeHistogram .cudaKernelDuration labels
      let m := removeBucketCounterValues m .cudaKernelDurationBucketTotal labels
        cudaKernelDurationBucketLe
      let m := m.removeCounter .cudaKernelDurationSumSecondsTotal labels
      m.removeCounter .cudaKernelDurationCountTotal labels
    else m

/-- `remove_handle_metrics`. -/
def removeHandleMetrics (m : Metrics) (eventType : EventType) (h : CachedHandles) : Metrics :=
  let m := removeCallsMetrics m eventType h.labels
  let m := removeCounterOpt m .cudaMemcpyBytes h.labels.memcpyLabels
  let m := removeCounterOpt m .cudaMallocBytes h.labels.mallocLabels
  let m := removeCounterOpt m .ncclBytes h.labels.ncclBytesLabels
  let m := removeCounterOpt m .cudaKernelLaunches h.labels.kernelCounterLabels
  let m := removeKernelHistMetrics m h.labels.kernelHistLabels
  removeCounterOpt m .cudaErrors h.labels.errorsLabels

namespace Cache

/-- Remove one key and the series of its handle. -/
def removeKey (s : Metrics × Cache) (key : MetricKey) : Metrics × Cache :=
  match s.2.handles.lookup key with
  | some h =>
    (removeHandleMetrics s.1 key.eventType h,
      { s.2 with handles := s.2.handles.erase key })
  | none => s

/-- `invalidate_pids`. -/
def invalidatePids (cache : Cache) (pids : List U32) (m : Metrics) : Metrics × Cache :=
  let keysToRemove := cache.handles.keys.filter fun key => key.pid ∈ pids
  keysToRemove.foldl removeKey (m, cache)

/-- The processes `gc` evicts. -/
def stalePids (cache : Cache) (now staleAfter : ℕ) : List U32 :=
  (cache.lastSeen.entries.filter fun e => now - e.2 > staleAfter).map (·.1)

/-- The body of the `gc` loop for one stale process. -/
def evictPid (s : Metrics × Cache) (pid : U32) : Metrics × Cache :=
  let (m, cache) := s.2.invalidatePids [pid] s.1
  (m,
    { cache with
      lastSeen := cache.lastSeen.erase pid
      streamsPerPid := cache.streamsPerPid.erase pid
      kernelsPerPid := cache.kernelsPerPid.erase pid })

/-- `gc`. -/
def gc (cache : Cache) (m : Metrics) (now staleAfter : ℕ) : List U32 × Metrics × Cache :=
  let stale := cache.stalePids now staleAfter
  let (m, cache) := stale.foldl evictPid (m, cache)
  if stale.isEmpty then (stale, m, cache)
  else (stale, { m with trackedPids := cache.lastSeen.size }, cache)

/-- `gc` evicts the stale processes one after the other and sets a gauge. -/
theorem gc_frame (cache : Cache) (m : Metrics) (now staleAfter : ℕ) :
    cache.gc m now staleAfter =
      (cache.stalePids now staleAfter,
        { ((cache.stalePids now staleAfter).foldl evictPid (m, cache)).1 with
          trackedPids := (cache.gc m now staleAfter).2.1.trackedPids },
        ((cache.stalePids now staleAfter).foldl evictPid (m, cache)).2) := by
  unfold gc
  simp only
  split <;> rfl

/-- The processes `gc` reports are the ones it evicts. -/
@[simp] theorem gc_stalePids (cache : Cache) (m : Metrics) (now staleAfter : ℕ) :
    (cache.gc m now staleAfter).1 = cache.stalePids now staleAfter := by
  rw [gc_frame]

end Cache

/-! ## The series of a handle -/

/-- The tuples recorded in a handle, in the families that are only reached through handles. -/
def ownedSeries (eventType : EventType) (l : HandleLabels) : List (CounterFamily × List String) :=
  [(callsFamily eventType, some l.callsLabels), (.cudaMemcpyBytes, l.memcpyLabels),
    (.cudaMallocBytes, l.mallocLabels), (.ncclBytes, l.ncclBytesLabels),
    (.cudaKernelLaunches, l.kernelCounterLabels), (.cudaErrors, l.errorsLabels)].filterMap
      fun x : CounterFamily × Option (List String) => x.2.map (x.1, ·)

/-- The counters that go with a duration histogram: its buckets, its sum and its count. -/
def durationCounters (bucket sum count : CounterFamily) (leValues labels : List String) :
    List (CounterFamily × List String) :=
  leValues.map (fun le => (bucket, labels ++ [le])) ++ [(sum, labels), (count, labels)]

/-- The duration counters of the operation a handle is for. -/
def durationSeries (eventType : EventType) (l : HandleLabels) :
    List (CounterFamily × List String) :=
  if profiIsNcclEvent eventType then
    durationCounters .ncclDurationBucketTotal .ncclDurationSumSecondsTotal .ncclDurationCountTotal
      ncclDurationBucketLe l.histLabels
  else
    durationCounters .cudaDurationBucketTotal .cudaDurationSumSecondsTotal .cudaDurationCountTotal
      cudaDurationBucketLe l.histLabels

/-- The duration counters of the kernel a handle is for; they only exist in full mode. -/
def kernelSeries (kernelMode : KernelMode) (l : HandleLabels) :
    List (CounterFamily × List String) :=
  if kernelMode = .full then
    l.kernelHistLabels.toList.flatMap
      (durationCounters .cudaKernelDurationBucketTotal .cudaKernelDurationSumSecondsTotal
        .cudaKernelDurationCountTotal cudaKernelDurationBucketLe)
  else []

/-- All counters a handle takes with it. -/
def counterSeries (kernelMode : KernelMode) (eventType : EventType) (l : HandleLabels) :
    List (CounterFamily × List String) :=
  ownedSeries eventType l ++ durationSeries eventType l ++ kernelSeries kernelMode l

/-- The histogram tuples recorded in a handle. -/
def recordedHistograms (eventType : EventType) (l : HandleLabels) :
    List (HistogramFamily × List String) :=
  (durationFamily eventType, l.histLabels) ::
    l.kernelHistLabels.toList.map (.cudaKernelDuration, ·)

/-- The histograms a handle takes with it: the kernel histogram only in full mode. -/
def histogramSeries (kernelMode : KernelMode) (eventType : EventType) (l : HandleLabels) :
    List (HistogramFamily × List String) :=
  (durationFamily eventType, l.histLabels) ::
    if kernelMode = .full then l.kernelHistLabels.toList.map (.cudaKernelDuration, ·) else []

/-- A series of the registry. -/
abbrev Series := (CounterFamily × List String) ⊕ (HistogramFamily × List String)

/-- The series of optional labels. -/
def optSeries (family : CounterFamily) (labels : Option (List String)) : List Series :=
  labels.toList.map fun labels => .inl (family, labels)

def callsRemoved (eventType : EventType) (l : HandleLabels) : List Series :=
  .inl (callsFamily eventType, l.callsLabels) :: .inr (durationFamily eventType, l.histLabels) ::
    (durationSeries eventType l).map .inl

def kernelRemoved (kernelMode : KernelMode) (l : HandleLabels) : List Series :=
  (if kernelMode = .full then
    l.kernelHistLabels.toList.map fun labels => .inr (.cudaKernelDuration, labels) else []) ++
    (kernelSeries kernelMode l).map .inl

/-- The series of a handle, in the order in which they are removed. -/
def removedSeries (kernelMode : KernelMode) (eventType : EventType) (l : HandleLabels) :
    List Series :=
  callsRemoved eventType l ++ optSeries .cudaMemcpyBytes l.memcpyLabels ++
    optSeries .cudaMallocBytes l.mallocLabels ++ optSeries .ncclBytes l.ncclBytesLabels ++
    optSeries .cudaKernelLaunches l.kernelCounterLabels ++ kernelRemoved kernelMode l ++
    optSeries .cudaErrors l.errorsLabels

/-- One series is taken out. -/
def Metrics.remove (m : Metrics) : Series → Metrics
  | .inl (family, labels) => m.removeCounter family labels
  | .inr (family, labels) => m.removeHistogram family labels

/-- Removing a handle is removing its series one after the other. -/
theorem removeHandleMetrics_eq (m : Metrics) (eventType : EventType) (h : CachedHandles) :
    removeHandleMetrics m eventType h =
      (removedSeries m.kernelMode eventType h.labels).foldl Metrics.remove m := by
  have hopt : ∀ m family labels,
      removeCounterOpt m family labels = (optSeries family labels).foldl Metrics.remove m := by
    intro m family labels
    cases labels <;> rfl
  have hcalls : removeCallsMetrics m eventType h.labels =
      (callsRemoved eventType h.labels).foldl Metrics.remove m := by
    unfold removeCallsMetrics callsRemoved callsFamily durationFamily durationSeries
    split <;> rfl
  have hkernel : ∀ m : Metrics, removeKernelHistMetrics m h.labels.kernelHistLabels =
      (kernelRemoved m.kernelMode h.labels).foldl Metrics.remove m := by
    intro m
    unfold kernelRemoved kernelSeries
    cases h.labels.kernelHistLabels with
    | none => by_cases hfull : m.kernelMode = .full <;> simp [removeKernelHistMetrics, hfull]
    | some labels =>
      simp only [removeKernelHistMetrics]
      split <;> rfl
  -- the kernel mode is a constant of the registry
  have hmode : ∀ xs : List Series, (xs.foldl Metrics.remove m).kernelMode = m.kernelMode :=
    fun xs => Runs.foldl_frame Metrics.kernelMode Metrics.remove (by rintro m (_ | _) <;> rfl) xs m
  simp only [removeHandleMetrics, removedSeries, hopt, hcalls, hkernel, ← List.foldl_append, hmode,
    List.append_assoc]

/-! ## Operations that count nothing -/

namespace Metrics

theorem silent_counterOpt (m : Metrics) (family : CounterFamily) (labels : Option (List String)) :
    Silent m (m.counterOpt family labels).2 := by
  cases labels with
  | none => exact .refl m
  | some labels => exact silent_counter m family labels

theorem silent_histogramOpt (m : Metrics) (family : HistogramFamily)
    (labels : Option (List String)) : Silent m (m.histogramOpt family labels).2 := by
  cases labels with
  | none => exact .refl m
  | some labels => exact silent_histogram m family labels

end Metrics

namespace Quiet

variable {a m : Metrics}

theorem removeCounter (h : Quiet a m) (family : CounterFamily) (labels : List String) :
    Quiet a (m.removeCounter family labels) := by
  refine h.trans ⟨m.extends_removeCounter family labels, ?_, le_rfl, rfl⟩
  intro f p
  exact m.total_removeCounter f p family labels

theorem removeHistogram (h : Quiet a m) (family : HistogramFamily) (labels : List String) :
    Quiet a (m.removeHistogram family labels) :=
  h.trans ⟨.refl m, fun _ _ => rfl, le_rfl, rfl⟩

theorem foldl_remove (xs : List Series) (m : Metrics) : Quiet m (xs.foldl Metrics.remove m) := by
  refine Runs.run_invariant_of_step (I := Quiet m) ?_ (refl m) xs
  rintro m' (⟨family, labels⟩ | ⟨family, labels⟩) h
  · exact h.removeCounter family labels
  · exact h.removeHistogram family labels

end Quiet

/-! ## What a cached handle refers to -/

/-- The handle of a key refers to children of the right families, and its labels were made
    for this key and process by an environment satisfying `E`. -/
structure HandleOk (E : CacheEnv → Prop) (m : Metrics) (key : MetricKey) (h : CachedHandles) :
    Prop where
  calls : m.RefOk h.calls (callsFamily key.eventType) h.labels.callsLabels
  ncclBytes : OptRefOk m h.ncclBytes .ncclBytes h.labels.ncclBytesLabels
  memcpyBytes : OptRefOk m h.memcpyBytes .cudaMemcpyBytes h.labels.memcpyLabels
  mallocBytes : OptRefOk m h.mallocBytes .cudaMallocBytes h.labels.mallocLabels
  kernelCounter : OptRefOk m h.kernelCounter .cudaKernelLaunches h.labels.kernelCounterLabels
  errorsCounter : OptRefOk m h.errorsCounter .cudaErrors h.labels.errorsLabels
  labels : ∃ mode env kernelNames event, E env ∧ event.pid = key.pid ∧
    h.labels = handleLabels mode env kernelNames key event

/-- Every cached handle is right for its key. -/
def CacheOk (E : CacheEnv → Prop) (m : Metrics) (cache : Cache) : Prop :=
  ∀ key h, cache.handles.lookup key = some h → HandleOk E m key h

variable {E : CacheEnv → Prop} {m m' : Metrics} {key : MetricKey} {h : CachedHandles}
  {cache : Cache}

theorem HandleOk.mono (hh : HandleOk E m key h) (hext : m.Extends m') :
    HandleOk E m' key h where
  calls := hh.calls.mono hext
  ncclBytes := hh.ncclBytes.mono hext
  memcpyBytes := hh.memcpyBytes.mono hext
  mallocBytes := hh.mallocBytes.mono hext
  kernelCounter := hh.kernelCounter.mono hext
  errorsCounter := hh.errorsCounter.mono hext
  labels := hh.labels

theorem CacheOk.mono (hc : CacheOk E m cache) (hext : m.Extends m') : CacheOk E m' cache :=
  fun key h hk => (hc key h hk).mono hext

theorem cacheOk_new (E : CacheEnv → Prop) (m : Metrics) : CacheOk E m Cache.new := by
  intro key h hk
  simp [Cache.new] at hk

theorem optRefOk_counterOpt (m : Metrics) (family : CounterFamily)
    (labels : Option (List String)) :
    OptRefOk (m.counterOpt family labels).2 (m.counterOpt family labels).1 family labels := by
  cases labels with
  | none => trivial
  | some labels => exact m.refOk_counter family labels

/-- Creating a handle is silent, and yields the children its labels name. -/
theorem createHandles_spec (m : Metrics) (eventType : EventType) (l : HandleLabels) :
    let r := createHandles m eventType l
    Silent m r.2 ∧ r.1.labels = l ∧
      r.2.RefOk r.1.calls (callsFamily eventType) l.callsLabels ∧
      OptRefOk r.2 r.1.ncclBytes .ncclBytes l.ncclBytesLabels ∧
      OptRefOk r.2 r.1.memcpyBytes .cudaMemcpyBytes l.memcpyLabels ∧
      OptRefOk r.2 r.1.mallocBytes .cudaMallocBytes l.mallocLabels ∧
      OptRefOk r.2 r.1.kernelCounter .cudaKernelLaunches l.kernelCounterLabels ∧
      OptRefOk r.2 r.1.errorsCounter .cudaErrors l.errorsLabels := by
  -- the registry after each of the eight requests, and how each extends the one before
  let m₁ := (m.counter (callsFamily eventType) l.callsLabels).2
  let m₂ := (m₁.histogram (durationFamily eventType) l.histLabels).2
  let m₃ := (m₂.counterOpt .ncclBytes l.ncclBytesLabels).2
  let m₄ := (m₃.counterOpt .cudaMemcpyBytes l.memcpyLabels).2
  let m₅ := (m₄.counterOpt .cudaMallocBytes l.mallocLabels).2
  let m₆ := (m₅.counterOpt .cudaKernelLaunches l.kernelCounterLabels).2
  let m₇ := (m₆.histogramOpt .cudaKernelDuration l.kernelHistLabels).2
  let m₈ := (m₇.counterOpt .cudaErrors l.errorsLabels).2
  have h₁ : Silent m m₁ := m.silent_counter _ _
  have h₂ : Silent m₁ m₂ := m₁.silent_histogram _ _
  have h₇₈ : Silent m₇ m₈ := m₇.silent_counterOpt _ _
  have h₆₈ : Silent m₆ m₈ := (m₆.silent_histogramOpt _ _).trans h₇₈
  have h₅₈ : Silent m₅ m₈ := (m₅.silent_counterOpt _ _).trans h₆₈
  have h₄₈ : Silent m₄ m₈ := (m₄.silent_counterOpt _ _).trans h₅₈
  have h₃₈ : Silent m₃ m₈ := (m₃.silent_counterOpt _ _).trans h₄₈
  have h₁₈ : Silent m₁ m₈ := (h₂.trans (m₂.silent_counterOpt _ _)).trans h₃₈
  refine ⟨h₁.trans h₁₈, rfl, ?_, ?_, ?_, ?_, ?_, ?_⟩
  · exact (m.refOk_counter _ l.callsLabels).mono h₁₈.ext
  · exact (optRefOk_counterOpt m₂ .ncclBytes _).mono h₃₈.ext
  · exact (optRefOk_counterOpt m₃ .cudaMemcpyBytes _).mono h₄₈.ext
  · exact (optRefOk_counterOpt m₄ .cudaMallocBytes _).mono h₅₈.ext
  · exact (optRefOk_counterOpt m₅ .cudaKernelLaunches _).mono h₆₈.ext
  · exact optRefOk_counterOpt m₇ .cudaErrors _

/-! ## What `get_or_create` hands out -/

/-- Two keys of calls that differ at most in stream, kernel and phase. -/
structure MetricKey.SameCall (key key' : MetricKey) : Prop where
  eventType : key'.eventType = key.eventType
  pid : key'.pid = key.pid
  memcpyKind : key'.memcpyKind = key.memcpyKind
  errorCode : key'.errorCode = key.errorCode

namespace Cache

theorem collapseKey_sameCall (cache : Cache) (limits : CardinalityLimits) (key : MetricKey) :
    key.SameCall (cache.collapseKey limits key).1 :=
  ⟨rfl, rfl, rfl, rfl⟩

/-- Collapsing only touches the per-process sets. -/
theorem collapseKey_frame (cache : Cache) (limits : CardinalityLimits) (key : MetricKey) :
    (cache.collapseKey limits key).2.handles = cache.handles ∧
      (cache.collapseKey limits key).2.lastSeen = cache.lastSeen := by
  simp only [collapseKey, collapseKernel, collapseStream]
  split <;> split <;> exact ⟨rfl, rfl⟩

/-- The handle that is handed out instead of a new one when the table is full. -/
def fallback (cache : Cache) (env : CacheEnv) (pid : U32) : Option MetricKey :=
  (env.handleOrder.order cache.handles.keys).find? (·.pid = pid)

theorem fallback_eq_none_iff {env : CacheEnv} (pid : U32) :
    cache.fallback env pid = none ↔ ∀ k ∈ cache.handles, k.pid ≠ pid := by
  unfold fallback
  rw [List.find?_eq_none]
  constructor
  · intro h k hk
    simpa using h k ((env.handleOrder.perm _).mem_iff.mpr hk)
  · intro h k hk
    simpa using h k ((env.handleOrder.perm _).mem_iff.mp hk)

theorem fallback_eq_some {env : CacheEnv} {pid : U32} {k : MetricKey}
    (h : cache.fallback env pid = some k) :
    k ∈ cache.handles ∧ k.pid = pid :=
  ⟨(env.handleOrder.perm _).mem_iff.mp (List.mem_of_find?_eq_some h), by
    simpa using List.find?_some h⟩

/-- A request hits the handle of its collapsed key, falls back to another handle of its process
    when the table is full, or creates a handle. The last happens below the limit, or for a
    process that has none. -/
theorem getOrCreate_cases (cache : Cache) (key : MetricKey) (m : Metrics) (env : CacheEnv)
    (event : CudaEvent) (kernelNames : KernelNames) (limits : CardinalityLimits) :
    (∃ h, cache.handles.lookup (cache.collapseKey limits key).1 = some h ∧
      cache.getOrCreate key m env event kernelNames limits =
        (h, m, (cache.collapseKey limits key).2)) ∨
    (∃ k h, cache.handles.lookup (cache.collapseKey limits key).1 = none ∧
      limits.maxTimeSeries ≤ cache.handles.size ∧ cache.fallback env key.pid = some k ∧
      cache.handles.lookup k = some h ∧
      cache.getOrCreate key m env event kernelNames limits =
        (h, { m with cardinalityDrops := m.cardinalityDrops + 1 },
          (cache.collapseKey limits key).2)) ∨
    (∃ m₁, cache.handles.lookup (cache.collapseKey limits key).1 = none ∧
      (cache.handles.size < limits.maxTimeSeries ∧ m₁ = m ∨
        cache.fallback env key.pid = none ∧
          m₁ = { m with cardinalityDrops := m.cardinalityDrops + 1 }) ∧
      cache.getOrCreate key m env event kernelNames limits =
        (cache.collapseKey limits key).2.createHandle m₁ env kernelNames
          (cache.collapseKey limits key).1 event) := by
  have hpid : (cache.collapseKey limits key).1.pid = key.pid :=
    (cache.collapseKey_sameCall limits key).pid
  have hhandles : (cache.collapseKey limits key).2.handles = cache.handles :=
    (cache.collapseKey_frame limits key).1
  unfold getOrCreate fallback
  generalize cache.collapseKey limits key = collapsed at hpid hhandles ⊢
  obtain ⟨key₁, cache₁⟩ := collapsed
  simp only at hpid hhandles ⊢
  rw [hhandles, ← hpid]
  cases hhit : cache.handles.lookup key₁ with
  | some h => exact .inl ⟨h, rfl, rfl⟩
  | none =>
    by_cases hfull : cache.handles.size ≥ limits.maxTimeSeries
    · simp only [hfull, ↓reduceIte]
      cases hfind : (env.handleOrder.order cache.handles.keys).find? (·.pid = key₁.pid) with
      | none => exact .inr (.inr ⟨_, trivial, .inr ⟨rfl, rfl⟩, rfl⟩)
      | some k =>
        -- the key that was found is in the table
        obtain ⟨h, hk⟩ := FinMap.exists_lookup_of_mem_keys
          ((env.handleOrder.perm _).mem_iff.mp (List.mem_of_find?_eq_some hfind))
        exact .inr (.inl ⟨k, h, trivial, trivial, rfl, hk, by simp only [hk]⟩)
    · simp only [hfull, ↓reduceIte]
      exact .inr (.inr ⟨m, trivial, .inl ⟨by omega, rfl⟩, rfl⟩)

/-- The outcome of a cache request: the cache stays right, nothing is counted, and the
    handle belongs to a key satisfying `K`. -/
structure Served (E : CacheEnv → Prop) (m : Metrics) (cache : Cache)
    (r : CachedHandles × Metrics × Cache) (K : MetricKey → Prop) : Prop where
  cacheOk : CacheOk E r.2.1 r.2.2
  silent : Silent m r.2.1
  lastSeen : r.2.2.lastSeen = cache.lastSeen
  handle : ∃ key, K key ∧ HandleOk E r.2.1 key r.1

/-- A handle that is created is right for its key. -/
theorem createHandle_handleOk (env : CacheEnv) (henv : E env) (cache : Cache) (m : Metrics)
    (kernelNames : KernelNames) {event : CudaEvent} (hpid : event.pid = key.pid) :
    HandleOk E (cache.createHandle m env kernelNames key event).2.1 key
      (cache.createHandle m env kernelNames key event).1 := by
  obtain ⟨-, hlabels, hcalls, hnccl, hmemcpy, hmalloc, hkernel, herrors⟩ :=
    createHandles_spec m key.eventType (handleLabels m.kernelMode env kernelNames key event)
  exact ⟨hcalls, hnccl, hmemcpy, hmalloc, hkernel, herrors, _, env, kernelNames, event, henv, hpid,
    hlabels⟩

theorem createHandle_served (hc : CacheOk E m cache) {env : CacheEnv} (henv : E env)
    (kernelNames : KernelNames) {event : CudaEvent} (hpid : event.pid = key.pid) :
    Served E m cache (cache.createHandle m env kernelNames key event) (· = key) := by
  have hsilent : Silent m (cache.createHandle m env kernelNames key event).2.1 :=
    (createHandles_spec m key.eventType (handleLabels m.kernelMode env kernelNames key event)).1
  have hnew := createHandle_handleOk env henv cache m kernelNames hpid
  refine ⟨?_, hsilent, rfl, key, rfl, hnew⟩
  -- the inserted key has the new handle, every other key the handle it had
  intro k h hk
  rcases FinMap.lookup_insert_cases hk with ⟨rfl, rfl⟩ | ⟨-, hold⟩
  · exact hnew
  · exact (hc k h hold).mono hsilent.ext

/-- `get_or_create` always hands out a handle of the same process, and below the global
    limit one of the same kind of call. -/
theorem getOrCreate_served (hc : CacheOk E m cache) {env : CacheEnv} (henv : E env)
    (kernelNames : KernelNames) {event : CudaEvent} (hpid : event.pid = key.pid)
    (limits : CardinalityLimits) :
    Served E m cache (cache.getOrCreate key m env event kernelNames limits) fun key' =>
      key'.pid = key.pid ∧
        ((cache.getOrCreate key m env event kernelNames limits).2.1.cardinalityDrops =
          m.cardinalityDrops → key.SameCall key') := by
  have hsame := cache.collapseKey_sameCall limits key
  obtain ⟨hhandles, hseen⟩ := cache.collapseKey_frame limits key
  have hc₁ : CacheOk E m (cache.collapseKey limits key).2 := by
    intro k h hk
    rw [hhandles] at hk
    exact hc k h hk
  rcases cache.getOrCreate_cases key m env event kernelNames limits with ⟨h, hk, heq⟩ |
    ⟨k, h, -, -, hfallback, hk, heq⟩ | ⟨m₁, -, hwhy, heq⟩
  · rw [heq]
    exact ⟨hc₁, .refl m, hseen, _, ⟨hsame.pid, fun _ => hsame⟩, hc _ h hk⟩
  · -- the fallback handle is of this process, but of any of its keys
    rw [heq]
    refine ⟨hc₁.mono m.silent_drop.ext, m.silent_drop, hseen, k, ?_,
      (hc k h hk).mono m.silent_drop.ext⟩
    exact ⟨(fallback_eq_some hfallback).2, fun hdrops => absurd hdrops (Nat.succ_ne_self _)⟩
  · -- a handle created for the collapsed key is right, whatever was dropped before
    have hm₁ : Silent m m₁ := by
      rcases hwhy with ⟨-, rfl⟩ | ⟨-, rfl⟩
      · exact .refl _
      · exact m.silent_drop
    have hpid₁ : event.pid = (cache.collapseKey limits key).1.pid := hpid.trans hsame.pid.symm
    obtain ⟨hok, hsilent, hlast, key', rfl, hhandle⟩ :=
      createHandle_served (hc₁.mono hm₁.ext) henv kernelNames hpid₁
    rw [heq]
    exact ⟨hok, hm₁.trans hsilent, hlast.trans hseen, _, ⟨hsame.pid, fun _ => hsame⟩, hhandle⟩

/-! ## Eviction keeps the cache right -/

theorem removeKey_ok {s : Metrics × Cache} (hc : CacheOk E s.1 s.2) (key : MetricKey) :
    CacheOk E (removeKey s key).1 (removeKey s key).2 ∧ Quiet s.1 (removeKey s key).1 := by
  unfold removeKey
  cases hk : s.2.handles.lookup key with
  | none => exact ⟨hc, .refl s.1⟩
  | some h =>
    have hquiet : Quiet s.1 (removeHandleMetrics s.1 key.eventType h) := by
      rw [removeHandleMetrics_eq]
      exact .foldl_remove _ s.1
    refine ⟨?_, hquiet⟩
    intro k h' hk'
    have hne : k ≠ key := by
      rintro rfl
      simp at hk'
    have hold : s.2.handles.lookup k = some h' := by
      simpa [AList.lookup_erase_ne hne] using hk'
    exact (hc k h' hold).mono hquiet.ext

theorem foldl_removeKey_ok (keys : List MetricKey) {s : Metrics × Cache}
    (hc : CacheOk E s.1 s.2) :
    CacheOk E (keys.foldl removeKey s).1 (keys.foldl removeKey s).2 ∧
      Quiet s.1 (keys.foldl removeKey s).1 :=
  Runs.run_invariant_of_step (I := fun t : Metrics × Cache => CacheOk E t.1 t.2 ∧ Quiet s.1 t.1)
    (fun _ key h => (removeKey_ok h.1 key).imp_right h.2.trans) ⟨hc, .refl s.1⟩ keys

theorem invalidatePids_ok (hc : CacheOk E m cache) (pids : List U32) :
    CacheOk E (cache.invalidatePids pids m).1 (cache.invalidatePids pids m).2 ∧
      Quiet m (cache.invalidatePids pids m).1 :=
  foldl_removeKey_ok _ hc

theorem foldl_evictPid_ok (pids : List U32) {s : Metrics × Cache} (hc : CacheOk E s.1 s.2) :
    CacheOk E (pids.foldl evictPid s).1 (pids.foldl evictPid s).2 ∧
      Quiet s.1 (pids.foldl evictPid s).1 := by
  refine Runs.run_invariant_of_step
    (I := fun t : Metrics × Cache => CacheOk E t.1 t.2 ∧ Quiet s.1 t.1)
    (fun t pid h => ?_) ⟨hc, .refl s.1⟩ pids
  exact (invalidatePids_ok h.1 [pid]).imp_right h.2.trans

theorem gc_ok (hc : CacheOk E m cache) (now staleAfter : ℕ) :
    CacheOk E (cache.gc m now staleAfter).2.1 (cache.gc m now staleAfter).2.2 ∧
      Quiet m (cache.gc m now staleAfter).2.1 := by
  obtain ⟨hc₁, hq₁⟩ := foldl_evictPid_ok (cache.stalePids now staleAfter) (s := (m, cache)) hc
  rw [gc_frame]
  exact ⟨hc₁.mono (Metrics.silent_trackedPids _ _).ext,
    hq₁.trans (Metrics.silent_trackedPids _ _).toQuiet⟩

end Cache

end Profi
