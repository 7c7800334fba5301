import Profi.CacheRuns
import Profi.System

/-!
# Which Handles an Arm Uses

Every counter is incremented through a handle the cache hands out. `Cache.handleFor` says under
which key the handle of a request is cached, and whether it is made for the request; only then
does the cache ask the enricher for the process.

A batch and the three drains of an aggregate tick differ in what they count and not in how they
use the cache. `Record` is what they handle one after the other, a ring event or a drained key of
one of the maps, and `Sys.step_handled` says that what a step does to the cache and the series is
what the records of its arm do.
-/

namespace Profi

variable {n : ℕ}

/-! ## Requests -/

namespace Cache

variable (cache : Cache) (env : CacheEnv) (limits : CardinalityLimits) (key : MetricKey)

/-- The key of the handle a request is answered with, and whether the handle is made for it. -/
def handleFor : MetricKey × Bool :=
  let collapsed := (cache.collapseKey limits key).1
  if collapsed ∈ cache.handles then (collapsed, false)
  else if limits.maxTimeSeries ≤ cache.handles.size then
    match cache.fallback env key.pid with
    | some k => (k, false)
    | none => (collapsed, true)
  else (collapsed, true)

/-- A request is answered with the handle that is cached under the key `handleFor` gives, or makes
    it. A request that finds the table full is counted. -/
theorem getOrCreate_eq (m : Metrics) (event : CudaEvent) (kernelNames : KernelNames) :
    let answer := cache.handleFor env limits key
    let collapsed := (cache.collapseKey limits key).2
    ∃ drops, let m₁ := { m with cardinalityDrops := drops }
      (answer.2 = false ∧ ∃ h, cache.handles.lookup answer.1 = some h ∧
        cache.getOrCreate key m env event kernelNames limits = (h, m₁, collapsed)) ∨
      (answer.2 = true ∧
        cache.getOrCreate key m env event kernelNames limits =
          collapsed.createHandle m₁ env kernelNames answer.1 event) := by
  intro answer collapsed
  -- the three outcomes of a request are the three answers
  rcases cache.getOrCreate_cases key m env event kernelNames limits with ⟨h, hhit, heq⟩ |
    ⟨k, h, hmiss, hfull, hfallback, hk, heq⟩ | ⟨m₁, hmiss, hwhy, heq⟩
  · have hanswer : answer = ((cache.collapseKey limits key).1, false) :=
      if_pos (FinMap.mem_keys_of_lookup hhit)
    rw [hanswer]
    exact ⟨m.cardinalityDrops, .inl ⟨rfl, h, hhit, heq⟩⟩
  · have hout : (cache.collapseKey limits key).1 ∉ cache.handles := AList.lookup_eq_none.mp hmiss
    have hanswer : answer = (k, false) := by
      simp only [answer, handleFor, hout, hfull, hfallback, ↓reduceIte]
    rw [hanswer]
    exact ⟨m.cardinalityDrops + 1, .inl ⟨rfl, h, hk, heq⟩⟩
  · have hout : (cache.collapseKey limits key).1 ∉ cache.handles := AList.lookup_eq_none.mp hmiss
    have hanswer : answer = ((cache.collapseKey limits key).1, true) := by
      rcases hwhy with ⟨hlt, -⟩ | ⟨hnone, -⟩
      · simp only [answer, handleFor, hout, not_le.mpr hlt, ↓reduceIte]
      · simp only [answer, handleFor, hout, hnone, ↓reduceIte, ite_self]
    rw [hanswer]
    rcases hwhy with ⟨-, rfl⟩ | ⟨-, rfl⟩
    · exact ⟨m₁.cardinalityDrops, .inr ⟨rfl, heq⟩⟩
    · exact ⟨m.cardinalityDrops + 1, .inr ⟨rfl, heq⟩⟩

/-- The table only changes if a handle is made, and then by this one key. -/
theorem getOrCreate_handleFor (m : Metrics) (event : CudaEvent) (kernelNames : KernelNames) :
    let r := cache.getOrCreate key m env event kernelNames limits
    let answer := cache.handleFor env limits key
    r.2.2.handles.lookup answer.1 = some r.1 ∧
      r.2.2.handles =
        if answer.2 then cache.handles.insert answer.1 r.1 else cache.handles := by
  have hhandles : (cache.collapseKey limits key).2.handles = cache.handles :=
    (cache.collapseKey_frame limits key).1
  obtain ⟨drops, ⟨hmade, h, hlookup, heq⟩ | ⟨hmade, heq⟩⟩ :=
    cache.getOrCreate_eq env limits key m event kernelNames
  · simp only [heq, hmade, hhandles, hlookup, Bool.false_eq_true, ↓reduceIte, and_self]
  · simp only [heq, hmade, createHandle, hhandles, AList.lookup_insert, ↓reduceIte, and_self]

/-- The handle belongs to the process that is asked for. -/
theorem handleFor_pid : (cache.handleFor env limits key).1.pid = key.pid := by
  have hpid : (cache.collapseKey limits key).1.pid = key.pid :=
    (cache.collapseKey_sameCall limits key).pid
  unfold handleFor
  simp only
  split
  · exact hpid
  · split
    · split
      next k hfallback => exact (fallback_eq_some hfallback).2
      · exact hpid
    · exact hpid

/-- A handle is made under the collapsed key. -/
theorem handleFor_made (h : (cache.handleFor env limits key).2 = true) :
    (cache.handleFor env limits key).1 = (cache.collapseKey limits key).1 := by
  unfold handleFor at h ⊢
  simp only at h ⊢
  split at h
  · cases h
  next hout =>
    rw [if_neg hout]
    split
    next hfull =>
      rw [if_pos hfull] at h
      split at h
      · cases h
      · rfl
    · rfl

/-- A request for a key that is not cached makes no handle if the table is full and there is
    another handle of the process. -/
theorem handleFor_notMade_iff (hout : (cache.collapseKey limits key).1 ∉ cache.handles) :
    (cache.handleFor env limits key).2 = false ↔
      limits.maxTimeSeries ≤ cache.handles.size ∧ ∃ k ∈ cache.handles, k.pid = key.pid := by
  have hfallback := @fallback_eq_none_iff cache env key.pid
  unfold handleFor
  simp only [hout, ↓reduceIte]
  by_cases hfull : limits.maxTimeSeries ≤ cache.handles.size
  · simp only [hfull, ↓reduceIte, true_and]
    cases hk : cache.fallback env key.pid with
    | none =>
      have hnone := hfallback.mp hk
      simpa using hnone
    | some k => simpa using ⟨k, fallback_eq_some hk⟩
  · simp [hfull]

end Cache

/-! ## Records -/

/-- What an arm handles: a ring event, or a drained key with its values. -/
inductive Record where
  | ring (event : CudaEvent)
  | aggregated (key : AggKey) (perCpu : List AggValue)
  | launch (key : LaunchKey) (perCpu : List LaunchAggValue)
  | nccl (key : AggKey) (perCpu : List NcclAggValue)

namespace Record

def pid : Record → U32
  | .ring event => event.pid
  | .aggregated key _ => key.pid
  | .launch key _ => key.pid
  | .nccl key _ => key.pid

def metricKey : Record → MetricKey
  | .ring event => event.metricKey
  | .aggregated key _ => key.metricKey
  | .launch key _ => key.metricKey
  | .nccl key _ => key.metricKey

/-- The calls a record stands for, over all CPUs. -/
def count : Record → ℕ
  | .ring _ => 1
  | .aggregated _ perCpu => (perCpu.map (·.count)).sum
  | .launch _ perCpu => (perCpu.map (·.count)).sum
  | .nccl _ perCpu => (perCpu.map (·.count)).sum

/-- The key a record asks the cache for; a row nobody counted in asks for nothing. -/
def request (r : Record) : Option MetricKey := if r.count = 0 then none else some r.metricKey

/-- The event the request is made for. -/
def event : Record → CudaEvent
  | .ring event => event
  | .aggregated key _ =>
    syntheticEvent key.eventType key.pid key.memcpyKind 0 key.stream key.errorCode
  | .launch key _ => syntheticEvent .cudaLaunchKernel key.pid 0 key.hostFun key.stream 0
  | .nccl key _ => syntheticEvent key.eventType key.pid key.memcpyKind 0 key.stream key.errorCode

/-- What is counted through the handle. -/
def write (m : Metrics) (h : CachedHandles) : Record → Metrics
  | .ring event => Loop.countEvent m h event
  | .aggregated _ perCpu =>
    Loop.countAggregated m h (perCpu.map (·.count)).sum (perCpu.map (·.durationSumNs)).sum
      (perCpu.map (·.sizeSum)).sum (sumBuckets (perCpu.map (·.bucketCounts)))
  | .launch _ perCpu =>
    Loop.countLaunch m h (perCpu.map (·.count)).sum (perCpu.map (·.totalDurationNs)).sum
      (sumBuckets (perCpu.map (·.bucketCounts)))
  | .nccl _ perCpu =>
    Loop.countNccl m h (perCpu.map (·.count)).sum (perCpu.map (·.durationSumNs)).sum
      (perCpu.map (·.bytesSum)).sum (sumBuckets (perCpu.map (·.bucketCounts)))

theorem metricKey_pid (r : Record) : r.metricKey.pid = r.pid := by
  cases r <;> rfl

theorem event_pid (r : Record) : r.event.pid = r.pid := by
  cases r <;> rfl

theorem request_eq_some {r : Record} {key : MetricKey} :
    r.request = some key ↔ r.count ≠ 0 ∧ r.metricKey = key := by
  unfold request
  split <;> simp_all

end Record

/-- The rows of a tick, in the order in which they are handled. -/
def tickRecords (args : Args) (env : LoopEnv) (b : Bpf n) : List Record :=
  (drained env.aggOrder b.aggregated).map (fun kv => .aggregated kv.1 kv.2) ++
    (if args.detailedLaunches then []
      else (drained env.launchOrder b.launchAgg).map fun kv => .launch kv.1 kv.2) ++
    (drained env.ncclOrder b.ncclAgg).map fun kv => .nccl kv.1 kv.2

namespace Loop

variable (args : Args) (env : LoopEnv)

/-- The handling of one record. -/
def processRecord (x : Loop × MemDelta) : Record → Loop × MemDelta
  | .ring event => (consumeEvent args env x.1 event, x.2)
  | .aggregated key perCpu => processAggregated args env x key perCpu
  | .launch key perCpu => (processLaunch args env x.1 key perCpu, x.2)
  | .nccl key perCpu => (processNccl args env x.1 key perCpu, x.2)

theorem processRecord_of_none {r : Record} (h : r.request = none) (x : Loop × MemDelta) :
    processRecord args env x r = x := by
  unfold Record.request at h
  split at h
  next hcount =>
    cases r with
    | ring event => cases hcount
    | aggregated key perCpu => exact if_pos hcount
    | launch key perCpu => exact Prod.ext (if_pos hcount) rfl
    | nccl key perCpu => exact Prod.ext (if_pos hcount) rfl
  · cases h

/-- A request, what is counted through the handle, and the touch of the process. -/
theorem processRecord_of_some {r : Record} {key : MetricKey} (h : r.request = some key)
    (x : Loop × MemDelta) :
    let answer := x.1.getHandle args env key r.event
    (processRecord args env x r).1 =
      { answer.2 with metrics := r.write answer.2.metrics answer.1 }.touchPid env r.pid := by
  obtain ⟨hcount, rfl⟩ := Record.request_eq_some.mp h
  cases r with
  | ring event => rfl
  | aggregated key perCpu => exact congrArg Prod.fst (if_neg hcount)
  | launch key perCpu => exact if_neg hcount
  | nccl key perCpu => exact if_neg hcount

/-- Records are counted in the registry and the cache; what else the loop holds is not touched. -/
theorem foldl_processRecord_frame (records : List Record) (x : Loop × MemDelta) :
    let l := (records.foldl (processRecord args env) x).1
    l.activeMemory = x.1.activeMemory ∧ l.upgradedPidsSynced = x.1.upgradedPidsSynced ∧
      l.kernelNames = x.1.kernelNames := by
  have hframe := Runs.foldl_frame (fun x : Loop × MemDelta =>
    (x.1.activeMemory, x.1.upgradedPidsSynced, x.1.kernelNames)) (processRecord args env)
    (fun x r => by
      cases hrequest : r.request with
      | none => rw [processRecord_of_none args env hrequest]
      | some key => rw [processRecord_of_some args env hrequest]; rfl) records x
  simpa only [Prod.mk.injEq] using hframe

/-- The three drains handle the rows of a tick one after the other. -/
theorem drainMaps_eq_foldl (s : Bpf n × Loop) :
    (drainMaps args env s).2 =
      (tickRecords args env s.1).foldl (processRecord args env) (s.2, ∅) := by
  -- the launch and NCCL rows leave the memory deltas alone
  have hfst : ∀ {α : Type} (f : Loop → α → Loop) (rows : List α) (x : Loop × MemDelta),
      rows.foldl (fun x row => (f x.1 row, x.2)) x = (rows.foldl f x.1, x.2) := by
    intro α f rows
    induction rows with
    | nil => exact fun _ => rfl
    | cons row rows ih => exact fun x => ih (f x.1 row, x.2)
  have hlaunch := hfst fun l (kv : LaunchKey × List LaunchAggValue) =>
    processLaunch args env l kv.1 kv.2
  have hnccl := hfst fun l (kv : AggKey × List NcclAggValue) => processNccl args env l kv.1 kv.2
  unfold drainMaps tickRecords
  simp only [drainPercpuHash_eq, List.foldl_append, List.foldl_map, processRecord]
  split
  · simp only [List.foldl_nil, hnccl]
  · simp only [List.foldl_map, processRecord, hlaunch, hnccl]

/-- The keys of the handles that records are counted through, and whether they are made for
    them. -/
def answers (l : Loop) (records : List Record) : List (MetricKey × Bool) :=
  Runs.observed (processRecord args env)
    (fun x r => r.request.toList.map (x.1.cache.handleFor env.cacheEnv args.limits))
    (l, ∅) records

variable {args env}

/-- A handle that is used belongs to the process of one of the counted records. -/
theorem exists_record_of_mem_answers {l : Loop} {records : List Record}
    {answer : MetricKey × Bool} (h : answer ∈ answers args env l records) :
    ∃ r ∈ records, r.request ≠ none ∧ answer.1.pid = r.pid := by
  obtain ⟨x, r, hr, hanswer⟩ := Runs.exists_of_mem_observed h
  obtain ⟨key, hkey, rfl⟩ := List.mem_map.mp hanswer
  have hrequest : r.request = some key := Option.mem_toList.mp hkey
  refine ⟨r, hr, by simp [hrequest], ?_⟩
  rw [Cache.handleFor_pid, ← (Record.request_eq_some.mp hrequest).2, r.metricKey_pid]

/-- The table after a record: with the key of the handle that was made for it, if one was. -/
theorem processRecord_handles {x : Loop × MemDelta} {r : Record} {key : MetricKey}
    (h : r.request = some key) :
    let answer := x.1.cache.handleFor env.cacheEnv args.limits key
    (processRecord args env x r).1.cache.handles =
      if answer.2 then
        x.1.cache.handles.insert answer.1 (x.1.getHandle args env key r.event).1
      else x.1.cache.handles := by
  intro answer
  rw [processRecord_of_some args env h]
  exact (x.1.cache.getOrCreate_handleFor env.cacheEnv args.limits key x.1.metrics r.event
    x.1.kernelNames).2

theorem mem_processRecord {x : Loop × MemDelta} {r : Record} {k : MetricKey}
    (hk : k ∈ x.1.cache.handles) : k ∈ (processRecord args env x r).1.cache.handles := by
  cases hrequest : r.request with
  | none =>
    rw [processRecord_of_none args env hrequest]
    exact hk
  | some key =>
    rw [processRecord_handles hrequest]
    split
    · exact (AList.mem_insert _).mpr (.inr hk)
    · exact hk

end Loop

/-! ## The arms -/

/-- The environment of an arm. -/
def Event.env : Event n → LoopEnv
  | .consume env | .aggTick env | .gcTick env => env
  | _ => .bare

namespace Sys

variable (args : Args)

/-- What the arm of a step handles. -/
def records (s : Sys n) : Event n → List Record
  | .consume _ => (s.bpf.events.consume ringbufConsumeBudget).1.map .ring
  | .aggTick env => tickRecords args env s.bpf
  | _ => []

/-- The loop when the arm of a step handles its first record. -/
def armStart (s : Sys n) : Event n → Loop
  | .consume env => s.loop.invalidateChanged env
  | .aggTick env =>
    match env.upgradedPids with
    | some desired => { s.loop with upgradedPidsSynced := desired }
    | none => s.loop
  | .gcTick env => s.loop.gcTick args env
  | _ => s.loop

/-- A tick begins with the promoted processes, and nothing else. -/
theorem armStart_aggTick (s : Sys n) (env : LoopEnv) :
    s.armStart args (.aggTick env) =
      { s.loop with
        upgradedPidsSynced := (s.armStart args (.aggTick env)).upgradedPidsSynced } := by
  unfold armStart
  simp only
  split <;> rfl

/-- The loop after the records of a step, and the changes of the active memory. -/
def handled (s : Sys n) (e : Event n) : Loop × MemDelta :=
  (s.records args e).foldl (Loop.processRecord args e.env) (s.armStart args e, ∅)

/-- The kernel registrations a batch reads after its events. -/
def registrations (s : Sys n) : Event n → List KernelRegEvent
  | .consume _ =>
    let batch := (s.bpf.events.consume ringbufConsumeBudget).1
    if args.kernelMode = .full then
      (s.bpf.kernelRegs.consume (ringbufConsumeBudget - batch.length)).1
    else []
  | _ => []

/-- What the arm of a step does after its records: a batch names kernels, a tick updates the active
    memory. -/
def armEnd (s : Sys n) (e : Event n) (x : Loop × MemDelta) : Loop :=
  match e with
  | .consume env => (s.registrations args e).foldl (Loop.registerKernel env) x.1
  | .aggTick env => x.1.flushActiveMemory env x.2
  | .nameKernel pid addr name =>
    { x.1 with kernelNames := x.1.kernelNames.insert (pid, addr) name }
  | _ => x.1

theorem foldl_ring (env : LoopEnv) (events : List CudaEvent) (x : Loop × MemDelta) :
    (events.map Record.ring).foldl (Loop.processRecord args env) x =
      (events.foldl (Loop.consumeEvent args env) x.1, x.2) := by
  induction events generalizing x with
  | nil => rfl
  | cons event events ih => exact ih (Loop.consumeEvent args env x.1 event, x.2)

/-- The loop after a step: the start of its arm, its records, the end of its arm. -/
theorem step_loop (s : Sys n) (e : Event n) :
    (s.step args e).loop = s.armEnd args e (s.handled args e) := by
  cases e with
  | consume env =>
    unfold handled armEnd registrations armStart records step consume Loop.consume
    simp only [Event.env, foldl_ring]
    split <;> rfl
  | aggTick env =>
    -- the rows are read after the promoted processes are synchronised, which changes none
    have htick : ∀ s' : Bpf n × Loop, tickRecords args env s'.1 = tickRecords args env s.bpf →
        (Loop.drainMaps args env s').2 =
          (tickRecords args env s.bpf).foldl (Loop.processRecord args env) (s'.2, ∅) := by
      intro s' hrecords
      rw [← hrecords, ← Loop.drainMaps_eq_foldl]
    unfold handled armEnd armStart records step aggTick Loop.aggTick
    simp only [Event.env]
    cases env.upgradedPids with
    | none => simp only [htick (s.bpf, s.loop) rfl]
    | some desired =>
      simp only [htick (Loop.syncUpgradedPids (s.bpf, s.loop) desired) rfl]
      rfl
  | ret ctx =>
    simp only [step, ret]
    split <;> rfl
  | _ => rfl

end Sys

/-- The cache is the same, and the registry exports the same counters and histograms. -/
structure Loop.SameSeries (l l' : Loop) : Prop where
  cache : l'.cache = l.cache
  kernelMode : l'.metrics.kernelMode = l.metrics.kernelMode
  cardinalityDrops : l'.metrics.cardinalityDrops = l.metrics.cardinalityDrops
  counters : l'.metrics.counters = l.metrics.counters
  histograms : l'.metrics.histograms = l.metrics.histograms

namespace Loop

theorem SameSeries.refl (l : Loop) : l.SameSeries l := ⟨rfl, rfl, rfl, rfl, rfl⟩

theorem SameSeries.trans {l l' l'' : Loop} (h : l.SameSeries l') (h' : l'.SameSeries l'') :
    l.SameSeries l'' :=
  ⟨h'.cache.trans h.cache, h'.kernelMode.trans h.kernelMode,
    h'.cardinalityDrops.trans h.cardinalityDrops, h'.counters.trans h.counters,
    h'.histograms.trans h.histograms⟩

theorem SameSeries.foldl {α : Type} {f : Loop → α → Loop}
    (hf : ∀ (l : Loop) a, l.SameSeries (f l a))
    (xs : List α) (l : Loop) : l.SameSeries (xs.foldl f l) :=
  Runs.run_invariant_of_step (I := fun l' => l.SameSeries l') (fun l' a h => h.trans (hf l' a))
    (.refl l) xs

theorem registerKernel_sameSeries (env : LoopEnv) (l : Loop) (reg : KernelRegEvent) :
    l.SameSeries (registerKernel env l reg) := by
  rw [registerKernel_frame]
  exact ⟨rfl, rfl, rfl, rfl, rfl⟩

end Loop

namespace Sys

/-- What a step does to the cache and the series is what the records of its arm do. -/
theorem step_handled (args : Args) (s : Sys n) (e : Event n) :
    (s.handled args e).1.SameSeries (s.step args e).loop := by
  rw [step_loop]
  cases e with
  | consume env => exact Loop.SameSeries.foldl (Loop.registerKernel_sameSeries env) _ _
  | aggTick env =>
    have hone : ∀ (l : Loop) (e : (_ : U32) × I64), l.SameSeries (l.addActiveMemory env e.1 e.2) :=
      fun _ _ => ⟨rfl, rfl, rfl, rfl, rfl⟩
    exact Loop.SameSeries.foldl hone _ _
  | nameKernel pid addr name => exact ⟨rfl, rfl, rfl, rfl, rfl⟩
  | _ => exact .refl _

/-- A step keeps the handles its arm found. -/
theorem mem_step_handles {args : Args} {s : Sys n} {e : Event n} {k : MetricKey}
    (hk : k ∈ (s.armStart args e).cache.handles) : k ∈ (s.step args e).loop.cache.handles := by
  rw [(s.step_handled args e).cache]
  exact Runs.run_invariant_of_step (I := fun x : Loop × MemDelta => k ∈ x.1.cache.handles)
    (fun _ _ => Loop.mem_processRecord) hk _

end Sys

end Profi
