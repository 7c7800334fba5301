import Profi.Requests

/-!
# What the Event Loop Counts

Every drained key and every ring event ends in a list of counter increments. This file says
which (`aggIncs`, `launchIncs`, `ncclIncs`, `eventIncs`) and proves that the code makes
exactly these, through whatever handle the cache hands out.

Below the global handle limit the handle is one for the event's own operation, process and
error code (`MetricKey.SameCall`), so the label positions the results look at (`labels[0]`
the operation, `labels[1]` the process, `labels[8]` the error code) are those of the event.
-/

namespace Profi

variable {E : CacheEnv → Prop} {a m : Metrics} {xs : List Inc} {key : MetricKey}
  {h : CachedHandles}

/-! ## Labels of a handle -/

/-- The label lists were made for this key by an environment satisfying `E`. -/
def LabelsFor (E : CacheEnv → Prop) (key : MetricKey) (hl : HandleLabels) : Prop :=
  ∃ mode env kernelNames event, E env ∧ event.pid = key.pid ∧
    hl = handleLabels mode env kernelNames key event

variable {hl : HandleLabels}

theorem LabelsFor.calls (hfor : LabelsFor E key hl) :
    hl.callsLabels[0]? = some (operationName key.eventType) ∧
      hl.callsLabels[1]? = some (decString key.pid) := by
  obtain ⟨mode, env, kernelNames, event, -, hpid, rfl⟩ := hfor
  simp only [handleLabels]
  split <;> simp [hpid]

/-- Only calls that failed have an errors counter, and it carries their code. -/
theorem LabelsFor.errors (hfor : LabelsFor E key hl) :
    (key.errorCode = 0 ∧ hl.errorsLabels = none) ∨
      ∃ labels, key.errorCode ≠ 0 ∧ hl.errorsLabels = some labels ∧
        labels[0]? = some (operationName key.eventType) ∧
        labels[1]? = some (decString key.pid) ∧
        labels[8]? = some (decString key.errorCode) := by
  obtain ⟨mode, env, kernelNames, event, -, hpid, rfl⟩ := hfor
  by_cases hcode : key.errorCode = 0
  · left
    simp only [handleLabels]
    split <;> simp [hcode]
  · right
    simp only [handleLabels]
    split <;> simp [hpid] <;> exact hcode

theorem LabelsFor.hist (hfor : LabelsFor E key hl) :
    ∃ env comm, E env ∧
      hl.histLabels = [operationName key.eventType, (env.lookup key.pid comm).namespace_,
        (env.lookup key.pid comm).pod, (env.lookup key.pid comm).gpu] := by
  obtain ⟨mode, env, kernelNames, event, henv, hpid, rfl⟩ := hfor
  refine ⟨env, env.commStr event, henv, ?_⟩
  simp only [handleLabels]
  split <;> simp [hpid]

/-! ## Increments made through a handle -/

theorem byLabels_callsFamily (eventType : EventType) :
    (callsFamily eventType).byLabels = false := by
  unfold callsFamily
  split <;> rfl

theorem Adds.incByPos (hadds : Adds a m xs) {c : Option CounterRef} {family : CounterFamily}
    {labels : Option (List String)} (hc : OptRefOk m c family labels)
    (hf : family.byLabels = false) (x : U64) :
    Adds a (m.incByPos c x) (xs ++ optInc family labels x.toNat) := by
  unfold Metrics.incByPos
  split
  · exact hadds.incByOpt hc hf x.toNat
  · -- an increment by zero is not made, and would count for nothing
    rename_i hx
    have hzero : x.toNat = 0 := by
      have : ¬ 0 < x.toNat := by simpa [BitVec.lt_def] using hx
      omega
    refine ⟨hadds.ext, ?_, ?_, hadds.drops, hadds.activeMemory⟩
    · intro f p
      simpa [incTotal_optInc, hzero] using hadds.total f p
    · intro f l hl
      simpa [incTotal_optInc, hzero] using hadds.value f l hl

/-- The increments of one ring event. -/
def eventIncs (event : CudaEvent) (key : MetricKey) (hl : HandleLabels) : List Inc :=
  [⟨callsFamily key.eventType, hl.callsLabels, 1⟩] ++
    optInc .cudaMemcpyBytes hl.memcpyLabels event.size.toNat ++
    optInc .cudaMallocBytes hl.mallocLabels event.size.toNat ++
    optInc .ncclBytes hl.ncclBytesLabels (ncclEventBytes event).toNat ++
    optInc .cudaKernelLaunches hl.kernelCounterLabels 1 ++
    optInc .cudaErrors hl.errorsLabels 1

theorem countEvent_adds (hh : HandleOk E m key h) (event : CudaEvent) :
    Adds m (Loop.countEvent m h event) (eventIncs event key h.labels) := by
  have h₁ := (Silent.refl m).adds.incBy hh.calls (byLabels_callsFamily _) 1
  have h₂ := h₁.silent (Metrics.silent_observe _ h.duration event.durationNs)
  have h₃ := h₂.incByPos (hh.memcpyBytes.mono h₂.ext) rfl event.size
  have h₄ := h₃.incByPos (hh.mallocBytes.mono h₃.ext) rfl event.size
  have h₅ := h₄.incByPos (hh.ncclBytes.mono h₄.ext) rfl (ncclEventBytes event)
  have h₆ := h₅.incByOpt (hh.kernelCounter.mono h₅.ext) rfl 1
  have h₇ := h₆.silent (Metrics.silent_observeOpt _ h.kernelHistogram event.durationNs)
  exact h₇.incByOpt (hh.errorsCounter.mono h₇.ext) rfl 1

/-- The increments of one drained `AGGREGATED` key. -/
def aggIncs (totalCount : ℕ) (totalDuration totalSize : U64) (buckets : List ℕ)
    (key : MetricKey) (hl : HandleLabels) : List Inc :=
  [⟨callsFamily key.eventType, hl.callsLabels, totalCount⟩] ++
    bucketIncs .cudaDurationBucketTotal hl.histLabels 0 (cudaDurationBucketLe.zip buckets) ++
    [⟨.cudaDurationSumSecondsTotal, hl.histLabels, totalDuration.toNat⟩] ++
    [⟨.cudaDurationCountTotal, hl.histLabels, totalCount⟩] ++
    optInc .cudaKernelLaunches hl.kernelCounterLabels totalCount ++
    optInc .cudaMemcpyBytes hl.memcpyLabels totalSize.toNat ++
    optInc .cudaMallocBytes hl.mallocLabels totalSize.toNat ++
    optInc .cudaErrors hl.errorsLabels totalCount

theorem countAggregated_adds (hh : HandleOk E m key h) (totalCount : ℕ)
    (totalDuration totalSize : U64) (buckets : List ℕ) :
    Adds m (Loop.countAggregated m h totalCount totalDuration totalSize buckets)
      (aggIncs totalCount totalDuration totalSize buckets key h.labels) := by
  have h₁ := (Silent.refl m).adds.incBy hh.calls (byLabels_callsFamily _) totalCount
  have h₂ := h₁.incCumulativeBucketCounters .cudaDurationBucketTotal h.labels.histLabels
    cudaDurationBucketLe buckets
  have h₃ := h₂.incLabels .cudaDurationSumSecondsTotal h.labels.histLabels totalDuration.toNat
  have h₄ := h₃.incLabels .cudaDurationCountTotal h.labels.histLabels totalCount
  have h₅ := h₄.incByOpt (hh.kernelCounter.mono h₄.ext) rfl totalCount
  have h₆ := h₅.incByPos (hh.memcpyBytes.mono h₅.ext) rfl totalSize
  have h₇ := h₆.incByPos (hh.mallocBytes.mono h₆.ext) rfl totalSize
  exact h₇.incByOpt (hh.errorsCounter.mono h₇.ext) rfl totalCount

/-- The increments of one drained `NCCL_AGG` key. -/
def ncclIncs (count : ℕ) (durSum bytesSum : U64) (buckets : List ℕ) (key : MetricKey)
    (hl : HandleLabels) : List Inc :=
  [⟨callsFamily key.eventType, hl.callsLabels, count⟩] ++
    optInc .ncclBytes hl.ncclBytesLabels bytesSum.toNat ++
    optInc .cudaErrors hl.errorsLabels count ++
    bucketIncs .ncclDurationBucketTotal hl.histLabels 0 (ncclDurationBucketLe.zip buckets) ++
    [⟨.ncclDurationSumSecondsTotal, hl.histLabels, durSum.toNat⟩] ++
    [⟨.ncclDurationCountTotal, hl.histLabels, count⟩]

theorem countNccl_adds (hh : HandleOk E m key h) (count : ℕ) (durSum bytesSum : U64)
    (buckets : List ℕ) :
    Adds m (Loop.countNccl m h count durSum bytesSum buckets)
      (ncclIncs count durSum bytesSum buckets key h.labels) := by
  have h₁ := (Silent.refl m).adds.incBy hh.calls (byLabels_callsFamily _) count
  have h₂ := h₁.incByPos (hh.ncclBytes.mono h₁.ext) rfl bytesSum
  have h₃ := h₂.incByOpt (hh.errorsCounter.mono h₂.ext) rfl count
  have h₄ := h₃.incCumulativeBucketCounters .ncclDurationBucketTotal h.labels.histLabels
    ncclDurationBucketLe buckets
  have h₅ := h₄.incLabels .ncclDurationSumSecondsTotal h.labels.histLabels durSum.toNat
  exact h₅.incLabels .ncclDurationCountTotal h.labels.histLabels count

/-- The kernel duration increments of one drained `LAUNCH_AGG` key. -/
def launchHistIncs (count : ℕ) (totalDur : U64) (buckets : List ℕ) (labels : List String) :
    List Inc :=
  bucketIncs .cudaKernelDurationBucketTotal labels 0 (cudaKernelDurationBucketLe.zip buckets) ++
    [⟨.cudaKernelDurationSumSecondsTotal, labels, totalDur.toNat⟩] ++
    [⟨.cudaKernelDurationCountTotal, labels, count⟩]

/-- The increments of one drained `LAUNCH_AGG` key. -/
def launchIncs (mode : KernelMode) (count : ℕ) (totalDur : U64) (buckets : List ℕ)
    (key : MetricKey) (hl : HandleLabels) : List Inc :=
  [⟨callsFamily key.eventType, hl.callsLabels, count⟩] ++
    optInc .cudaKernelLaunches hl.kernelCounterLabels count ++
    match hl.kernelHistLabels, mode with
    | some labels, .full => launchHistIncs count totalDur buckets labels
    | _, _ => []

theorem countLaunch_adds (hh : HandleOk E m key h) (count : ℕ) (totalDur : U64)
    (buckets : List ℕ) :
    Adds m (Loop.countLaunch m h count totalDur buckets)
      (launchIncs m.kernelMode count totalDur buckets key h.labels) := by
  have h₁ := (Silent.refl m).adds.incBy hh.calls (byLabels_callsFamily _) count
  have h₂ := h₁.incByOpt (hh.kernelCounter.mono h₁.ext) rfl count
  have hmode : ((m.incBy h.calls count).incByOpt h.kernelCounter count).kernelMode =
      m.kernelMode := by
    cases h.kernelCounter <;> rfl
  simp only [Loop.countLaunch, launchIncs, hmode]
  -- the histogram triple is written only in full mode and only for a handle that has the labels
  cases h.labels.kernelHistLabels with
  | none => simpa using h₂
  | some labels =>
    cases m.kernelMode with
    | full =>
      have h₃ := h₂.incCumulativeBucketCounters .cudaKernelDurationBucketTotal labels
        cudaKernelDurationBucketLe buckets
      have h₄ := h₃.incLabels .cudaKernelDurationSumSecondsTotal labels totalDur.toNat
      have h₅ := h₄.incLabels .cudaKernelDurationCountTotal labels count
      simpa [launchHistIncs] using h₅
    | anonymous => simpa using h₂
    | off => simpa using h₂

/-! ## One record, one handle -/

/-- The increments a record is counted with, through a handle of this key with these labels. -/
def Record.incs (mode : KernelMode) (key : MetricKey) (hl : HandleLabels) : Record → List Inc
  | .ring event => eventIncs event key hl
  | .aggregated _ perCpu =>
    aggIncs (perCpu.map (·.count)).sum (perCpu.map (·.durationSumNs)).sum
      (perCpu.map (·.sizeSum)).sum (sumBuckets (perCpu.map (·.bucketCounts))) key hl
  | .launch _ perCpu =>
    launchIncs mode (perCpu.map (·.count)).sum (perCpu.map (·.totalDurationNs)).sum
      (sumBuckets (perCpu.map (·.bucketCounts))) key hl
  | .nccl _ perCpu =>
    ncclIncs (perCpu.map (·.count)).sum (perCpu.map (·.durationSumNs)).sum
      (perCpu.map (·.bytesSum)).sum (sumBuckets (perCpu.map (·.bucketCounts))) key hl

theorem Record.write_adds (hh : HandleOk E m key h) (r : Record) :
    Adds m (r.write m h) (r.incs m.kernelMode key h.labels) := by
  cases r with
  | ring event => exact countEvent_adds hh event
  | aggregated _ perCpu => exact countAggregated_adds hh _ _ _ _
  | launch _ perCpu => exact countLaunch_adds hh _ _ _
  | nccl _ perCpu => exact countNccl_adds hh _ _ _ _

/-- From `l` to `l'` a record was counted: its increments were made through one handle, which
    below the global limit is a handle for such calls. -/
structure Counted (E : CacheEnv → Prop) (l l' : Loop) (r : Record) : Prop where
  cacheOk : CacheOk E l'.metrics l'.cache
  adds : ∃ mode key' hl,
    (l'.metrics.cardinalityDrops = l.metrics.cardinalityDrops → r.metricKey.SameCall key') ∧
      LabelsFor E key' hl ∧ Adds l.metrics l'.metrics (r.incs mode key' hl)

theorem touchPid_silent (l : Loop) (env : LoopEnv) (pid : U32) :
    Silent l.metrics (l.touchPid env pid).metrics := by
  rw [Loop.touchPid_frame]
  exact Metrics.silent_trackedPids _ _

/-- The pattern all event handlers share: ask the cache for a handle, count through it, mark
    the process as seen. -/
theorem processRecord_counted {x : Loop × MemDelta} (hc : CacheOk E x.1.metrics x.1.cache)
    {env : LoopEnv} (henv : E env.cacheEnv) (args : Args) {r : Record} (hr : r.count ≠ 0) :
    Counted E x.1 (Loop.processRecord args env x r).1 r := by
  rw [Loop.processRecord_of_some args env (Record.request_eq_some.mpr ⟨hr, rfl⟩)]
  obtain ⟨hok, hsilent, -, key', ⟨-, hsame⟩, hhandle⟩ :=
    Cache.getOrCreate_served hc henv x.1.kernelNames (r.event_pid.trans r.metricKey_pid.symm)
      args.limits
  have hcount := r.write_adds hhandle
  have htouch := touchPid_silent { (x.1.getHandle args env r.metricKey r.event).2 with
    metrics := r.write (x.1.getHandle args env r.metricKey r.event).2.metrics
      (x.1.getHandle args env r.metricKey r.event).1 } env r.pid
  refine ⟨?_, _, key', _, ?_, hhandle.labels, (hsilent.adds.trans hcount).silent htouch⟩
  · intro k h hk
    exact (hok k h hk).mono (hcount.ext.trans htouch.ext)
  · intro hdrops
    -- drops never go down, so none happened in the cache request either
    have hle : (x.1.getHandle args env r.metricKey r.event).2.metrics.cardinalityDrops ≤
        x.1.metrics.cardinalityDrops := hdrops ▸ hcount.drops.trans htouch.drops
    exact hsame (le_antisymm hle hsilent.drops)

end Profi
