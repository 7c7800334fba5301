import Profi.Eviction
import Profi.LoopCache

/-!
# Series of Evicted Processes

Series that are labelled with a process are made in four places: the handle cache, the active
memory update of a tick, and, in the gc tick after the eviction, the hang detector and the
straggler ratios. The eviction only removes the first kind. `GcSys` adds the detector and the
ratios to the system, with the windows of durations the ratios are computed from.

- counters go with their handles: a process that is gone is not booked, so it has no handles
- the other series are never removed, so at a gc tick an evicted process must have had none, and
  must not be found by the detector or the ratios (`GcSys.noSeries_run_iff`)
-/

namespace Profi

variable {n : ℕ}

/-! ## Windows of durations -/

/-- `NCCL_WINDOW_SIZE`. -/
def ncclWindowSize : ℕ := 100

/-- `NCCL_BUCKET_MIDPOINTS_S`, in nanoseconds. The products with 1e9 are exact. -/
def ncclBucketMidpointsNs : List U64 :=
  [5000, 30000, 75000, 300000, 750000, 3000000, 7500000, 30000000, 75000000, 300000000, 750000000,
    2000000000]

/-- `nccl_durations`, by process and operation. -/
abbrev NcclDurations := FinMap (U32 × EventType) (List U64)

/-- `window.push_back`; a full window loses its oldest value. -/
def pushBack (window : List U64) (durNs : U64) : List U64 :=
  (if window.length ≥ ncclWindowSize then window.tail else window) ++ [durNs]

/-- `entry(..).or_insert_with(..)` and the pushes. -/
def NcclDurations.push (durations : NcclDurations) (pid : U32) (eventType : EventType)
    (values : List U64) : NcclDurations :=
  durations.insert (pid, eventType)
    (values.foldl pushBack ((durations.lookup (pid, eventType)).getD []))

/-- What a record adds to the windows: a ring event its duration, a drained NCCL row the midpoint
    of each bucket somebody counted in. -/
def Record.pushDurations (durations : NcclDurations) : Record → NcclDurations
  | .ring event =>
    if profiIsNcclEvent event.eventType ∧ event.durationNs > 0 then
      durations.push event.pid event.eventType [event.durationNs]
    else durations
  | .nccl key perCpu =>
    if (perCpu.map (·.count)).sum = 0 then durations
    else
      let buckets := sumBuckets (perCpu.map (·.bucketCounts))
      durations.push key.pid key.eventType
        (((ncclBucketMidpointsNs.zip buckets).filter fun b => b.2 ≠ 0).map Prod.fst)
  | .aggregated _ _ => durations
  | .launch _ _ => durations

/-! ## Stragglers and hangs -/

/-- What a gc tick reads besides the environment of the loop: the clock of the hang detector and
    the orders in which the tables are walked. -/
structure GcEnv where
  nowNs : U64
  inflightOrder : KeyOrder U64
  windowOrder : KeyOrder (U32 × EventType)
  opOrder : KeyOrder EventType

def GcEnv.bare : GcEnv where
  nowNs := 0
  inflightOrder := KeyOrder.asListed _
  windowOrder := KeyOrder.asListed _
  opOrder := KeyOrder.asListed _

/-- The 95th percentile of a window. On the lengths a window can have, 10 to 100, the product
    `len * 0.95` is rounded down to this quotient. -/
def p95 (window : List U64) : U64 :=
  let sorted := window.mergeSort fun a b => a.toNat ≤ b.toNat
  sorted.getD (min (sorted.length * 95 / 100) (sorted.length - 1)) 0

/-- The processes with a long enough window for an operation. -/
def pidP95s (env : GcEnv) (durations : NcclDurations) (op : EventType) : List (U32 × U64) :=
  (env.windowOrder.order durations.keys).filterMap fun k =>
    match durations.lookup k with
    | some window => if k.2 = op ∧ window.length ≥ 10 then some (k.1, p95 window) else none
    | none => none

/-- The processes whose ratio a gc tick sets, with the operation and the ratio to the median. The
    gauge holds a rounded quotient, this is the exact one. -/
def stragglers (env : GcEnv) (durations : NcclDurations) : List (U32 × EventType × ℚ) :=
  (env.opOrder.order (durations.keys.map Prod.snd).dedup).flatMap fun op =>
    let sorted := (pidP95s env durations op).mergeSort fun a b => a.2.toNat ≤ b.2.toNat
    let median := (sorted.getD (sorted.length / 2) (0, 0)).2
    -- one process alone is not compared
    if sorted.length < 2 ∨ median = 0 then []
    else sorted.map fun x => (x.1, op, (x.2.toNat : ℚ) / median.toNat)

/-- The calls in flight the hang detector reports. -/
def hung (timeoutNs : U64) (env : GcEnv) (inflight : FinMap U64 EntryData) :
    List (U32 × EventType) :=
  if timeoutNs > 0 then
    (env.inflightOrder.order inflight.keys).filterMap fun key =>
      match inflight.lookup key with
      | some entry =>
        -- `saturating_sub`
        if profiIsNcclEvent entry.eventType ∧
            env.nowNs.toNat - entry.timestampNs.toNat > timeoutNs.toNat then
          some ((key >>> 32).setWidth 32, entry.eventType)
        else none
      | none => none
  else []

/-- The label names of `profi_nccl_straggler_ratio`. -/
def stragglerLabels : List String := ["pid", "gpu", "gpu_uuid", "operation"]

/-- The label names of `profi_nccl_hang_detected_total`. -/
def hangLabels : List String := ["operation", "pid"]

/-! ## The system -/

/-- The system with the detectors of the gc tick. `gone` is a record for specifications, of the
    processes that were evicted and had no event since. -/
structure GcSys (n : ℕ) where
  sys : Sys n
  ncclDurations : NcclDurations
  ncclStragglerRatio : MetricVec ℚ
  ncclHangDetected : MetricVec ℕ
  gone : Finset U32

/-- An event, with what a gc tick reads besides. -/
structure GcEvent (n : ℕ) where
  event : Event n
  env : GcEnv

namespace GcSys

variable (args : Args) (timeoutNs : U64)

def init (n : ℕ) : GcSys n where
  sys := .init n args
  ncclDurations := ∅
  ncclStragglerRatio := .empty
  ncclHangDetected := .empty
  gone := ∅

/-- The label values of a ratio. -/
def ratioLabels (env : LoopEnv) (x : U32 × EventType × ℚ) : List String :=
  let labels := env.cacheEnv.lookup x.1 ""
  [decString x.1, labels.gpu, labels.gpuUuid, operationName x.2.1]

/-- The ratios a step sets. -/
def ratios (s : GcSys n) (e : GcEvent n) : List (U32 × EventType × ℚ) :=
  match e.event with
  | .gcTick _ => stragglers e.env s.ncclDurations
  | _ => []

/-- The hangs a step reports. -/
def hangs (s : GcSys n) (e : GcEvent n) : List (U32 × EventType) :=
  match e.event with
  | .gcTick _ => hung timeoutNs e.env s.sys.bpf.inflight
  | _ => []

def step (s : GcSys n) (e : GcEvent n) : GcSys n where
  sys := s.sys.step args e.event
  ncclDurations := (s.sys.records args e.event).foldl Record.pushDurations s.ncclDurations
  ncclStragglerRatio := (s.ratios e).foldl
    (fun m x => m.modifyAt 0 (ratioLabels e.event.env x) fun _ => x.2.2) s.ncclStragglerRatio
  ncclHangDetected := (s.hangs timeoutNs e).foldl
    (fun m x => m.modifyAt 0 [operationName x.2, decString x.1] (· + 1)) s.ncclHangDetected
  gone := s.sys.nextGone args e.event s.gone

/-- A series labelled with the process is exported that does not go with a handle. -/
def Labelled (s : GcSys n) (p : U32) : Prop :=
  s.sys.loop.metrics.cudaActiveMemory.Exports activeMemLabels "pid" (decString p) ∨
    s.ncclStragglerRatio.Exports stragglerLabels "pid" (decString p) ∨
    s.ncclHangDetected.Exports hangLabels "pid" (decString p)

/-- No series of any family is labelled with a process that is gone. -/
def NoSeries (s : GcSys n) : Prop :=
  ∀ p ∈ s.gone,
    (∀ family, ¬(s.sys.loop.metrics.counters family).Exports family.labelNames "pid"
      (decString p)) ∧ ¬s.Labelled p

/-- A gc tick evicts no process that has series beside its handles, and finds neither a straggler
    nor a hang of a process that is gone or evicted. -/
def GcClean (s : GcSys n) (e : GcEvent n) : Prop :=
  (∀ p ∈ s.sys.evictedPids args e.event, ¬s.Labelled p) ∧
    ∀ p, p ∈ s.gone ∨ p ∈ s.sys.evictedPids args e.event →
      (∀ x ∈ s.ratios e, x.1 ≠ p) ∧ ∀ x ∈ s.hangs timeoutNs e, x.1 ≠ p

end GcSys

/-! ## Counters go with their handles -/

/-- The counters that are reached through a handle are those with a process in their labels. -/
theorem CounterFamily.pid_label {family : CounterFamily} {labels : List String} {v : String}
    (h : ("pid", v) ∈ family.labelNames.zip labels) :
    family.byLabels = false ∧ labels[family.pidIndex]? = some v := by
  have hvalue := MetricVec.getElem?_idxOf_of_mem_zip family.labelNames_nodup h
  have hname : "pid" ∈ family.labelNames := (List.of_mem_zip h).1
  have hindex : family.byLabels = false ∧ family.labelNames.idxOf "pid" = family.pidIndex := by
    clear hvalue h
    revert hname
    cases family <;> decide
  exact ⟨hindex.1, hindex.2 ▸ hvalue⟩

/-- A counter that is exported for a process is one of a handle of the process. -/
theorem CacheState.Owned.exists_handle {s : CacheState} (hs : s.Owned) {family : CounterFamily}
    {p : U32}
    (h : (s.metrics.counters family).Exports family.labelNames "pid" (decString p)) :
    ∃ k ∈ s.cache.handles, k.pid = p := by
  obtain ⟨labels, hvalue, hpid⟩ := h
  obtain ⟨hby, hindex⟩ := CounterFamily.pid_label hpid
  have hexported : ∃ i, s.metrics.counterIndex (family, labels) = some i := by
    apply Option.ne_none_iff_exists'.mp
    intro hnone
    rw [MetricVec.value_eq_none_iff.mpr hnone] at hvalue
    cases hvalue
  obtain ⟨i, hi⟩ := hexported
  obtain ⟨k, handles, hlookup, howned⟩ := hs.owner (family, labels) i hby hi
  refine ⟨k, FinMap.mem_iff_lookup.mpr ⟨handles, hlookup⟩, ?_⟩
  obtain ⟨mode, env, kernelNames, event, -, hevent, hlabels⟩ := (hs.labels k handles hlookup).labels
  rw [hlabels] at howned
  have howner := (ownedSeries_pid hevent howned).2
  exact decString_injective (Option.some.inj (howner.symm.trans hindex))

namespace Sys

variable {args : Args}

/-- A process that is gone has no handles, so no counters. -/
theorem not_exports_of_unseen {s : Sys n} {gone : Finset U32} (howned : s.loop.cacheState.Owned)
    (hbooked : s.loop.Booked) (hunseen : s.Unseen gone) {p : U32} (hp : p ∈ gone)
    (family : CounterFamily) :
    ¬(s.loop.metrics.counters family).Exports family.labelNames "pid" (decString p) := by
  intro h
  obtain ⟨k, hk, rfl⟩ := howned.exists_handle h
  exact hunseen k.pid hp ((hbooked.handles k hk).resolve_right (by simp))

end Sys

/-! ## The active memory gauge -/

namespace Loop

variable {args : Args} {env : LoopEnv}

theorem processRecord_cudaActiveMemory (x : Loop × MemDelta) (r : Record) :
    (processRecord args env x r).1.metrics.cudaActiveMemory = x.1.metrics.cudaActiveMemory := by
  cases hrequest : r.request with
  | none => rw [processRecord_of_none args env hrequest]
  | some key =>
    rw [processRecord_of_some args env hrequest]
    have htouch : ∀ l : Loop,
        (l.touchPid env r.pid).metrics.cudaActiveMemory = l.metrics.cudaActiveMemory := by
      intro l
      rw [touchPid_frame]
    rw [htouch]
    have hwrite := Metrics.gauges_write (x.1.getHandle args env key r.event).2.metrics
      (x.1.getHandle args env key r.event).1 r
    have hrequested := x.1.cache.getOrCreate_gauges args.limits key x.1.metrics env.cacheEnv
      r.event x.1.kernelNames
    exact congrArg Prod.snd (hwrite.trans hrequested)

theorem gcTick_cudaActiveMemory (l : Loop) :
    (l.gcTick args env).metrics.cudaActiveMemory = l.metrics.cudaActiveMemory := by
  have hevict : ∀ (s : Metrics × Cache) (pid : U32),
      (Cache.evictPid s pid).1.cudaActiveMemory = s.1.cudaActiveMemory :=
    fun s pid => congrArg Prod.snd (invalidatePids_gauges s.2 [pid] s.1)
  have hall := Runs.foldl_frame (fun s : Metrics × Cache => s.1.cudaActiveMemory) Cache.evictPid
    hevict (l.cache.stalePids env.now (args.gcInterval * 1000000000)) (l.metrics, l.cache)
  show (l.cache.gc l.metrics env.now _).2.1.cudaActiveMemory = _
  rw [Cache.gc_frame]
  exact hall

theorem registerKernel_cudaActiveMemory (l : Loop) (reg : KernelRegEvent) :
    (registerKernel env l reg).metrics.cudaActiveMemory = l.metrics.cudaActiveMemory := by
  rw [registerKernel_frame]

theorem invalidateChanged_cudaActiveMemory (l : Loop) :
    (l.invalidateChanged env).metrics.cudaActiveMemory = l.metrics.cudaActiveMemory := by
  rw [invalidateChanged_eq]
  exact congrArg Prod.snd (invalidatePids_gauges l.cache env.changedPids l.metrics)

theorem mem_delta_processRecord {x : Loop × MemDelta} {r : Record} {p : U32}
    (h : p ∈ (processRecord args env x r).2) :
    p ∈ x.2 ∨ r.request.isSome = true ∧ p = r.pid := by
  cases hrequest : r.request with
  | none =>
    rw [processRecord_of_none args env hrequest] at h
    exact .inl h
  | some metricKey =>
    cases r with
    | aggregated key perCpu =>
      have hcount : (perCpu.map (·.count)).sum ≠ 0 := (Record.request_eq_some.mp hrequest).1
      simp only [processRecord, processAggregated] at h
      rw [if_neg hcount] at h
      exact (MemDelta.mem_of_mem_add h).imp_right fun hp => ⟨rfl, hp⟩
    | ring event => exact .inl h
    | launch key perCpu => exact .inl h
    | nccl key perCpu => exact .inl h

/-- The active memory changes for the processes of the records. -/
theorem mem_delta_records {records : List Record} {x : Loop × MemDelta} {p : U32}
    (h : p ∈ (records.foldl (processRecord args env) x).2) :
    p ∈ x.2 ∨ ∃ r ∈ records, r.request.isSome = true ∧ p = r.pid := by
  refine Runs.foldl_origin (I := fun x : Loop × MemDelta => p ∈ x.2) (fun x r hx => ?_) h
  exact mem_delta_processRecord hx

/-- The gauge is set for the processes whose memory changed. -/
theorem exports_flushActiveMemory {l : Loop} {delta : MemDelta} {v : String}
    (h : (l.flushActiveMemory env delta).metrics.cudaActiveMemory.Exports activeMemLabels "pid" v) :
    l.metrics.cudaActiveMemory.Exports activeMemLabels "pid" v ∨ ∃ p ∈ delta, v = decString p := by
  have hentry : ∀ (l : Loop) (e : (_ : U32) × I64),
      (l.addActiveMemory env e.1 e.2).metrics.cudaActiveMemory.Exports activeMemLabels "pid" v →
      l.metrics.cudaActiveMemory.Exports activeMemLabels "pid" v ∨ v = decString e.1 := by
    intro l e h
    -- the process is the first label
    refine (MetricVec.exports_modifyAt.mp h).imp_right fun h => ?_
    exact (Option.some.inj (MetricVec.getElem?_idxOf_of_mem_zip (by decide) h)).symm
  rcases Runs.foldl_origin (I := fun l : Loop =>
    l.metrics.cudaActiveMemory.Exports activeMemLabels "pid" v) hentry h with h | ⟨e, he, hv⟩
  · exact .inl h
  · exact .inr ⟨e.1, List.mem_map_of_mem (f := Sigma.fst) he, hv⟩

end Loop

namespace Sys

variable {args : Args}

/-- Only an event of the process makes its gauge. -/
theorem exports_cudaActiveMemory_step {s : Sys n} {e : Event n} {p : U32}
    (h : (s.step args e).loop.metrics.cudaActiveMemory.Exports activeMemLabels "pid"
      (decString p)) :
    s.loop.metrics.cudaActiveMemory.Exports activeMemLabels "pid" (decString p) ∨
      p ∈ s.processed args e := by
  have hstart : (s.armStart args e).metrics.cudaActiveMemory = s.loop.metrics.cudaActiveMemory := by
    cases e with
    | consume env => exact s.loop.invalidateChanged_cudaActiveMemory
    | aggTick env => rw [armStart_aggTick]
    | gcTick env => exact s.loop.gcTick_cudaActiveMemory
    | _ => rfl
  have hhandled : (s.handled args e).1.metrics.cudaActiveMemory =
      s.loop.metrics.cudaActiveMemory :=
    (Runs.foldl_frame (fun x : Loop × MemDelta => x.1.metrics.cudaActiveMemory) _
      Loop.processRecord_cudaActiveMemory _ _).trans hstart
  rw [step_loop] at h
  cases e with
  | aggTick env =>
    -- the flush sets the gauges of the processes with a delta, and no others
    rcases Loop.exports_flushActiveMemory h with h | ⟨q, hq, hv⟩
    · exact .inl (hhandled ▸ h)
    · rcases Loop.mem_delta_records hq with hq | ⟨r, hr, hrequest, rfl⟩
      · exact absurd hq (AList.notMem_empty q)
      · rw [decString_injective hv]
        exact .inr (mem_processed_of_record hr hrequest)
  | consume env =>
    have hregs := Runs.foldl_frame (fun l : Loop => l.metrics.cudaActiveMemory)
      (Loop.registerKernel env) Loop.registerKernel_cudaActiveMemory
      (s.registrations args (.consume env)) (s.handled args (.consume env)).1
    rw [← hhandled, ← hregs]
    exact .inl h
  | _ => exact .inl (hhandled ▸ h)

end Sys

/-! ## Runs -/

namespace GcSys

variable {args : Args} {timeoutNs : U64} {s : GcSys n}

/-- What holds in every state of the system and does not depend on the detectors. -/
structure Sound (s : GcSys n) : Prop where
  owned : s.sys.loop.cacheState.Owned
  booked : s.sys.loop.Booked
  unseen : s.sys.Unseen s.gone

theorem Sound.step (h : s.Sound) (e : GcEvent n) : (s.step args timeoutNs e).Sound where
  owned := (s.sys.step_reaches e.event).owned h.owned
  booked := Sys.booked_step h.booked e.event
  unseen := Sys.unseen_step h.unseen e.event

variable {e : GcEvent n} {p : U32}

theorem exports_ratio_step :
    (s.step args timeoutNs e).ncclStragglerRatio.Exports stragglerLabels "pid" (decString p) ↔
      s.ncclStragglerRatio.Exports stragglerLabels "pid" (decString p) ∨
        ∃ x ∈ s.ratios e, x.1 = p := by
  have hpid : ∀ x : U32 × EventType × ℚ,
      ("pid", decString p) ∈ stragglerLabels.zip (ratioLabels e.event.env x) ↔ x.1 = p := by
    intro x
    simp [stragglerLabels, ratioLabels, decString_injective.eq_iff, eq_comm]
  refine MetricVec.exports_foldl_modifyAt.trans ?_
  simp only [hpid]

theorem exports_hang_step :
    (s.step args timeoutNs e).ncclHangDetected.Exports hangLabels "pid" (decString p) ↔
      s.ncclHangDetected.Exports hangLabels "pid" (decString p) ∨
        ∃ x ∈ s.hangs timeoutNs e, x.1 = p := by
  have hpid : ∀ x : U32 × EventType,
      ("pid", decString p) ∈ hangLabels.zip [operationName x.2, decString x.1] ↔ x.1 = p := by
    intro x
    simp [hangLabels, decString_injective.eq_iff, eq_comm]
  refine MetricVec.exports_foldl_modifyAt.trans ?_
  simp only [hpid]

/-- A gc tick keeps the series beside the handles and adds those of the processes it finds. -/
theorem labelled_gcTick {env : LoopEnv} {gcEnv : GcEnv} :
    (s.step args timeoutNs ⟨.gcTick env, gcEnv⟩).Labelled p ↔
      s.Labelled p ∨ (∃ x ∈ s.ratios ⟨.gcTick env, gcEnv⟩, x.1 = p) ∨
        ∃ x ∈ s.hangs timeoutNs ⟨.gcTick env, gcEnv⟩, x.1 = p := by
  have hgauge : (s.step args timeoutNs ⟨.gcTick env, gcEnv⟩).sys.loop.metrics.cudaActiveMemory =
      s.sys.loop.metrics.cudaActiveMemory := s.sys.loop.gcTick_cudaActiveMemory
  unfold Labelled
  rw [hgauge, exports_ratio_step, exports_hang_step, or_or_or_comm, ← or_assoc]

/-- Only a gc tick looks for stragglers and hangs. -/
theorem found_eq_nil (s : GcSys n) (timeoutNs : U64) (hgc : ∀ env, e.event ≠ .gcTick env) :
    s.ratios e = [] ∧ s.hangs timeoutNs e = [] := by
  unfold ratios hangs
  split
  next env heq => exact absurd heq (hgc env)
  · exact ⟨rfl, rfl⟩

/-- The other steps make such series only for processes they have events of. -/
theorem labelled_step (hgc : ∀ env, e.event ≠ .gcTick env)
    (h : (s.step args timeoutNs e).Labelled p) :
    s.Labelled p ∨ p ∈ s.sys.processed args e.event := by
  obtain ⟨hratios, hhangs⟩ := found_eq_nil s timeoutNs hgc
  rcases h with h | h | h
  · exact (Sys.exports_cudaActiveMemory_step h).imp_left .inl
  · rw [exports_ratio_step, hratios] at h
    exact .inl (.inr (.inl (h.resolve_right (by simp))))
  · rw [exports_hang_step, hhangs] at h
    exact .inl (.inr (.inr (h.resolve_right (by simp))))

/-- A gc tick leaves the evicted without series exactly if it is clean. -/
theorem noSeries_gcTick (hsound : s.Sound) (h : s.NoSeries) (env : LoopEnv) (gcEnv : GcEnv) :
    (s.step args timeoutNs ⟨.gcTick env, gcEnv⟩).NoSeries ↔
      s.GcClean args timeoutNs ⟨.gcTick env, gcEnv⟩ := by
  have hgone : ∀ p, p ∈ (s.step args timeoutNs ⟨.gcTick env, gcEnv⟩).gone ↔
      p ∈ s.gone ∨ p ∈ s.sys.evictedPids args (.gcTick env) := by
    intro p
    refine Sys.mem_nextGone.trans (and_iff_left ?_)
    exact List.not_mem_nil
  constructor
  · intro hnone
    refine ⟨fun p hp hlabelled => ?_, fun p hp => ⟨fun x hx hxp => ?_, fun x hx hxp => ?_⟩⟩
    · exact (hnone p ((hgone p).mpr (.inr hp))).2 (labelled_gcTick.mpr (.inl hlabelled))
    · exact (hnone p ((hgone p).mpr hp)).2 (labelled_gcTick.mpr (.inr (.inl ⟨x, hx, hxp⟩)))
    · exact (hnone p ((hgone p).mpr hp)).2 (labelled_gcTick.mpr (.inr (.inr ⟨x, hx, hxp⟩)))
  · rintro ⟨hclean, hfound⟩ p hp
    have hsound' : (s.step args timeoutNs ⟨.gcTick env, gcEnv⟩).Sound := hsound.step _
    refine ⟨Sys.not_exports_of_unseen hsound'.owned hsound'.booked hsound'.unseen hp, ?_⟩
    rw [hgone] at hp
    intro hlabelled
    rcases labelled_gcTick.mp hlabelled with hbefore | ⟨x, hx, hxp⟩ | ⟨x, hx, hxp⟩
    · rcases hp with hp | hp
      · exact (h p hp).2 hbefore
      · exact hclean p hp hbefore
    · exact (hfound p hp).1 x hx hxp
    · exact (hfound p hp).2 x hx hxp

theorem gcClean_of_ne (hgc : ∀ env, e.event ≠ .gcTick env) : s.GcClean args timeoutNs e := by
  obtain ⟨hratios, hhangs⟩ := found_eq_nil s timeoutNs hgc
  unfold GcClean
  rw [Sys.evictedPids_eq_nil hgc, hratios, hhangs]
  simp

/-- Only a gc tick can leave a series of the evicted. -/
theorem noSeries_step (hsound : s.Sound) (h : s.NoSeries) (e : GcEvent n) :
    (s.step args timeoutNs e).NoSeries ↔ s.GcClean args timeoutNs e := by
  by_cases hgc : ∃ env, e.event = .gcTick env
  · obtain ⟨event, gcEnv⟩ := e
    obtain ⟨env, rfl⟩ := hgc
    exact noSeries_gcTick hsound h env gcEnv
  · have hne : ∀ env, e.event ≠ .gcTick env := fun env heq => hgc ⟨env, heq⟩
    refine iff_of_true (fun p hp => ?_) (gcClean_of_ne hne)
    have hsound' : (s.step args timeoutNs e).Sound := hsound.step e
    refine ⟨Sys.not_exports_of_unseen hsound'.owned hsound'.booked hsound'.unseen hp, ?_⟩
    obtain ⟨hgone, hquiet⟩ := Sys.mem_nextGone.mp hp
    rw [Sys.evictedPids_eq_nil hne] at hgone
    intro hlabelled
    rcases labelled_step hne hlabelled with hbefore | hprocessed
    · exact (h p (hgone.resolve_right (by simp))).2 hbefore
    · exact hquiet hprocessed

theorem sound_init (args : Args) (n : ℕ) : (init args n).Sound where
  owned := CacheState.owned_init args.kernelMode
  booked := Loop.booked_init args
  unseen := by simp [init, Sys.Unseen]

/-- In every run, no series is labelled with a process that is gone in any state reached, exactly if
    every gc tick is clean. -/
theorem noSeries_run_iff (args : Args) (timeoutNs : U64) (n : ℕ) (es : List (GcEvent n)) :
    (∀ k, (Runs.run (step args timeoutNs) (init args n) (es.take k)).NoSeries) ↔
      Runs.Along (step args timeoutNs) (GcClean args timeoutNs) (init args n) es := by
  have hstart : (init args n).NoSeries := by
    intro p hp
    simp [init] at hp
  exact Runs.forall_take_iff_along (P := fun _ _ => True) (I := fun s : GcSys n => s.Sound)
    (fun s e h _ => h.step e) (fun s e h _ hs => noSeries_step h hs e) (sound_init args n) hstart
    (Runs.along_true _ _ _)

/-- Process 7 allocates 100 bytes, a tick sets its gauge, and a gc tick evicts it. -/
def allocateAndIdle : List (GcEvent 1) :=
  let ctx (ktimeNs : U64) : Ctx 1 :=
    { Sys.bareCtx 0x700000007 ktimeNs 0 with
      readUser := fun ptr => if ptr = 8 then some 4096 else none }
  [⟨.enter (.cudaMalloc 8 100) (ctx 1), .bare⟩, ⟨.ret (ctx 2), .bare⟩, ⟨.aggTick .bare, .bare⟩,
    ⟨.gcTick { LoopEnv.bare with now := 1000000000000 }, .bare⟩]

/-- The gauge outlives its process. -/
theorem gauge_of_evicted :
    let s := Runs.run (step {} 60000000000) (init {} 1) allocateAndIdle
    7 ∈ s.gone ∧
      s.sys.loop.metrics.cudaActiveMemory.value ["7", "", "", "", "", "", ""] = some 100 := by
  decide +kernel

end GcSys

end Profi
