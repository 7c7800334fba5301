import Profi.Writes

/-!
# The Processes the Loop Keeps Track Of

`last_seen` is the table `gc` reaps processes from. Handles and the per-process sets are made
before a process is entered there, and the `tracked_pids` gauge is set before as well. A record
leaves one process to be entered (`Loop.BookedBut`), which the touch at its end does; so between
two arms everything is booked (`Sys.booked_run`).
-/

namespace Profi

variable {n : ℕ}

/-! ## What does not set the gauges -/

namespace Metrics

/-- The gauges of the loop. -/
def gauges (m : Metrics) : ℕ × MetricVec I64 := (m.trackedPids, m.cudaActiveMemory)

variable (m : Metrics)

@[simp] theorem gauges_counter (family : CounterFamily) (labels : List String) :
    (m.counter family labels).2.gauges = m.gauges := rfl

@[simp] theorem gauges_histogram (family : HistogramFamily) (labels : List String) :
    (m.histogram family labels).2.gauges = m.gauges := rfl

@[simp] theorem gauges_counterOpt (family : CounterFamily) (labels : Option (List String)) :
    (m.counterOpt family labels).2.gauges = m.gauges := by
  cases labels <;> rfl

@[simp] theorem gauges_histogramOpt (family : HistogramFamily)
    (labels : Option (List String)) :
    (m.histogramOpt family labels).2.gauges = m.gauges := by
  cases labels <;> rfl

theorem gauges_createHandles (eventType : EventType) (l : HandleLabels) :
    (createHandles m eventType l).2.gauges = m.gauges := by
  simp [createHandles]

theorem gauges_removeHandleMetrics (eventType : EventType) (h : CachedHandles) :
    (removeHandleMetrics m eventType h).gauges = m.gauges := by
  rw [removeHandleMetrics_eq]
  exact Runs.foldl_frame gauges remove (by rintro m (_ | _) <;> rfl) _ m

/-- What is counted through a handle. -/
theorem gauges_write (h : CachedHandles) (r : Record) : (r.write m h).gauges = m.gauges := by
  refine r.write_invariant (I := fun m' => m'.gauges = m.gauges) ?_ rfl
  intro m' w hm' hcounts
  cases w with
  | incBy c x => exact hm'
  | incLabels family hfamily labels x => exact hm'
  | observe h durationNs => exact hm'
  | setTrackedPids x => exact hcounts.elim
  | setActiveMemory labels bytes => exact hcounts.elim

end Metrics

/-! ## What a request enters -/

namespace Cache

theorem mem_collapse {perPid : FinMap U32 (List U64)} {limit : ℕ} {pid : U32} {x : U64} {p : U32}
    (h : p ∈ (collapse perPid limit pid x).2) : p ∈ perPid ∨ p = pid := by
  have hinsert : ∀ known : List U64, p ∈ perPid.insert pid known → p ∈ perPid ∨ p = pid :=
    fun _ hmem => ((AList.mem_insert _).mp hmem).symm
  unfold collapse at h
  simp only at h
  split at h
  · exact hinsert _ h
  · split at h
    · exact hinsert _ h
    · exact hinsert _ h

variable (cache : Cache) (limits : CardinalityLimits) (key : MetricKey)

/-- Collapsing a key enters its process in the sets, and nowhere else. -/
theorem mem_collapseKey :
    (∀ p ∈ (cache.collapseKey limits key).2.streamsPerPid,
        p ∈ cache.streamsPerPid ∨ p = key.pid) ∧
      (∀ p ∈ (cache.collapseKey limits key).2.kernelsPerPid,
        p ∈ cache.kernelsPerPid ∨ p = key.pid) ∧
      (cache.collapseKey limits key).2.lastSeen = cache.lastSeen := by
  unfold collapseKey collapseStream collapseKernel
  simp only
  refine ⟨fun p hp => ?_, fun p hp => ?_, ?_⟩
  · split at hp <;> split at hp <;> first | exact mem_collapse hp | exact .inl hp
  · split at hp <;> split at hp <;> first | exact mem_collapse hp | exact .inl hp
  · split <;> split <;> rfl

theorem getOrCreate_lastSeen (m : Metrics) (env : CacheEnv) (event : CudaEvent)
    (kernelNames : KernelNames) :
    (cache.getOrCreate key m env event kernelNames limits).2.2.lastSeen = cache.lastSeen := by
  have hcollapse := (cache.mem_collapseKey limits key).2.2
  obtain ⟨drops, ⟨-, h, -, heq⟩ | ⟨-, heq⟩⟩ :=
    cache.getOrCreate_eq env limits key m event kernelNames
  · rw [heq]
    exact hcollapse
  · rw [heq]
    exact hcollapse

theorem getOrCreate_gauges (m : Metrics) (env : CacheEnv) (event : CudaEvent)
    (kernelNames : KernelNames) :
    (cache.getOrCreate key m env event kernelNames limits).2.1.gauges = m.gauges := by
  obtain ⟨drops, ⟨-, h, -, heq⟩ | ⟨-, heq⟩⟩ :=
    cache.getOrCreate_eq env limits key m event kernelNames
  · rw [heq]
    rfl
  · rw [heq]
    exact Metrics.gauges_createHandles _ _ _

/-- A request enters its process in the table of handles, and nowhere else. -/
theorem mem_getOrCreate_handles (m : Metrics) (env : CacheEnv) (event : CudaEvent)
    (kernelNames : KernelNames) {k : MetricKey}
    (hk : k ∈ (cache.getOrCreate key m env event kernelNames limits).2.2.handles) :
    k ∈ cache.handles ∨ k.pid = key.pid := by
  rw [(cache.getOrCreate_handleFor env limits key m event kernelNames).2] at hk
  split at hk
  · rcases (AList.mem_insert _).mp hk with rfl | hk
    · exact .inr (cache.handleFor_pid env limits key)
    · exact .inl hk
  · exact .inl hk

end Cache

/-! ## The invariant -/

namespace Loop

/-- The processes of the handles and of the per-process sets are booked in `last_seen`, but for
    `pid`, and the gauge shows how many are booked. -/
structure BookedBut (pid : Option U32) (l : Loop) : Prop where
  handles : ∀ k ∈ l.cache.handles, k.pid ∈ l.cache.lastSeen ∨ some k.pid = pid
  streams : ∀ p ∈ l.cache.streamsPerPid, p ∈ l.cache.lastSeen ∨ some p = pid
  kernels : ∀ p ∈ l.cache.kernelsPerPid, p ∈ l.cache.lastSeen ∨ some p = pid
  gauge : l.metrics.trackedPids = l.cache.lastSeen.size

/-- Every process that occurs in the cache is booked in `last_seen`. -/
abbrev Booked (l : Loop) : Prop := l.BookedBut none

variable {args : Args} {env : LoopEnv} {l l' : Loop} {pid : Option U32}

/-- The invariant is about the cache and the gauge. -/
theorem BookedBut.of_eq (h : l.BookedBut pid) (hcache : l'.cache = l.cache)
    (hgauge : l'.metrics.trackedPids = l.metrics.trackedPids) : l'.BookedBut pid where
  handles := by
    rw [hcache]
    exact h.handles
  streams := by
    rw [hcache]
    exact h.streams
  kernels := by
    rw [hcache]
    exact h.kernels
  gauge := by
    rw [hcache, hgauge]
    exact h.gauge

/-- A request leaves its process to be booked. -/
theorem Booked.getHandle (h : l.Booked) (key : MetricKey) (event : CudaEvent) :
    (l.getHandle args env key event).2.BookedBut (some key.pid) := by
  have hlast := l.cache.getOrCreate_lastSeen args.limits key l.metrics env.cacheEnv event
    l.kernelNames
  have hperPid := l.cache.getOrCreate_perPid key l.metrics env.cacheEnv event l.kernelNames
    args.limits
  obtain ⟨hstreams, hkernels, -⟩ := l.cache.mem_collapseKey args.limits key
  have hbooked : ∀ {p : U32}, p ∈ l.cache.lastSeen ∨ some p = none →
      p ∈ l.cache.lastSeen ∨ some p = some key.pid := fun hp => hp.imp_right (by simp)
  constructor
  · intro k hk
    show k.pid ∈ (l.cache.getOrCreate _ _ _ _ _ _).2.2.lastSeen ∨ _
    rw [hlast]
    -- a new handle, stream or kernel is of the process of the key
    rcases l.cache.mem_getOrCreate_handles args.limits key l.metrics env.cacheEnv event
      l.kernelNames hk with hk | hpid
    · exact hbooked (h.handles k hk)
    · exact .inr (congrArg some hpid)
  · intro p hp
    show p ∈ (l.cache.getOrCreate _ _ _ _ _ _).2.2.lastSeen ∨ _
    rw [hlast]
    rcases hstreams p (hperPid.1 ▸ hp) with hp | hpid
    · exact hbooked (h.streams p hp)
    · exact .inr (congrArg some hpid)
  · intro p hp
    show p ∈ (l.cache.getOrCreate _ _ _ _ _ _).2.2.lastSeen ∨ _
    rw [hlast]
    rcases hkernels p (hperPid.2 ▸ hp) with hp | hpid
    · exact hbooked (h.kernels p hp)
    · exact .inr (congrArg some hpid)
  · show (l.cache.getOrCreate _ _ _ _ _ _).2.1.trackedPids =
      (l.cache.getOrCreate _ _ _ _ _ _).2.2.lastSeen.size
    rw [hlast]
    exact (congrArg Prod.fst (Cache.getOrCreate_gauges ..)).trans h.gauge

/-- The touch at the end of a record books its process. -/
theorem BookedBut.touchPid {p : U32} (h : l.BookedBut (some p)) : (l.touchPid env p).Booked := by
  have hmem : ∀ {q : U32}, q ∈ l.cache.lastSeen ∨ some q = some p →
      q ∈ l.cache.lastSeen.insert p env.now ∨ some q = none := by
    intro q hq
    left
    rw [AList.mem_insert]
    exact hq.symm.imp_left Option.some.inj
  refine ⟨fun k hk => hmem (h.handles k hk), fun q hq => hmem (h.streams q hq),
    fun q hq => hmem (h.kernels q hq), ?_⟩
  unfold Loop.touchPid
  split
  next hp =>
    -- a known process is entered again, so the count stays
    rw [h.gauge, ← FinMap.card_keySet, ← FinMap.card_keySet]
    congr 1
    ext q
    simp only [FinMap.mem_keySet, Cache.touch, AList.mem_insert]
    constructor
    · exact .inr
    · rintro (rfl | hq)
      · exact hp
      · exact hq
  next hp => exact (FinMap.size_insert_of_notMem hp env.now).symm

theorem Booked.processRecord {x : Loop × MemDelta} (h : x.1.Booked) (r : Record) :
    (Loop.processRecord args env x r).1.Booked := by
  cases hrequest : r.request with
  | none =>
    rw [processRecord_of_none args env hrequest]
    exact h
  | some key =>
    rw [processRecord_of_some args env hrequest]
    have hpid : key.pid = r.pid := by
      rw [← (Record.request_eq_some.mp hrequest).2, r.metricKey_pid]
    rw [← hpid]
    apply BookedBut.touchPid
    exact (h.getHandle key r.event).of_eq rfl (congrArg Prod.fst (Metrics.gauges_write _ _ r))

/-! ## Removals -/

theorem invalidatePids_lastSeen (cache : Cache) (pids : List U32) (m : Metrics) :
    (cache.invalidatePids pids m).2.lastSeen = cache.lastSeen := by
  refine Runs.foldl_frame (fun s : Metrics × Cache => s.2.lastSeen) Cache.removeKey ?_ _ (m, cache)
  intro s key
  unfold Cache.removeKey
  split <;> rfl

theorem invalidatePids_gauges (cache : Cache) (pids : List U32) (m : Metrics) :
    (cache.invalidatePids pids m).1.gauges = m.gauges := by
  refine Runs.foldl_frame (fun s : Metrics × Cache => s.1.gauges) Cache.removeKey ?_ _
    (m, cache)
  intro s key
  unfold Cache.removeKey
  split
  · exact Metrics.gauges_removeHandleMetrics _ _ _
  · rfl

/-- Dropping handles keeps the books: nobody leaves `last_seen`. -/
theorem Booked.invalidateChanged (h : l.Booked) : (l.invalidateChanged env).Booked := by
  rw [Loop.invalidateChanged_eq]
  have hlast := invalidatePids_lastSeen l.cache env.changedPids l.metrics
  have hsets := l.cache.invalidatePids_perPid env.changedPids l.metrics
  constructor
  · intro k hk
    rw [hlast]
    apply h.handles k
    obtain ⟨v, hv⟩ := FinMap.mem_iff_lookup.mp hk
    rw [Cache.lookup_invalidatePids] at hv
    split at hv
    · cases hv
    · exact FinMap.mem_iff_lookup.mpr ⟨v, hv⟩
  · show ∀ p ∈ (l.cache.invalidatePids _ _).2.streamsPerPid,
      p ∈ (l.cache.invalidatePids _ _).2.lastSeen ∨ _
    rw [hlast, hsets.1]
    exact h.streams
  · show ∀ p ∈ (l.cache.invalidatePids _ _).2.kernelsPerPid,
      p ∈ (l.cache.invalidatePids _ _).2.lastSeen ∨ _
    rw [hlast, hsets.2]
    exact h.kernels
  · show (l.cache.invalidatePids _ _).1.trackedPids =
      (l.cache.invalidatePids _ _).2.lastSeen.size
    rw [hlast]
    exact (congrArg Prod.fst (invalidatePids_gauges ..)).trans h.gauge

theorem lookup_foldl_evictPid_lastSeen (pids : List U32) (s : Metrics × Cache) (p : U32) :
    (pids.foldl Cache.evictPid s).2.lastSeen.lookup p =
      if p ∈ pids then none else s.2.lastSeen.lookup p := by
  refine Runs.lookup_foldl_eq_ite (fun s : Metrics × Cache => s.2.lastSeen.lookup)
    id (fun s pid p => ?_) pids s p
  simp only [Cache.evictPid, invalidatePids_lastSeen, FinMap.lookup_erase_eq_ite, id_eq]

/-- What is stale is taken out of `last_seen`. -/
theorem lookup_gc_lastSeen (cache : Cache) (m : Metrics) (now staleAfter : ℕ) (p : U32) :
    (cache.gc m now staleAfter).2.2.lastSeen.lookup p =
      if p ∈ cache.stalePids now staleAfter then none else cache.lastSeen.lookup p := by
  rw [Cache.gc_cache]
  exact lookup_foldl_evictPid_lastSeen _ (m, cache) p

theorem Booked.gcTick (h : l.Booked) : (l.gcTick args env).Booked := by
  have hcache : (l.gcTick args env).cache =
      (l.cache.gc l.metrics env.now (args.gcInterval * 1000000000)).2.2 := rfl
  obtain ⟨-, hstreams, hkernels⟩ := Cache.foldl_evictPid
    (l.cache.stalePids env.now (args.gcInterval * 1000000000)) (l.metrics, l.cache)
  -- a process that is not stale stays booked
  have hbooked : ∀ {p : U32}, p ∉ l.cache.stalePids env.now (args.gcInterval * 1000000000) →
      p ∈ l.cache.lastSeen ∨ some p = none →
        p ∈ (l.gcTick args env).cache.lastSeen ∨ some p = none := by
    intro p hstale hp
    left
    obtain ⟨t, ht⟩ := FinMap.mem_iff_lookup.mp (hp.resolve_right (by simp))
    rw [FinMap.mem_iff_lookup, hcache, lookup_gc_lastSeen, if_neg hstale]
    exact ⟨t, ht⟩
  constructor
  · intro k hk
    obtain ⟨hstale, hk⟩ := FinMap.mem_of_lookup_ite (l.cache.lookup_gc l.metrics env.now _ k) hk
    exact hbooked hstale (h.handles k hk)
  · intro p hp
    rw [hcache, Cache.gc_cache] at hp
    obtain ⟨hstale, hp⟩ := FinMap.mem_of_lookup_ite (hstreams p) hp
    exact hbooked hstale (h.streams p hp)
  · intro p hp
    rw [hcache, Cache.gc_cache] at hp
    obtain ⟨hstale, hp⟩ := FinMap.mem_of_lookup_ite (hkernels p) hp
    exact hbooked hstale (h.kernels p hp)
  · -- without stale processes nothing changes; otherwise the gauge is set at the end
    show (l.cache.gc l.metrics env.now _).2.1.trackedPids =
      (l.cache.gc l.metrics env.now _).2.2.lastSeen.size
    unfold Cache.gc
    simp only
    split
    next hempty =>
      rw [List.isEmpty_iff.mp hempty]
      exact h.gauge
    · rfl

theorem booked_init (args : Args) : (Loop.init args).Booked := by
  constructor <;> simp [Loop.init, Cache.new, Metrics.new]

end Loop

/-! ## Runs -/

namespace Sys

variable {args : Args}

theorem booked_armStart {s : Sys n} (h : s.loop.Booked) (e : Event n) :
    (s.armStart args e).Booked := by
  cases e with
  | consume env => exact h.invalidateChanged
  | aggTick env =>
    rw [armStart_aggTick]
    exact h.of_eq rfl rfl
  | gcTick env => exact h.gcTick
  | _ => exact h

theorem booked_armEnd {s : Sys n} {e : Event n} {x : Loop × MemDelta} (h : x.1.Booked) :
    (s.armEnd args e x).Booked := by
  cases e with
  | consume env =>
    -- registrations only add kernel names
    refine Runs.run_invariant_of_step (I := Loop.Booked) (fun l reg hl => ?_) h _
    rw [Loop.registerKernel_frame]
    exact hl.of_eq rfl rfl
  | aggTick env =>
    have hone : ∀ (l : Loop) (e : (_ : U32) × I64), l.Booked →
        (l.addActiveMemory env e.1 e.2).Booked := fun l e hl => hl.of_eq rfl rfl
    exact Runs.run_invariant_of_step hone h x.2.entries
  | nameKernel pid addr name => exact h.of_eq rfl rfl
  | _ => exact h

theorem booked_step {s : Sys n} (h : s.loop.Booked) (e : Event n) :
    (s.step args e).loop.Booked := by
  rw [step_loop]
  apply booked_armEnd
  exact Runs.run_invariant_of_step (I := fun x : Loop × MemDelta => x.1.Booked)
    (fun x r hx => hx.processRecord r) (booked_armStart h e) _

/-- In every state a run reaches, the processes of the handles and of the per-process sets are
    booked, so that `gc` can reap them, and the gauge shows how many are. -/
theorem booked_run (args : Args) (n : ℕ) (es : List (Event n)) :
    let l := (run args n es).loop
    (∀ k ∈ l.cache.handles, k.pid ∈ l.cache.lastSeen) ∧
      (∀ pid ∈ l.cache.streamsPerPid, pid ∈ l.cache.lastSeen) ∧
      (∀ pid ∈ l.cache.kernelsPerPid, pid ∈ l.cache.lastSeen) ∧
      l.metrics.trackedPids = l.cache.lastSeen.size := by
  obtain ⟨hhandles, hstreams, hkernels, hgauge⟩ := invariant_run (fun s => s.loop.Booked)
    (Loop.booked_init args) (fun s e h => booked_step h e) es
  exact ⟨fun k hk => (hhandles k hk).resolve_right (by simp),
    fun p hp => (hstreams p hp).resolve_right (by simp),
    fun p hp => (hkernels p hp).resolve_right (by simp), hgauge⟩

end Sys

end Profi
