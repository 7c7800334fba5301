import Profi.Cache
import Profi.Lib.Runs

/-!
# Runs of the Handle Cache

The cache and the registry behind it as one state, and everything `main` does to them as one
step function: requests for a handle, `touch`, the two ways handles are removed, insertions
into `kernel_names`, and what the callers write to the registry between their requests.

Each operation has one lemma that says what it can do: `Cache.getOrCreate_cases` for requests,
`Cache.lookup_invalidatePids` and `Cache.lookup_gc` for removals. Invariants over runs are
proved from these.
-/

namespace Profi

/-! ## Requests and writes -/

/-- A `get_or_create` call: its key, the event it is made for and what is read from outside. -/
structure CacheRequest where
  key : MetricKey
  env : CacheEnv
  event : CudaEvent

/-- The key is that of the event, as at every call site. -/
structure CacheRequest.Matched (r : CacheRequest) : Prop where
  pid : r.event.pid = r.key.pid
  eventType : r.event.eventType = r.key.eventType

/-- What the event loop writes to the registry between its requests. Only the duration families
    are written by label tuple; the others are reached through the handles. -/
inductive MetricWrite where
  | incBy (c : CounterRef) (x : ℕ)
  | incLabels (family : CounterFamily) (hfamily : family.byLabels = true) (labels : List String)
      (x : ℕ)
  | observe (h : HistogramRef) (durationNs : U64)
  | setTrackedPids (x : ℕ)
  | setActiveMemory (labels : List String) (bytes : I64)

def MetricWrite.apply (m : Metrics) : MetricWrite → Metrics
  | .incBy c x => m.incBy c x
  | .incLabels family _ labels x => m.incLabels family labels x
  | .observe h durationNs => m.observe h durationNs
  | .setTrackedPids x => { m with trackedPids := x }
  | .setActiveMemory labels bytes => m.setActiveMemory labels bytes

/-! ## State and steps -/

structure CacheState where
  metrics : Metrics
  cache : Cache
  kernelNames : KernelNames

inductive CacheOp where
  | getOrCreate (r : CacheRequest)
  | touch (now : ℕ) (pid : U32)
  | invalidatePids (pids : List U32)
  | gc (now staleAfter : ℕ)
  | nameKernel (pid : U32) (addr : U64) (name : String)
  | write (w : MetricWrite)

/-- `kernel_names.retain(|(pid, _), _| !stale_pids.contains(pid))`. -/
def KernelNames.forget (kernelNames : KernelNames) (stale : List U32) : KernelNames :=
  (kernelNames.keys.filter fun k => k.1 ∈ stale).foldl (fun m k => m.erase k) kernelNames

namespace CacheState

/-- An empty cache in front of an empty registry. -/
def init (kernelMode : KernelMode) : CacheState := ⟨.new kernelMode, .new, ∅⟩

/-- The answer to a request, with the registry and the cache it leaves behind. -/
def serve (limits : CardinalityLimits) (s : CacheState) (r : CacheRequest) :
    CachedHandles × Metrics × Cache :=
  s.cache.getOrCreate r.key s.metrics r.env r.event s.kernelNames limits

def step (limits : CardinalityLimits) (s : CacheState) : CacheOp → CacheState
  | .getOrCreate r => { s with metrics := (s.serve limits r).2.1, cache := (s.serve limits r).2.2 }
  | .touch now pid => { s with cache := s.cache.touch now pid }
  | .invalidatePids pids =>
      { s with
        metrics := (s.cache.invalidatePids pids s.metrics).1
        cache := (s.cache.invalidatePids pids s.metrics).2 }
  | .gc now staleAfter =>
      { metrics := (s.cache.gc s.metrics now staleAfter).2.1
        cache := (s.cache.gc s.metrics now staleAfter).2.2
        kernelNames := s.kernelNames.forget (s.cache.stalePids now staleAfter) }
  | .nameKernel pid addr name =>
      { s with kernelNames := s.kernelNames.insert (pid, addr) name }
  | .write w => { s with metrics := w.apply s.metrics }

/-- The state reached from the empty cache. -/
def run (kernelMode : KernelMode) (limits : CardinalityLimits) (ops : List CacheOp) : CacheState :=
  Runs.run (step limits) (init kernelMode) ops

end CacheState

/-- The operations that remove handles. -/
def CacheOp.IsRemoval : CacheOp → Prop
  | .invalidatePids _ | .gc _ _ => True
  | _ => False

/-- The processes an operation removes the handles of. -/
def CacheOp.removes (s : CacheState) : CacheOp → List U32
  | .invalidatePids pids => pids
  | .gc now staleAfter => s.cache.stalePids now staleAfter
  | _ => []

/-- The processes `gc` evicts in an operation. -/
def CacheOp.evicts (s : CacheState) : CacheOp → List U32
  | .gc now staleAfter => s.cache.stalePids now staleAfter
  | _ => []

theorem CacheOp.evicts_subset_removes (s : CacheState) (op : CacheOp) :
    op.evicts s ⊆ op.removes s := by
  cases op <;> simp [evicts, removes]

namespace Cache

variable {cache : Cache} {limits : CardinalityLimits} {key : MetricKey} {m : Metrics}
  {env : CacheEnv} {event : CudaEvent} {kernelNames : KernelNames}

/-! ## What a request does -/

variable (cache : Cache) (pids : List U32)

/-- The table after a request: as before, or with the collapsed key added. -/
theorem getOrCreate_handles (key : MetricKey) (m : Metrics) (env : CacheEnv) (event : CudaEvent)
    (kernelNames : KernelNames) (limits : CardinalityLimits) :
    (cache.getOrCreate key m env event kernelNames limits).2.2.handles = cache.handles ∨
    ((cache.collapseKey limits key).1 ∉ cache.handles ∧
      (cache.handles.size < limits.maxTimeSeries ∨ ∀ k ∈ cache.handles, k.pid ≠ key.pid) ∧
      (cache.getOrCreate key m env event kernelNames limits).2.2.handles =
        cache.handles.insert (cache.collapseKey limits key).1
          (cache.getOrCreate key m env event kernelNames limits).1) := by
  have hhandles : (cache.collapseKey limits key).2.handles = cache.handles :=
    (cache.collapseKey_frame limits key).1
  -- a hit and a fallback leave the table alone; only a created handle is inserted
  rcases cache.getOrCreate_cases key m env event kernelNames limits with ⟨h, -, heq⟩ |
    ⟨k, h, -, -, -, -, heq⟩ | ⟨m₁, hnone, hwhy, heq⟩
  · left
    rw [heq, hhandles]
  · left
    rw [heq, hhandles]
  · right
    refine ⟨AList.lookup_eq_none.mp hnone, ?_, ?_⟩
    · rcases hwhy with ⟨hlt, -⟩ | ⟨hnone, -⟩
      · exact .inl hlt
      · exact .inr ((fallback_eq_none_iff key.pid).mp hnone)
    · rw [heq]
      simp only [createHandle, hhandles]

/-- A request only changes the per-process sets by collapsing its key. -/
theorem getOrCreate_perPid (key : MetricKey) (m : Metrics) (env : CacheEnv) (event : CudaEvent)
    (kernelNames : KernelNames) (limits : CardinalityLimits) :
    (cache.getOrCreate key m env event kernelNames limits).2.2.streamsPerPid =
        (cache.collapseKey limits key).2.streamsPerPid ∧
      (cache.getOrCreate key m env event kernelNames limits).2.2.kernelsPerPid =
        (cache.collapseKey limits key).2.kernelsPerPid := by
  rcases cache.getOrCreate_cases key m env event kernelNames limits with ⟨h, -, heq⟩ |
    ⟨k, h, -, -, -, -, heq⟩ | ⟨m₁, -, -, heq⟩ <;> rw [heq] <;> exact ⟨rfl, rfl⟩

/-! ## What a removal does to the cache -/

theorem removeKey_perPid (s : Metrics × Cache) (key : MetricKey) :
    (removeKey s key).2.streamsPerPid = s.2.streamsPerPid ∧
      (removeKey s key).2.kernelsPerPid = s.2.kernelsPerPid := by
  unfold removeKey
  split <;> exact ⟨rfl, rfl⟩

theorem lookup_removeKey (s : Metrics × Cache) (key k : MetricKey) :
    (removeKey s key).2.handles.lookup k = if k = key then none else s.2.handles.lookup k := by
  unfold removeKey
  by_cases hk : k = key
  · subst hk
    cases hl : s.2.handles.lookup k <;> simp [hl]
  · cases hl : s.2.handles.lookup key <;> simp [hk, AList.lookup_erase_ne hk]

theorem lookup_foldl_removeKey (keys : List MetricKey) (s : Metrics × Cache) (k : MetricKey) :
    (keys.foldl removeKey s).2.handles.lookup k =
      if k ∈ keys then none else s.2.handles.lookup k :=
  Runs.lookup_foldl_eq_ite (fun s : Metrics × Cache => s.2.handles.lookup) id
    lookup_removeKey keys s k

/-- `invalidate_pids` removes the handles of these processes and no others. -/
theorem lookup_invalidatePids (m : Metrics) (k : MetricKey) :
    (cache.invalidatePids pids m).2.handles.lookup k =
      if k.pid ∈ pids then none else cache.handles.lookup k := by
  unfold invalidatePids
  rw [lookup_foldl_removeKey]
  by_cases hpid : k.pid ∈ pids
  · -- a key of these processes is listed, or was not there
    by_cases hmem : k ∈ cache.handles.keys
    · simp [hpid, hmem]
    · have hnone : cache.handles.lookup k = none := AList.lookup_eq_none.mpr hmem
      simp [hpid, hmem, hnone]
  · simp [hpid]

theorem invalidatePids_perPid (m : Metrics) :
    (cache.invalidatePids pids m).2.streamsPerPid = cache.streamsPerPid ∧
      (cache.invalidatePids pids m).2.kernelsPerPid = cache.kernelsPerPid :=
  ⟨Runs.foldl_frame (fun s : Metrics × Cache => s.2.streamsPerPid) removeKey
      (fun s key => (removeKey_perPid s key).1) _ (m, cache),
    Runs.foldl_frame (fun s : Metrics × Cache => s.2.kernelsPerPid) removeKey
      (fun s key => (removeKey_perPid s key).2) _ (m, cache)⟩

/-- What the `gc` loop has done after the processes `pids`: they have no handles and no sets. -/
theorem foldl_evictPid (s : Metrics × Cache) :
    (∀ k, (pids.foldl evictPid s).2.handles.lookup k =
        if k.pid ∈ pids then none else s.2.handles.lookup k) ∧
      (∀ pid, (pids.foldl evictPid s).2.streamsPerPid.lookup pid =
        if pid ∈ pids then none else s.2.streamsPerPid.lookup pid) ∧
      ∀ pid, (pids.foldl evictPid s).2.kernelsPerPid.lookup pid =
        if pid ∈ pids then none else s.2.kernelsPerPid.lookup pid := by
  refine ⟨Runs.lookup_foldl_eq_ite (fun s : Metrics × Cache => s.2.handles.lookup)
      MetricKey.pid (fun s pid k => ?_) pids s,
    Runs.lookup_foldl_eq_ite (fun s : Metrics × Cache => s.2.streamsPerPid.lookup)
      id (fun s pid p => ?_) pids s,
    Runs.lookup_foldl_eq_ite (fun s : Metrics × Cache => s.2.kernelsPerPid.lookup)
      id (fun s pid p => ?_) pids s⟩
  · simp [evictPid, lookup_invalidatePids]
  · simp [evictPid, (s.2.invalidatePids_perPid [pid] s.1).1, FinMap.lookup_erase_eq_ite]
  · simp [evictPid, (s.2.invalidatePids_perPid [pid] s.1).2, FinMap.lookup_erase_eq_ite]

theorem gc_cache (m : Metrics) (now staleAfter : ℕ) :
    (cache.gc m now staleAfter).2.2 =
      ((cache.stalePids now staleAfter).foldl evictPid (m, cache)).2 := by
  rw [gc_frame]

/-- `gc` removes the handles of the stale processes and no others. -/
theorem lookup_gc (m : Metrics) (now staleAfter : ℕ) (k : MetricKey) :
    (cache.gc m now staleAfter).2.2.handles.lookup k =
      if k.pid ∈ cache.stalePids now staleAfter then none else cache.handles.lookup k := by
  rw [gc_cache]
  exact (foldl_evictPid _ (m, cache)).1 k

end Cache

namespace CacheState

variable {limits : CardinalityLimits} {s : CacheState}

/-- An operation that is not a request only takes the handles of some processes out. -/
theorem step_lookup (limits : CardinalityLimits) (s : CacheState) {op : CacheOp}
    (hop : ∀ r, op ≠ .getOrCreate r) (k : MetricKey) :
    (s.step limits op).cache.handles.lookup k =
      if k.pid ∈ op.removes s then none else s.cache.handles.lookup k := by
  cases op with
  | getOrCreate r => exact absurd rfl (hop r)
  | invalidatePids pids => exact s.cache.lookup_invalidatePids pids s.metrics k
  | gc now staleAfter => exact s.cache.lookup_gc s.metrics now staleAfter k
  | touch now pid => simp [CacheOp.removes, step, Cache.touch]
  | nameKernel pid addr name => simp [CacheOp.removes, step]
  | write w => simp [CacheOp.removes, step]

/-- So the handles it leaves were there before. -/
theorem cached_of_step {op : CacheOp} (hop : ∀ r, op ≠ .getOrCreate r) {k : MetricKey}
    {h : CachedHandles} (hlookup : (s.step limits op).cache.handles.lookup k = some h) :
    k.pid ∉ op.removes s ∧ s.cache.handles.lookup k = some h := by
  rw [step_lookup limits s hop] at hlookup
  split at hlookup
  · cases hlookup
  · exact ⟨‹_›, hlookup⟩

/-- The table after an operation: a request may add its collapsed key, a removal takes the
    handles of some processes out. -/
theorem step_handles (limits : CardinalityLimits) (s : CacheState) (op : CacheOp) :
    (∃ r, op = .getOrCreate r ∧ (s.cache.collapseKey limits r.key).1 ∉ s.cache.handles ∧
      (s.cache.handles.size < limits.maxTimeSeries ∨
        ∀ k ∈ s.cache.handles, k.pid ≠ r.key.pid) ∧
      (s.step limits op).cache.handles =
        s.cache.handles.insert (s.cache.collapseKey limits r.key).1 (s.serve limits r).1) ∨
    ∀ k, (s.step limits op).cache.handles.lookup k =
      if k.pid ∈ op.removes s then none else s.cache.handles.lookup k := by
  by_cases hop : ∃ r, op = .getOrCreate r
  · obtain ⟨r, rfl⟩ := hop
    rcases s.cache.getOrCreate_handles r.key s.metrics r.env r.event s.kernelNames limits with
      hsame | ⟨hnew, hwhy, hinsert⟩
    · right
      intro k
      simp only [step, serve, CacheOp.removes, List.not_mem_nil, ↓reduceIte]
      rw [hsame]
    · exact .inl ⟨r, rfl, hnew, hwhy, hinsert⟩
  · exact .inr (step_lookup limits s fun r hr => hop ⟨r, hr⟩)

theorem invariant_run (kernelMode : KernelMode) (I : CacheState → Prop)
    (hinit : I (init kernelMode)) (hstep : ∀ s op, I s → I (s.step limits op))
    (ops : List CacheOp) : I (run kernelMode limits ops) :=
  Runs.run_invariant_of_step hstep hinit ops

end CacheState

/-! ## Cached handles are right for their keys -/

/-- The requests among the operations are made for events of their keys. -/
def CacheOp.Matched : CacheOp → Prop
  | .getOrCreate r => r.Matched
  | _ => True

/-- The requests are made for events of the processes of their keys. -/
def CacheOp.OfProcess : CacheOp → Prop
  | .getOrCreate r => r.event.pid = r.key.pid
  | _ => True

theorem CacheOp.Matched.ofProcess {op : CacheOp} (h : op.Matched) : op.OfProcess := by
  cases op with
  | getOrCreate r => exact CacheRequest.Matched.pid h
  | _ => trivial

theorem MetricWrite.extends_apply (m : Metrics) (w : MetricWrite) : m.Extends (w.apply m) := by
  cases w with
  | incBy c x => exact m.extends_incBy c x
  | incLabels family _ labels x => exact m.extends_incLabels family labels x
  | observe h durationNs => exact (m.silent_observe h durationNs).ext
  | setTrackedPids x => exact (m.silent_trackedPids x).ext
  | setActiveMemory labels bytes => exact .refl m

namespace CacheState

variable {limits : CardinalityLimits} {s : CacheState}

/-- Every cached handle carries the labels of its own key. -/
abbrev LabelsOk (s : CacheState) : Prop := CacheOk (fun _ => True) s.metrics s.cache

theorem labelsOk_step (h : s.LabelsOk) {op : CacheOp} (hop : op.OfProcess) :
    (s.step limits op).LabelsOk := by
  cases op with
  | getOrCreate r =>
    exact (Cache.getOrCreate_served h trivial s.kernelNames hop limits).cacheOk
  | invalidatePids pids => exact (Cache.invalidatePids_ok h pids).1
  | gc now staleAfter => exact (Cache.gc_ok h now staleAfter).1
  | write w => exact h.mono (w.extends_apply s.metrics)
  | touch now pid => exact h
  | nameKernel pid addr name => exact h

theorem labelsOk_init (kernelMode : KernelMode) : (init kernelMode).LabelsOk :=
  cacheOk_new _ _

end CacheState

end Profi
