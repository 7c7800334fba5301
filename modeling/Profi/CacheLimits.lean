import Profi.CacheRuns
import Profi.Lib.Admission

/-!
# The Cardinality Limits

What the three limits of the handle cache hold, over every run of its operations:

- `handles_bounded`: the global limit, exceeded by at most one handle for each process
- `per_pid_limits`: the limits on streams and kernels of a process, and that a key is collapsed
  the same way until `gc` evicts its process
- `serves_own_operation_iff`: when the handle handed out at the global limit is one for the
  event's own operation
-/

namespace Profi

variable {limits : CardinalityLimits} {s : CacheState}

/-! ## The global limit -/

/-- The processes that own a handle. -/
def Cache.owners (cache : Cache) : Finset U32 := cache.handles.keySet.image (·.pid)

theorem Cache.mem_owners {cache : Cache} {pid : U32} :
    pid ∈ cache.owners ↔ ∃ k ∈ cache.handles, k.pid = pid := by
  simp [Cache.owners]

/-- Taking whole fibres of `f` out of a set takes out at least as many elements as fibres. -/
theorem card_filter_le_add_card_image {α β : Type*} [DecidableEq α] [DecidableEq β] (f : α → β)
    (p : β → Prop) [DecidablePred p] {xs : Finset α} {b : ℕ}
    (h : xs.card ≤ b + (xs.image f).card) :
    (xs.filter fun x => p (f x)).card ≤ b + ((xs.filter fun x => p (f x)).image f).card := by
  have hsplit := Finset.card_filter_add_card_filter_not (s := xs) (fun x : α => p (f x))
  have himage : (xs.image f).card ≤ ((xs.filter fun x => p (f x)).image f).card +
      ((xs.filter fun x => ¬p (f x)).image f).card := by
    rw [← Finset.card_union_add_card_inter, ← Finset.image_union,
      Finset.filter_union_filter_not_eq]
    exact Nat.le_add_right _ _
  have hrest : ((xs.filter fun x => ¬p (f x)).image f).card ≤ (xs.filter fun x => ¬p (f x)).card :=
    Finset.card_image_le
  omega

/-- The table holds at most the limit and one handle more for each process. -/
def CacheState.Bounded (limits : CardinalityLimits) (s : CacheState) : Prop :=
  s.cache.handles.keySet.card ≤ limits.maxTimeSeries + s.cache.owners.card

namespace CacheState

/-- Beyond the limit a handle is added only together with its owner. -/
theorem bounded_step (h : s.Bounded limits) (op : CacheOp) : (s.step limits op).Bounded limits := by
  unfold Bounded Cache.owners at h ⊢
  rcases step_handles limits s op with ⟨r, rfl, hnew, hwhy, hinsert⟩ | hremove
  · have hkeys : (s.step limits (.getOrCreate r)).cache.handles.keySet =
        insert (s.cache.collapseKey limits r.key).1 s.cache.handles.keySet := by
      ext k
      rw [hinsert]
      simp
    have hcard := Finset.card_insert_of_notMem (s := s.cache.handles.keySet)
      (a := (s.cache.collapseKey limits r.key).1) (by simpa using hnew)
    rw [hkeys, hcard, Finset.image_insert]
    rcases hwhy with hlt | howner
    · -- below the limit the owners do not matter
      rw [← FinMap.card_keySet] at hlt
      omega
    · have hpid : (s.cache.collapseKey limits r.key).1.pid ∉
          s.cache.handles.keySet.image (·.pid) := by
        simpa [(s.cache.collapseKey_sameCall limits r.key).pid] using howner
      rw [Finset.card_insert_of_notMem hpid]
      omega
  · -- a removal takes all handles of a process, so it takes the owner along
    have hkeys : (s.step limits op).cache.handles.keySet =
        s.cache.handles.keySet.filter fun k => k.pid ∉ op.removes s := by
      ext k
      rw [FinMap.mem_keySet, FinMap.mem_iff_lookup, hremove, Finset.mem_filter,
        FinMap.mem_keySet, FinMap.mem_iff_lookup]
      by_cases hpid : k.pid ∈ op.removes s <;> simp [hpid]
    rw [hkeys]
    exact card_filter_le_add_card_image MetricKey.pid (· ∉ op.removes s) h

theorem bounded_run (kernelMode : KernelMode) (limits : CardinalityLimits) (ops : List CacheOp) :
    (run kernelMode limits ops).Bounded limits :=
  invariant_run kernelMode (Bounded limits) (Nat.zero_le _) (fun _ op h => bounded_step h op) ops

/-- At the limit, a process that owns a handle gets no other. -/
theorem step_keeps_keys (hfull : limits.maxTimeSeries ≤ s.cache.handles.size) {pid : U32}
    (howner : pid ∈ s.cache.owners) (op : CacheOp) {key : MetricKey}
    (hkey : key ∈ (s.step limits op).cache.handles) (hpid : key.pid = pid) :
    key ∈ s.cache.handles := by
  rcases step_handles limits s op with ⟨r, rfl, -, hwhy, hinsert⟩ | hremove
  · rw [hinsert, AList.mem_insert] at hkey
    rcases hkey with rfl | hkey
    · -- a new key would be one of a process without handles
      obtain ⟨k, hk, hkpid⟩ := Cache.mem_owners.mp howner
      rcases hwhy with hlt | hnone
      · exact absurd hfull (not_le.mpr hlt)
      · exact absurd (hkpid.trans hpid.symm) (hnone k hk)
    · exact hkey
  · rw [FinMap.mem_iff_lookup, hremove] at hkey
    rw [FinMap.mem_iff_lookup]
    obtain ⟨h, hlookup⟩ := hkey
    split at hlookup
    · cases hlookup
    · exact ⟨h, hlookup⟩

/-- **The table is bounded.** In every state a run of the cache reaches, the number of handles
    is at most `max_time_series` plus the number of processes that own one, and at the limit a
    process that owns a handle never gains another. -/
theorem handles_bounded (kernelMode : KernelMode) (limits : CardinalityLimits)
    (ops : List CacheOp) :
    let s := run kernelMode limits ops
    s.cache.handles.size ≤ limits.maxTimeSeries + s.cache.owners.card ∧
      ∀ op pid, limits.maxTimeSeries ≤ s.cache.handles.size → pid ∈ s.cache.owners →
        ∀ key ∈ (s.step limits op).cache.handles, key.pid = pid → key ∈ s.cache.handles := by
  intro s
  have hbounded : s.Bounded limits := bounded_run kernelMode limits ops
  rw [Bounded, FinMap.card_keySet] at hbounded
  exact ⟨hbounded, fun op _ hfull howner _ hkey hpid => step_keeps_keys hfull howner op hkey hpid⟩

end CacheState

/-! ## The limits of a process -/

namespace Cache

variable {perPid : FinMap U32 (List U64)} {limit : ℕ} {pid : U32} {x : U64}

/-- The values admitted for a process. -/
def admitted (perPid : FinMap U32 (List U64)) (pid : U32) : List U64 :=
  (perPid.lookup pid).getD []

theorem collapse_fst (perPid : FinMap U32 (List U64)) (limit : ℕ) (pid : U32) (x : U64) :
    (collapse perPid limit pid x).1 = Admission.shown limit 0 (admitted perPid pid) x := by
  unfold collapse Admission.shown admitted
  by_cases hmem : x ∈ (perPid.lookup pid).getD []
  · simp [hmem]
  · by_cases hroom : ((perPid.lookup pid).getD []).length < limit <;> simp [hmem, hroom]

/-- A new value is noted in the set of its process. -/
theorem admitted_collapse (perPid : FinMap U32 (List U64)) (limit : ℕ) (pid : U32) (x : U64)
    (pid' : U32) :
    admitted (collapse perPid limit pid x).2 pid' =
      if pid' = pid then Admission.note limit (admitted perPid pid) x
      else admitted perPid pid' := by
  have hinsert : ∀ xs : List U64, admitted (perPid.insert pid xs) pid' =
      if pid' = pid then xs else admitted perPid pid' := by
    intro xs
    unfold admitted
    by_cases hpid : pid' = pid
    · subst hpid
      simp
    · simp [hpid, AList.lookup_insert_ne hpid]
  unfold collapse Admission.note
  simp only
  split
  next hmem =>
    rw [hinsert, if_pos (show x ∈ admitted perPid pid from hmem)]
    rfl
  next hmem =>
    rw [if_neg (show x ∉ admitted perPid pid from hmem)]
    split
    next hroom =>
      rw [hinsert, if_pos (show (admitted perPid pid).length < limit from hroom)]
      rfl
    next hroom =>
      rw [hinsert, if_neg (show ¬(admitted perPid pid).length < limit from hroom)]
      rfl

variable (cache : Cache)

theorem collapseKey_stream (limits : CardinalityLimits) (key : MetricKey) :
    (cache.collapseKey limits key).1.stream =
      if key.stream ≠ 0 then
        Admission.shown limits.maxStreamsPerPid 0 (admitted cache.streamsPerPid key.pid) key.stream
      else key.stream := by
  simp only [collapseKey, collapseStream]
  split
  · exact collapse_fst _ _ _ _
  · rfl

theorem collapseStream_kernelsPerPid (limits : CardinalityLimits) (pid : U32) (stream : U64) :
    (cache.collapseStream limits pid stream).2.kernelsPerPid = cache.kernelsPerPid := by
  unfold collapseStream
  split <;> rfl

theorem collapseKey_addr (limits : CardinalityLimits) (key : MetricKey) :
    (cache.collapseKey limits key).1.addr =
      if key.addr ≠ 0 ∧ key.eventType = .cudaLaunchKernel then
        Admission.shown limits.maxKernelsPerPid 0 (admitted cache.kernelsPerPid key.pid) key.addr
      else key.addr := by
  simp only [collapseKey, collapseKernel]
  split
  · rw [← collapseStream_kernelsPerPid cache limits key.pid key.stream]
    exact collapse_fst _ _ _ _
  · rfl

theorem admitted_collapseKey_streams (limits : CardinalityLimits) (key : MetricKey) (pid : U32) :
    admitted (cache.collapseKey limits key).2.streamsPerPid pid =
      if pid = key.pid ∧ key.stream ≠ 0 then
        Admission.note limits.maxStreamsPerPid (admitted cache.streamsPerPid key.pid) key.stream
      else admitted cache.streamsPerPid pid := by
  have hframe : (cache.collapseKey limits key).2.streamsPerPid =
      (cache.collapseStream limits key.pid key.stream).2.streamsPerPid := by
    simp only [collapseKey, collapseKernel]
    split <;> rfl
  rw [hframe, collapseStream]
  by_cases hstream : key.stream ≠ 0
  · rw [if_pos hstream]
    simp only [admitted_collapse, hstream, and_true, not_false_eq_true, ne_eq]
  · rw [if_neg hstream, if_neg fun h => hstream h.2]

theorem admitted_collapseKey_kernels (limits : CardinalityLimits) (key : MetricKey) (pid : U32) :
    admitted (cache.collapseKey limits key).2.kernelsPerPid pid =
      if pid = key.pid ∧ key.addr ≠ 0 ∧ key.eventType = .cudaLaunchKernel then
        Admission.note limits.maxKernelsPerPid (admitted cache.kernelsPerPid key.pid) key.addr
      else admitted cache.kernelsPerPid pid := by
  have hkernels := collapseStream_kernelsPerPid cache limits key.pid key.stream
  simp only [collapseKey, collapseKernel]
  by_cases hlaunch : key.addr ≠ 0 ∧ key.eventType = .cudaLaunchKernel
  · rw [if_pos hlaunch]
    simp only [admitted_collapse, hkernels, hlaunch, and_true, not_false_eq_true, ne_eq]
  · rw [if_neg hlaunch, if_neg fun h => hlaunch h.2, hkernels]

/-- From `cache` to `cache'` the sets of a process were only changed by admissions. -/
structure SetsGrow (limits : CardinalityLimits) (pid : U32) (cache cache' : Cache) : Prop where
  streams : Admission.Grows limits.maxStreamsPerPid (admitted cache.streamsPerPid pid)
    (admitted cache'.streamsPerPid pid)
  kernels : Admission.Grows limits.maxKernelsPerPid (admitted cache.kernelsPerPid pid)
    (admitted cache'.kernelsPerPid pid)

theorem SetsGrow.refl (limits : CardinalityLimits) (pid : U32) (cache : Cache) :
    SetsGrow limits pid cache cache :=
  ⟨.refl _ _, .refl _ _⟩

theorem SetsGrow.trans {a b c : Cache} (hab : SetsGrow limits pid a b)
    (hbc : SetsGrow limits pid b c) : SetsGrow limits pid a c :=
  ⟨hab.streams.trans hbc.streams, hab.kernels.trans hbc.kernels⟩

theorem SetsGrow.of_perPid {a b : Cache} (hstreams : b.streamsPerPid = a.streamsPerPid)
    (hkernels : b.kernelsPerPid = a.kernelsPerPid) : SetsGrow limits pid a b := by
  refine ⟨?_, ?_⟩
  · rw [hstreams]
    exact .refl _ _
  · rw [hkernels]
    exact .refl _ _

theorem setsGrow_collapseKey (limits : CardinalityLimits) (key : MetricKey) (pid : U32) :
    SetsGrow limits pid cache (cache.collapseKey limits key).2 where
  streams := by
    rw [admitted_collapseKey_streams]
    split
    next h =>
      rw [h.1]
      exact Admission.grows_note _ _ _
    · exact .refl _ _
  kernels := by
    rw [admitted_collapseKey_kernels]
    split
    next h =>
      rw [h.1]
      exact Admission.grows_note _ _ _
    · exact .refl _ _

/-- Only the stream and the kernel of a key are collapsed. -/
theorem collapseKey_eq (limits : CardinalityLimits) (key : MetricKey) :
    (cache.collapseKey limits key).1 =
      { key with
        stream := (cache.collapseKey limits key).1.stream
        addr := (cache.collapseKey limits key).1.addr } := rfl

/-- A key that was collapsed once is collapsed the same way while the sets of its process only
    grow. -/
theorem collapseKey_of_setsGrow {cache cache' : Cache} {key : MetricKey}
    (h : SetsGrow limits key.pid (cache.collapseKey limits key).2 cache') :
    (cache'.collapseKey limits key).1 = (cache.collapseKey limits key).1 := by
  obtain ⟨hstreams, hkernels⟩ := h
  rw [admitted_collapseKey_streams] at hstreams
  rw [admitted_collapseKey_kernels] at hkernels
  -- each field is decided by its own set, and a set that admitted a value keeps it
  have hstream : (cache'.collapseKey limits key).1.stream =
      (cache.collapseKey limits key).1.stream := by
    rw [collapseKey_stream, collapseKey_stream]
    by_cases hzero : key.stream ≠ 0
    · rw [if_pos ⟨rfl, hzero⟩] at hstreams
      rw [if_pos hzero, if_pos hzero]
      exact Admission.shown_of_grows 0 hstreams
    · rw [if_neg hzero, if_neg hzero]
  have haddr : (cache'.collapseKey limits key).1.addr = (cache.collapseKey limits key).1.addr := by
    rw [collapseKey_addr, collapseKey_addr]
    by_cases hlaunch : key.addr ≠ 0 ∧ key.eventType = .cudaLaunchKernel
    · rw [if_pos ⟨rfl, hlaunch⟩] at hkernels
      rw [if_pos hlaunch, if_pos hlaunch]
      exact Admission.shown_of_grows 0 hkernels
    · rw [if_neg hlaunch, if_neg hlaunch]
  rw [collapseKey_eq cache', collapseKey_eq cache, hstream, haddr]

end Cache

namespace CacheState

/-- The admitted sets are within the limits and hold the streams and kernels of all handles. -/
structure CapsOk (limits : CardinalityLimits) (s : CacheState) : Prop where
  streamsLength : ∀ pid,
    (Cache.admitted s.cache.streamsPerPid pid).length ≤ limits.maxStreamsPerPid
  kernelsLength : ∀ pid,
    (Cache.admitted s.cache.kernelsPerPid pid).length ≤ limits.maxKernelsPerPid
  streams : ∀ k ∈ s.cache.handles, k.stream ≠ 0 →
    k.stream ∈ Cache.admitted s.cache.streamsPerPid k.pid
  kernels : ∀ k ∈ s.cache.handles, k.eventType = .cudaLaunchKernel → k.addr ≠ 0 →
    k.addr ∈ Cache.admitted s.cache.kernelsPerPid k.pid

theorem capsOk_init (limits : CardinalityLimits) (kernelMode : KernelMode) :
    CapsOk limits (init kernelMode) where
  streamsLength := fun _ => Nat.zero_le _
  kernelsLength := fun _ => Nat.zero_le _
  streams := by
    intro k hk
    simp [init, Cache.new] at hk
  kernels := by
    intro k hk
    simp [init, Cache.new] at hk

/-- The per-process sets after an operation that is not a request: gone for the processes that
    `gc` evicts, as before for all others. -/
theorem step_admitted (s : CacheState) (limits : CardinalityLimits) {op : CacheOp}
    (hop : ∀ r, op ≠ .getOrCreate r) (pid : U32) :
    Cache.admitted (s.step limits op).cache.streamsPerPid pid =
        (if pid ∈ op.evicts s then [] else Cache.admitted s.cache.streamsPerPid pid) ∧
      Cache.admitted (s.step limits op).cache.kernelsPerPid pid =
        if pid ∈ op.evicts s then [] else Cache.admitted s.cache.kernelsPerPid pid := by
  cases op with
  | getOrCreate r => exact absurd rfl (hop r)
  | invalidatePids pids =>
    -- an invalidation forgets handles but keeps the sets; only collection drops them
    obtain ⟨hstreams, hkernels⟩ := s.cache.invalidatePids_perPid pids s.metrics
    simp only [step, CacheOp.evicts, List.not_mem_nil, ↓reduceIte]
    rw [hstreams, hkernels]
    exact ⟨rfl, rfl⟩
  | gc now staleAfter =>
    obtain ⟨-, hstreams, hkernels⟩ :=
      Cache.foldl_evictPid (s.cache.stalePids now staleAfter) (s.metrics, s.cache)
    simp only [step, Cache.gc_cache, Cache.admitted, hstreams, hkernels, CacheOp.evicts]
    by_cases hstale : pid ∈ s.cache.stalePids now staleAfter <;> simp [hstale]
  | touch now pid => exact ⟨rfl, rfl⟩
  | nameKernel pid addr name => exact ⟨rfl, rfl⟩
  | write w => exact ⟨rfl, rfl⟩

/-- The sets of a process only grow until `gc` evicts it. -/
theorem setsGrow_step (s : CacheState) {op : CacheOp} {pid : U32} (hspared : pid ∉ op.evicts s) :
    Cache.SetsGrow limits pid s.cache (s.step limits op).cache := by
  by_cases hop : ∃ r, op = .getOrCreate r
  · obtain ⟨r, rfl⟩ := hop
    obtain ⟨hstreams, hkernels⟩ :=
      s.cache.getOrCreate_perPid r.key s.metrics r.env r.event s.kernelNames limits
    exact (s.cache.setsGrow_collapseKey limits r.key pid).trans (.of_perPid hstreams hkernels)
  · obtain ⟨hstreams, hkernels⟩ := s.step_admitted limits
      (fun r hr => hop ⟨r, hr⟩) pid
    rw [if_neg hspared] at hstreams hkernels
    refine ⟨?_, ?_⟩
    · rw [hstreams]
      exact .refl _ _
    · rw [hkernels]
      exact .refl _ _

/-- A key of the table after a request was there before or is the collapsed key of the request. -/
theorem mem_handles_request {r : CacheRequest} {k : MetricKey}
    (hk : k ∈ (s.step limits (.getOrCreate r)).cache.handles) :
    k = (s.cache.collapseKey limits r.key).1 ∨ k ∈ s.cache.handles := by
  rcases step_handles limits s (.getOrCreate r) with ⟨r', hr, -, -, hinsert⟩ | hsame
  · cases hr
    rw [hinsert, AList.mem_insert] at hk
    exact hk
  · right
    rw [FinMap.mem_iff_lookup, hsame] at hk
    rw [FinMap.mem_iff_lookup]
    simpa [CacheOp.removes] using hk

/-- A request keeps the sets within their limits, and they list what the handles show. -/
theorem capsOk_request (h : CapsOk limits s) (r : CacheRequest) :
    CapsOk limits (s.step limits (.getOrCreate r)) := by
  obtain ⟨hstreams, hkernels⟩ :=
    s.cache.getOrCreate_perPid r.key s.metrics r.env r.event s.kernelNames limits
  have hgrow : ∀ pid, Cache.SetsGrow limits pid s.cache
      (s.step limits (.getOrCreate r)).cache :=
    fun pid => setsGrow_step s (by simp [CacheOp.evicts])
  refine ⟨fun pid => ?_, fun pid => ?_, fun k hk hzero => ?_, fun k hk hlaunch hzero => ?_⟩
  · simp only [step, serve, hstreams, Cache.admitted_collapseKey_streams]
    split
    · exact Admission.length_note_le (h.streamsLength _) _
    · exact h.streamsLength pid
  · simp only [step, serve, hkernels, Cache.admitted_collapseKey_kernels]
    split
    · exact Admission.length_note_le (h.kernelsLength _) _
    · exact h.kernelsLength pid
  · -- a new handle shows the stream that the request has just noted
    rcases mem_handles_request hk with rfl | hold
    · simp only [step, serve, hstreams, Cache.admitted_collapseKey_streams]
      rw [Cache.collapseKey_stream] at hzero ⊢
      by_cases hstream : r.key.stream ≠ 0
      · rw [if_pos hstream] at hzero ⊢
        rw [if_pos ⟨rfl, hstream⟩]
        exact Admission.shown_mem_note hzero
      · rw [if_neg hstream] at hzero
        exact absurd hzero hstream
    · exact (hgrow k.pid).streams.subset (h.streams k hold hzero)
  · rcases mem_handles_request hk with rfl | hold
    · simp only [step, serve, hkernels, Cache.admitted_collapseKey_kernels]
      rw [Cache.collapseKey_addr] at hzero ⊢
      by_cases hkernel : r.key.addr ≠ 0 ∧ r.key.eventType = .cudaLaunchKernel
      · rw [if_pos hkernel] at hzero ⊢
        rw [if_pos ⟨rfl, hkernel⟩]
        exact Admission.shown_mem_note hzero
      · rw [if_neg hkernel] at hzero
        exact absurd ⟨hzero, hlaunch⟩ hkernel
    · exact (hgrow k.pid).kernels.subset (h.kernels k hold hlaunch hzero)

theorem capsOk_step (h : CapsOk limits s) (op : CacheOp) : CapsOk limits (s.step limits op) := by
  by_cases hop : ∃ r, op = .getOrCreate r
  · obtain ⟨r, rfl⟩ := hop
    exact capsOk_request h r
  · have hsets := fun pid => s.step_admitted limits (fun r hr => hop ⟨r, hr⟩) pid
    -- a handle that is still there was there, and its process was not evicted
    have hkept : ∀ k ∈ (s.step limits op).cache.handles,
        k ∈ s.cache.handles ∧ k.pid ∉ op.evicts s := by
      intro k hk
      rcases step_handles limits s op with ⟨r, hr, -⟩ | hremove
      · exact absurd ⟨r, hr⟩ hop
      · rw [FinMap.mem_iff_lookup, hremove] at hk
        obtain ⟨h, hlookup⟩ := hk
        split at hlookup
        · cases hlookup
        next hpid =>
          exact ⟨FinMap.mem_iff_lookup.mpr ⟨h, hlookup⟩,
            fun hmem => hpid (op.evicts_subset_removes s hmem)⟩
    refine ⟨fun pid => ?_, fun pid => ?_, fun k hk hzero => ?_, fun k hk hlaunch hzero => ?_⟩
    · rw [(hsets pid).1]
      split
      · exact Nat.zero_le _
      · exact h.streamsLength pid
    · rw [(hsets pid).2]
      split
      · exact Nat.zero_le _
      · exact h.kernelsLength pid
    · obtain ⟨hold, hspared⟩ := hkept k hk
      rw [(hsets k.pid).1, if_neg hspared]
      exact h.streams k hold hzero
    · obtain ⟨hold, hspared⟩ := hkept k hk
      rw [(hsets k.pid).2, if_neg hspared]
      exact h.kernels k hold hlaunch hzero

theorem capsOk_run (kernelMode : KernelMode) (limits : CardinalityLimits) (ops : List CacheOp) :
    CapsOk limits (run kernelMode limits ops) :=
  invariant_run kernelMode (CapsOk limits) (capsOk_init limits kernelMode)
    (fun _ op h => capsOk_step h op) ops

/-- The keys of the cached handles are collapsed to themselves. -/
theorem CapsOk.collapseKey_of_mem (h : CapsOk limits s) {k : MetricKey} (hk : k ∈ s.cache.handles) :
    (s.cache.collapseKey limits k).1 = k := by
  have hstream : (s.cache.collapseKey limits k).1.stream = k.stream := by
    rw [Cache.collapseKey_stream]
    split
    · exact Admission.shown_of_mem _ _ (h.streams k hk ‹_›)
    · rfl
  have haddr : (s.cache.collapseKey limits k).1.addr = k.addr := by
    rw [Cache.collapseKey_addr]
    split
    next hlaunch => exact Admission.shown_of_mem _ _ (h.kernels k hk hlaunch.2 hlaunch.1)
    · rfl
  rw [Cache.collapseKey_eq, hstream, haddr]

/-- The streams other than the default one that the handles of a process are for. -/
def streamsOf (s : CacheState) (pid : U32) : Finset U64 :=
  (s.cache.handles.keySet.filter fun k => k.pid = pid ∧ k.stream ≠ 0).image (·.stream)

/-- The kernels that the launch handles of a process are for. -/
def kernelsOf (s : CacheState) (pid : U32) : Finset U64 :=
  (s.cache.handles.keySet.filter fun k =>
    k.pid = pid ∧ k.eventType = .cudaLaunchKernel ∧ k.addr ≠ 0).image (·.addr)

theorem CapsOk.card_streamsOf (h : CapsOk limits s) (pid : U32) :
    (s.streamsOf pid).card ≤ limits.maxStreamsPerPid := by
  have hsub : s.streamsOf pid ⊆ (Cache.admitted s.cache.streamsPerPid pid).toFinset := by
    intro stream hstream
    obtain ⟨k, hk, rfl⟩ := Finset.mem_image.mp hstream
    obtain ⟨hmem, rfl, hzero⟩ := Finset.mem_filter.mp hk
    exact List.mem_toFinset.mpr (h.streams k (FinMap.mem_keySet.mp hmem) hzero)
  exact (Finset.card_le_card hsub).trans ((List.toFinset_card_le _).trans (h.streamsLength pid))

theorem CapsOk.card_kernelsOf (h : CapsOk limits s) (pid : U32) :
    (s.kernelsOf pid).card ≤ limits.maxKernelsPerPid := by
  have hsub : s.kernelsOf pid ⊆ (Cache.admitted s.cache.kernelsPerPid pid).toFinset := by
    intro addr haddr
    obtain ⟨k, hk, rfl⟩ := Finset.mem_image.mp haddr
    obtain ⟨hmem, rfl, hlaunch, hzero⟩ := Finset.mem_filter.mp hk
    exact List.mem_toFinset.mpr (h.kernels k (FinMap.mem_keySet.mp hmem) hlaunch hzero)
  exact (Finset.card_le_card hsub).trans ((List.toFinset_card_le _).trans (h.kernelsLength pid))

/-- After a request, its key is collapsed as it was for as long as `gc` spares its process. -/
theorem collapseKey_stable (s : CacheState) (r : CacheRequest) {later : List CacheOp}
    (hspared : Runs.Along (step limits) (fun s op => r.key.pid ∉ op.evicts s)
      (s.step limits (.getOrCreate r)) later) :
    ((Runs.run (step limits) (s.step limits (.getOrCreate r)) later).cache.collapseKey limits
      r.key).1 = (s.cache.collapseKey limits r.key).1 := by
  obtain ⟨hstreams, hkernels⟩ :=
    s.cache.getOrCreate_perPid r.key s.metrics r.env r.event s.kernelNames limits
  apply Cache.collapseKey_of_setsGrow
  -- the sets after the request are those the collapsing left
  refine Cache.SetsGrow.trans (b := (s.step limits (.getOrCreate r)).cache)
    (.of_perPid hstreams hkernels) ?_
  exact Runs.run_invariant
    (I := fun t => Cache.SetsGrow limits r.key.pid (s.step limits (.getOrCreate r)).cache t.cache)
    (fun t _ h hop => h.trans (setsGrow_step t hop)) (.refl _ _ _) hspared

/-- **The limits of a process.** In every state a run of the cache reaches, the handles of a
    process are for at most `max_streams_per_pid` streams and, for launches, at most
    `max_kernels_per_pid` kernels; and once a key was requested, it is collapsed the same way by
    every request until `gc` evicts its process. -/
theorem per_pid_limits (kernelMode : KernelMode) (limits : CardinalityLimits)
    (ops : List CacheOp) :
    let s := run kernelMode limits ops
    (∀ pid, (s.streamsOf pid).card ≤ limits.maxStreamsPerPid ∧
      (s.kernelsOf pid).card ≤ limits.maxKernelsPerPid) ∧
    ∀ r later, Runs.Along (step limits) (fun s op => r.key.pid ∉ op.evicts s)
        (s.step limits (.getOrCreate r)) later →
      ((Runs.run (step limits) (s.step limits (.getOrCreate r)) later).cache.collapseKey limits
        r.key).1 = (s.cache.collapseKey limits r.key).1 := by
  intro s
  have hcaps : CapsOk limits s := capsOk_run kernelMode limits ops
  exact ⟨fun pid => ⟨hcaps.card_streamsOf pid, hcaps.card_kernelsOf pid⟩,
    fun r _ hspared => collapseKey_stable s r hspared⟩

end CacheState

/-! ## Whose handle is handed out -/

/-- The handle counts calls of this operation, and the counters not every operation has are
    only there if this one has them. -/
structure CachedHandles.OffersOnly (h : CachedHandles) (eventType : EventType) : Prop where
  calls : h.labels.callsLabels.head? = some (operationName eventType)
  memcpyBytes : h.memcpyBytes.isSome → eventType = .cudaMemcpy ∨ eventType = .cudaMemcpyAsync ∨
    eventType = .cudaMemset ∨ eventType = .cudaMemsetAsync
  mallocBytes : h.mallocBytes.isSome → eventType = .cudaMalloc ∨ eventType = .cudaMallocHost
  ncclBytes : h.ncclBytes.isSome → profiIsNcclEvent eventType = true
  kernelCounter : h.kernelCounter.isSome → eventType = .cudaLaunchKernel
  errorsCounter : ∀ labels ∈ h.labels.errorsLabels,
    labels.head? = some (operationName eventType)

section OffersOnly

variable {E : CacheEnv → Prop} {m : Metrics} {key : MetricKey} {h : CachedHandles}

theorem OptRefOk.isSome_eq {c : Option CounterRef} {family : CounterFamily}
    {labels : Option (List String)} (hc : OptRefOk m c family labels) :
    c.isSome = labels.isSome := by
  unfold OptRefOk at hc
  split at hc
  · rfl
  · rfl
  · exact hc.elim

/-- A handle that is right for its key offers what the key's operation has. -/
theorem HandleOk.offersOnly (hh : HandleOk E m key h) : h.OffersOnly key.eventType := by
  obtain ⟨mode, env, kernelNames, event, -, -, hlabels⟩ := hh.labels
  refine ⟨?_, ?_, ?_, ?_, ?_, ?_⟩
  · rw [hlabels, handleLabels]
    split <;> rfl
  · rw [hh.memcpyBytes.isSome_eq, hlabels, handleLabels]
    simp only
    split
    · simp
    · split <;> simp_all
  · rw [hh.mallocBytes.isSome_eq, hlabels, handleLabels]
    simp only
    split
    · simp
    · split <;> simp_all
  · rw [hh.ncclBytes.isSome_eq, hlabels, handleLabels]
    split <;> simp_all
  · rw [hh.kernelCounter.isSome_eq, hlabels, handleLabels]
    simp only
    split
    · simp
    · split <;> simp_all
  · -- only failed calls have labels for an errors counter
    intro labels hmem
    rw [hlabels, handleLabels] at hmem
    by_cases hcode : key.errorCode = 0
    · simp only [hcode, ne_eq, not_true_eq_false, ↓reduceIte] at hmem
      split at hmem <;> cases hmem
    · simp only [hcode, ne_eq, not_false_eq_true, ↓reduceIte] at hmem
      split at hmem <;> cases hmem <;> rfl

/-- The operation of a handle is that of its key. -/
theorem HandleOk.offersOnly_iff (hh : HandleOk E m key h) (eventType : EventType) :
    h.OffersOnly eventType ↔ key.eventType = eventType := by
  constructor
  · intro hoffers
    have hop := hh.offersOnly.calls.symm.trans hoffers.calls
    exact operationName_injective (Option.some.inj hop)
  · rintro rfl
    exact hh.offersOnly

end OffersOnly

namespace CacheState

/-- In whatever order the table hands out its keys, the request gets a handle of its event's
    own operation. -/
def ServesOwn (limits : CardinalityLimits) (s : CacheState) : CacheOp → Prop
  | .getOrCreate r => ∀ order,
      (s.serve limits { r with env := { r.env with handleOrder := order } }).1.OffersOnly
        r.event.eventType
  | _ => True

/-- The key of the request is cached, or the table is below the limit, or all handles of the
    process are for the event's own operation. -/
def OwnAtLimit (limits : CardinalityLimits) (s : CacheState) : CacheOp → Prop
  | .getOrCreate r =>
      (s.cache.collapseKey limits r.key).1 ∈ s.cache.handles ∨
        s.cache.handles.size < limits.maxTimeSeries ∨
        ∀ k ∈ s.cache.handles, k.pid = r.key.pid → k.eventType = r.event.eventType
  | _ => True

theorem fallback_first {cache : Cache} {k : MetricKey} (hk : k ∈ cache.handles) (env : CacheEnv) :
    cache.fallback { env with handleOrder := .first k } k.pid = some k := by
  have hmem : k ∈ cache.handles.keys := hk
  simp [Cache.fallback, KeyOrder.first, hmem]

theorem servesOwn_iff (h : s.LabelsOk) {op : CacheOp} (hop : op.Matched) :
    s.ServesOwn limits op ↔ s.OwnAtLimit limits op := by
  cases op with
  | getOrCreate r =>
    obtain ⟨hpid, htype⟩ : r.Matched := hop
    have hsame := s.cache.collapseKey_sameCall limits r.key
    constructor
    · intro hserves
      by_contra hnot
      simp only [OwnAtLimit, not_or, not_forall] at hnot
      obtain ⟨hmiss, hfull, k, hk, hkpid, hktype⟩ := hnot
      -- the table may hand out the handle of the other operation first
      have hfirst := fallback_first hk r.env
      have hserved := hserves (.first k)
      rw [serve] at hserved
      rcases s.cache.getOrCreate_cases r.key s.metrics { r.env with handleOrder := .first k }
        r.event s.kernelNames limits with ⟨h', hhit, -⟩ | ⟨k', h', -, -, hfall, hk', heq⟩ |
        ⟨m₁, -, hwhy, -⟩
      · exact hmiss (FinMap.mem_iff_lookup.mpr ⟨h', hhit⟩)
      · rw [← hkpid, hfirst] at hfall
        cases hfall
        rw [heq] at hserved
        exact hktype (((h k h' hk').offersOnly_iff _).mp hserved)
      · rcases hwhy with ⟨hlt, -⟩ | ⟨hnone, -⟩
        · exact hfull hlt
        · rw [← hkpid, hfirst] at hnone
          cases hnone
    · intro hown order
      rw [serve]
      rcases s.cache.getOrCreate_cases r.key s.metrics { r.env with handleOrder := order }
        r.event s.kernelNames limits with ⟨h', hhit, heq⟩ |
        ⟨k', h', hmiss, hfull, hfall, hk', heq⟩ | ⟨m₁, -, -, heq⟩
      · rw [heq, (h _ h' hhit).offersOnly_iff, hsame.eventType]
        exact htype.symm
      · rw [heq, (h k' h' hk').offersOnly_iff]
        obtain ⟨hmem, hkpid⟩ := Cache.fallback_eq_some hfall
        rcases hown with hhit | hlt | hall
        · exact absurd hhit (AList.lookup_eq_none.mp hmiss)
        · exact absurd hfull (not_le.mpr hlt)
        · exact hall k' hmem hkpid
      · have hnew := Cache.createHandle_handleOk (E := fun _ => True)
          { r.env with handleOrder := order } trivial (s.cache.collapseKey limits r.key).2
          m₁ s.kernelNames (hpid.trans hsame.pid.symm)
        rw [heq, hnew.offersOnly_iff, hsame.eventType]
        exact htype.symm
  | _ => exact Iff.rfl

/-- **No misattribution at the limit.** Every request of a run gets a handle of its event's own
    operation, whatever the order of the table, exactly if every request finds its key cached,
    the table below `max_time_series`, or only handles of that operation for its process. -/
theorem serves_own_operation_iff (kernelMode : KernelMode) (limits : CardinalityLimits)
    {ops : List CacheOp}
    (hops : Runs.Along (step limits) (fun _ op => op.Matched) (init kernelMode) ops) :
    Runs.Along (step limits) (ServesOwn limits) (init kernelMode) ops ↔
      Runs.Along (step limits) (OwnAtLimit limits) (init kernelMode) ops := by
  have hinv := hops.and_invariant (I := LabelsOk) (fun _ _ h hop => labelsOk_step h hop.ofProcess)
    (labelsOk_init kernelMode)
  constructor
  · intro hserves
    exact (hserves.and hinv).mono fun _ _ h => (servesOwn_iff h.2.2 h.2.1).mp h.1
  · intro hown
    exact (hown.and hinv).mono fun _ _ h => (servesOwn_iff h.2.2 h.2.1).mpr h.1

/-- A request for the handle of an event of process 7, in an environment that knows nothing. -/
def bareRequest (eventType : EventType) (memcpyKind : U32) : CacheRequest where
  key := ⟨eventType, 7, memcpyKind, 0, 0, 0, 0⟩
  env := ⟨fun _ => none, fun _ => none, fun _ => none, KeyOrder.asListed _⟩
  event := ⟨eventType, 7, 7, memcpyKind, 0, 0, 0, 0, 0, List.replicate 16 0, List.replicate 16 0, 0⟩

/-- Two kinds of copies share the one handle there is room for. -/
theorem serves_own_operation_iff_copies :
    let ops := [.getOrCreate (bareRequest .cudaMemcpy 1), .getOrCreate (bareRequest .cudaMemcpy 2)]
    Runs.Along (step { maxTimeSeries := 1 }) (ServesOwn { maxTimeSeries := 1 }) (init .anonymous)
      ops := by
  intro ops
  refine (serves_own_operation_iff .anonymous { maxTimeSeries := 1 } ?_).mpr ?_
  · exact ⟨⟨rfl, rfl⟩, ⟨rfl, rfl⟩, trivial⟩
  · refine ⟨.inr (.inl (by decide)), .inr (.inr ?_), trivial⟩
    decide

/-- With room for one handle, an allocation is handed the handle of the copies of its process:
    it counts as a copy, and its size goes to no allocation counter. -/
theorem allocation_served_copy_handle :
    let s := run .anonymous { maxTimeSeries := 1 } [.getOrCreate (bareRequest .cudaMemcpy 1)]
    let h := (s.serve { maxTimeSeries := 1 } (bareRequest .cudaMalloc 0)).1
    h.labels.callsLabels.head? = some "cudaMemcpy" ∧ h.mallocBytes = none ∧
      h.memcpyBytes.isSome = true ∧ (bareRequest .cudaMalloc 0).event.eventType = .cudaMalloc := by
  decide

end CacheState

end Profi
