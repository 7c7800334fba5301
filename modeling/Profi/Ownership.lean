import Profi.Series

/-!
# Who Owns a Series

The counters reached through handles carry the process in their labels, so a removal by process
cannot touch the series of another one: their exported tuples are exactly those recorded in the
cached handles (`exported_eq_recorded`).

The duration series are labelled with operation, namespace, pod and device only. They are owned
by every process of the pod that uses them, and go with the first one that is removed. A removal
leaves the handles of the other processes whole exactly if it is between processes that share no
such labels (`keeps_others_iff`).
-/

namespace Profi

/-! ## What the labels of a series say -/

/-- Where the process stands in the labels of a counter that is reached through a handle. -/
def CounterFamily.pidIndex : CounterFamily → ℕ
  | cudaMallocBytes => 0
  | _ => 1

/-- The operation, namespace, pod and device of a duration counter, read off its labels. -/
def CounterFamily.histScope : CounterFamily → List String → List String
  | cudaKernelDurationBucketTotal, labels | cudaKernelDurationSumSecondsTotal, labels
  | cudaKernelDurationCountTotal, labels =>
      operationName .cudaLaunchKernel :: (labels.drop 1).take 3
  | _, labels => labels.take 4

/-- The same for a duration histogram. -/
def HistogramFamily.histScope : HistogramFamily → List String → List String
  | cudaKernelDuration, labels => operationName .cudaLaunchKernel :: (labels.drop 1).take 3
  | _, labels => labels

section Labels

variable {kernelMode mode : KernelMode} {env : CacheEnv} {kernelNames : KernelNames}
  {key : MetricKey} {event : CudaEvent}

variable {x : CounterFamily × List String}

/-- A tuple recorded in a handle stands in one of its label lists. -/
theorem mem_ownedSeries {eventType : EventType} {l : HandleLabels} :
    x ∈ ownedSeries eventType l ↔
      x = (callsFamily eventType, l.callsLabels) ∨
      (∃ labels, l.memcpyLabels = some labels ∧ x = (.cudaMemcpyBytes, labels)) ∨
      (∃ labels, l.mallocLabels = some labels ∧ x = (.cudaMallocBytes, labels)) ∨
      (∃ labels, l.ncclBytesLabels = some labels ∧ x = (.ncclBytes, labels)) ∨
      (∃ labels, l.kernelCounterLabels = some labels ∧ x = (.cudaKernelLaunches, labels)) ∨
      ∃ labels, l.errorsLabels = some labels ∧ x = (.cudaErrors, labels) := by
  simp only [ownedSeries, List.mem_filterMap, List.mem_cons, List.not_mem_nil, or_false,
    exists_eq_or_imp, exists_eq_left, Option.map_eq_some_iff, Option.some.injEq, eq_comm (b := x),
    exists_eq_left']

/-- The counters reached through a handle have all their labels, and the process among them. -/
theorem ownedSeries_shape
    (hx : x ∈ ownedSeries key.eventType (handleLabels mode env kernelNames key event)) :
    x.1.byLabels = false ∧ x.2[x.1.pidIndex]? = some (decString event.pid) ∧
      x.2.length = x.1.labelNames.length := by
  rcases mem_ownedSeries.mp hx with rfl | ⟨labels, hlabels, rfl⟩ | ⟨labels, hlabels, rfl⟩ |
    ⟨labels, hlabels, rfl⟩ | ⟨labels, hlabels, rfl⟩ | ⟨labels, hlabels, rfl⟩
  · simp only [handleLabels, callsFamily]
    split <;> exact ⟨rfl, rfl, rfl⟩
  -- one branch of `handleLabels` gives the labels, the other has none
  all_goals
    refine ⟨rfl, ?_⟩
    cases hnccl : profiIsNcclEvent key.eventType <;>
      simp only [handleLabels, hnccl, Bool.false_eq_true, ↓reduceIte, reduceCtorEq,
        Option.ite_none_right_eq_some, Option.some.injEq] at hlabels
  · obtain ⟨-, rfl⟩ := hlabels
    exact ⟨rfl, rfl⟩
  · obtain ⟨-, rfl⟩ := hlabels
    exact ⟨rfl, rfl⟩
  · rw [← hlabels]
    exact ⟨rfl, rfl⟩
  · obtain ⟨-, rfl⟩ := hlabels
    exact ⟨rfl, rfl⟩
  · obtain ⟨-, rfl⟩ := hlabels
    exact ⟨rfl, rfl⟩
  · obtain ⟨-, rfl⟩ := hlabels
    exact ⟨rfl, rfl⟩

/-- The counters reached through a handle are labelled with its process. -/
theorem ownedSeries_pid (hpid : event.pid = key.pid)
    (hx : x ∈ ownedSeries key.eventType (handleLabels mode env kernelNames key event)) :
    x.1.byLabels = false ∧ x.2[x.1.pidIndex]? = some (decString key.pid) := by
  obtain ⟨hby, hindex, -⟩ := ownedSeries_shape hx
  exact ⟨hby, hpid ▸ hindex⟩

/-- The kernel histogram of a launch carries the namespace, pod and device of its duration
    histogram, whatever follows them. -/
theorem kernelHist_scope {labels : List String}
    (h : (handleLabels mode env kernelNames key event).kernelHistLabels = some labels)
    (tail : List String) :
    operationName .cudaLaunchKernel :: ((labels ++ tail).drop 1).take 3 =
      (handleLabels mode env kernelNames key event).histLabels := by
  cases hnccl : profiIsNcclEvent key.eventType with
  | true => simp [handleLabels, hnccl] at h
  | false =>
    simp only [handleLabels, hnccl, Bool.false_eq_true, ↓reduceIte,
      Option.ite_none_right_eq_some, Option.some.injEq] at h ⊢
    obtain ⟨⟨hlaunch, -⟩, rfl⟩ := h
    rw [hlaunch]
    rfl

theorem histLabels_take (mode : KernelMode) (env : CacheEnv) (kernelNames : KernelNames)
    (key : MetricKey) (event : CudaEvent) (tail : List String) :
    ((handleLabels mode env kernelNames key event).histLabels ++ tail).take 4 =
      (handleLabels mode env kernelNames key event).histLabels := by
  simp only [handleLabels]
  split <;> rfl

/-- The duration counters all carry the scope, if their families read it off the front of the
    labels. -/
theorem durationCounters_scope {bucket sum count : CounterFamily}
    {leValues labels hist : List String}
    (hfamily : ∀ family ∈ [bucket, sum, count], family.byLabels = true ∧
      ∀ tail, family.histScope (labels ++ tail) = hist)
    (hx : x ∈ durationCounters bucket sum count leValues labels) :
    x.1.byLabels = true ∧ x.1.histScope x.2 = hist := by
  simp only [durationCounters, List.mem_append, List.mem_map, List.mem_cons, List.not_mem_nil,
    or_false] at hx
  rcases hx with ⟨le, -, rfl⟩ | rfl | rfl
  · obtain ⟨hby, hscope⟩ := hfamily bucket (by simp)
    exact ⟨hby, hscope [le]⟩
  · obtain ⟨hby, hscope⟩ := hfamily sum (by simp)
    exact ⟨hby, by simpa using hscope []⟩
  · obtain ⟨hby, hscope⟩ := hfamily count (by simp)
    exact ⟨hby, by simpa using hscope []⟩

/-- The duration counters of a handle carry its histogram labels. -/
theorem durationSeries_scope
    (hx : x ∈ durationSeries key.eventType (handleLabels mode env kernelNames key event)) :
    x.1.byLabels = true ∧
      x.1.histScope x.2 = (handleLabels mode env kernelNames key event).histLabels := by
  have htake := histLabels_take mode env kernelNames key event
  unfold durationSeries at hx
  split at hx
  all_goals
    refine durationCounters_scope ?_ hx
    simp only [List.mem_cons, List.not_mem_nil, or_false, forall_eq_or_imp, forall_eq]
    exact ⟨⟨rfl, htake⟩, ⟨rfl, htake⟩, ⟨rfl, htake⟩⟩

theorem kernelSeries_scope
    (hx : x ∈ kernelSeries kernelMode (handleLabels mode env kernelNames key event)) :
    x.1.byLabels = true ∧
      x.1.histScope x.2 = (handleLabels mode env kernelNames key event).histLabels := by
  unfold kernelSeries at hx
  split at hx
  · obtain ⟨labels, hlabels, hx⟩ := List.mem_flatMap.mp hx
    have hscope := kernelHist_scope (Option.mem_toList.mp hlabels)
    refine durationCounters_scope ?_ hx
    simp only [List.mem_cons, List.not_mem_nil, or_false, forall_eq_or_imp, forall_eq]
    exact ⟨⟨rfl, hscope⟩, ⟨rfl, hscope⟩, ⟨rfl, hscope⟩⟩
  · cases hx

theorem recordedHistograms_scope {x : HistogramFamily × List String}
    (hx : x ∈ recordedHistograms key.eventType (handleLabels mode env kernelNames key event)) :
    x.1.histScope x.2 = (handleLabels mode env kernelNames key event).histLabels := by
  rcases List.mem_cons.mp hx with rfl | hx
  · unfold durationFamily
    split <;> rfl
  · obtain ⟨labels, hlabels, rfl⟩ := List.mem_map.mp hx
    simpa [HistogramFamily.histScope] using kernelHist_scope (Option.mem_toList.mp hlabels) []

end Labels

theorem mem_counterSeries_of_owned {eventType : EventType} {l : HandleLabels}
    {x : CounterFamily × List String} (hx : x ∈ ownedSeries eventType l)
    (kernelMode : KernelMode) : x ∈ counterSeries kernelMode eventType l := by
  rw [counterSeries, List.mem_append, List.mem_append]
  exact .inl (.inl hx)

section Shared

variable {m m' : Metrics} {k k' : MetricKey} {h h' : CachedHandles} {kernelMode : KernelMode}

/-- Among the counters of a handle, those reached through it are told apart by their family. -/
theorem HandleOk.owned_of_byLabels (hh : HandleOk (fun _ => True) m k h)
    {x : CounterFamily × List String} (hx : x ∈ counterSeries kernelMode k.eventType h.labels)
    (hby : x.1.byLabels = false) : x ∈ ownedSeries k.eventType h.labels := by
  obtain ⟨mode, env, kernelNames, event, -, hpid, hlabels⟩ := hh.labels
  rw [counterSeries, List.mem_append, List.mem_append] at hx
  rcases hx with (hx | hx) | hx
  · exact hx
  · rw [hlabels] at hx
    rw [(durationSeries_scope hx).1] at hby
    cases hby
  · rw [hlabels] at hx
    rw [(kernelSeries_scope hx).1] at hby
    cases hby

/-- Two handles that have a counter in common are of one process or have the same histogram
    labels, and a counter that is reached through handles tells the process. -/
theorem HandleOk.shared_counter (hh : HandleOk (fun _ => True) m k h)
    (hh' : HandleOk (fun _ => True) m' k' h') {x : CounterFamily × List String}
    (hx : x ∈ counterSeries kernelMode k.eventType h.labels)
    (hx' : x ∈ counterSeries kernelMode k'.eventType h'.labels) :
    k.pid = k'.pid ∨ x.1.byLabels = true ∧ h.labels.histLabels = h'.labels.histLabels := by
  cases hby : x.1.byLabels with
  | false =>
    left
    have howned := hh.owned_of_byLabels hx hby
    have howned' := hh'.owned_of_byLabels hx' hby
    obtain ⟨mode, env, kernelNames, event, -, hpid, hlabels⟩ := hh.labels
    obtain ⟨mode', env', kernelNames', event', -, hpid', hlabels'⟩ := hh'.labels
    rw [hlabels] at howned
    rw [hlabels'] at howned'
    have hsame := (ownedSeries_pid hpid howned).2.symm.trans (ownedSeries_pid hpid' howned').2
    exact decString_injective (Option.some.inj hsame)
  | true =>
    refine .inr ⟨rfl, ?_⟩
    obtain ⟨mode, env, kernelNames, event, -, hpid, hlabels⟩ := hh.labels
    obtain ⟨mode', env', kernelNames', event', -, hpid', hlabels'⟩ := hh'.labels
    -- both label lists are the scope of the common counter
    have hscope : ∀ {mode env kernelNames event} {k : MetricKey}, event.pid = k.pid →
        x ∈ counterSeries kernelMode k.eventType (handleLabels mode env kernelNames k event) →
        x.1.histScope x.2 = (handleLabels mode env kernelNames k event).histLabels := by
      intro mode env kernelNames event k hpid hx
      rw [counterSeries, List.mem_append, List.mem_append] at hx
      rcases hx with (hx | hx) | hx
      · rw [(ownedSeries_pid hpid hx).1] at hby
        cases hby
      · exact (durationSeries_scope hx).2
      · exact (kernelSeries_scope hx).2
    rw [hlabels] at hx ⊢
    rw [hlabels'] at hx' ⊢
    exact (hscope hpid hx).symm.trans (hscope hpid' hx')

theorem HandleOk.shared_histogram (hh : HandleOk (fun _ => True) m k h)
    (hh' : HandleOk (fun _ => True) m' k' h') {x : HistogramFamily × List String}
    (hx : x ∈ recordedHistograms k.eventType h.labels)
    (hx' : x ∈ recordedHistograms k'.eventType h'.labels) :
    h.labels.histLabels = h'.labels.histLabels := by
  obtain ⟨mode, env, kernelNames, event, -, hpid, hlabels⟩ := hh.labels
  obtain ⟨mode', env', kernelNames', event', -, hpid', hlabels'⟩ := hh'.labels
  rw [hlabels] at hx ⊢
  rw [hlabels'] at hx' ⊢
  exact (recordedHistograms_scope hx).symm.trans (recordedHistograms_scope hx')

/-- The histogram labels start with the operation, so handles that share them are for the same
    operation. -/
theorem HandleOk.eventType_of_histLabels (hh : HandleOk (fun _ => True) m k h)
    (hh' : HandleOk (fun _ => True) m' k' h')
    (hsame : h.labels.histLabels = h'.labels.histLabels) : k.eventType = k'.eventType := by
  have hhead : ∀ {m : Metrics} {k : MetricKey} {h : CachedHandles}, HandleOk (fun _ => True) m k h →
      h.labels.histLabels.head? = some (operationName k.eventType) := by
    intro m k h hh
    obtain ⟨mode, env, kernelNames, event, -, -, hlabels⟩ := hh.labels
    rw [hlabels]
    simp only [handleLabels]
    split <;> rfl
  have hop := (hhead hh).symm.trans ((congrArg List.head? hsame).trans (hhead hh'))
  exact operationName_injective (Option.some.inj hop)

end Shared

/-! ## The counters of a process -/

/-- The label tuples a counter family exports. -/
def Metrics.exported (m : Metrics) (family : CounterFamily) : Set (List String) :=
  {labels | labels ∈ (m.counters family).series}

theorem Metrics.mem_exported {m : Metrics} {family : CounterFamily} {labels : List String} :
    labels ∈ m.exported family ↔ ∃ i, m.counterIndex (family, labels) = some i :=
  FinMap.mem_iff_lookup

/-- The label tuples recorded for a family in the cached handles. -/
def Cache.recorded (cache : Cache) (family : CounterFamily) : Set (List String) :=
  {labels | ∃ k h, cache.handles.lookup k = some h ∧
    (family, labels) ∈ ownedSeries k.eventType h.labels}

/-- The recorded tuples are the labels of the counters of the handle. -/
theorem mem_ownedSeries_iff_held {h : CachedHandles} {eventType : EventType}
    {x : CounterFamily × List String} :
    x ∈ ownedSeries eventType h.labels ↔ ∃ c, (x.1, c, some x.2) ∈ h.held eventType := by
  have heq : ownedSeries eventType h.labels =
      (h.held eventType).filterMap fun y => y.2.2.map (y.1, ·) := rfl
  rw [heq, List.mem_filterMap]
  constructor
  · rintro ⟨⟨f, c, labels⟩, hmem, hx⟩
    obtain ⟨l, rfl, rfl⟩ := Option.map_eq_some_iff.mp hx
    exact ⟨c, hmem⟩
  · rintro ⟨c, hmem⟩
    exact ⟨_, hmem, rfl⟩

theorem Attached.exported {m : Metrics} {f : CounterFamily} {c : Option CounterRef}
    {labels : List String} (h : Attached m (f, c, some labels)) :
    ∃ i, m.counterIndex (f, labels) = some i := by
  cases c with
  | none => exact h.elim
  | some c => exact ⟨c.index, h.2⟩

namespace CacheState

variable {limits : CardinalityLimits} {s : CacheState} {kernelMode : KernelMode}

/-- The counters of the cached handles are exported and theirs, and no other counters that are
    reached through handles are exported. -/
structure Owned (s : CacheState) : Prop where
  labels : s.LabelsOk
  owner : ∀ x i, x.1.byLabels = false → s.metrics.counterIndex x = some i →
    ∃ k h, s.cache.handles.lookup k = some h ∧ x ∈ ownedSeries k.eventType h.labels
  attached : ∀ k h, s.cache.handles.lookup k = some h → ∀ x ∈ h.held k.eventType,
    Attached s.metrics x

theorem owned_init (kernelMode : KernelMode) : Owned (init kernelMode) where
  labels := labelsOk_init kernelMode
  owner := by
    intro x i _ hx
    simp [init, Metrics.new, Metrics.counterIndex, MetricVec.empty] at hx
  attached := by
    intro k h hk
    simp [init, Cache.new] at hk

variable {op : CacheOp} {s' : CacheState} {k : MetricKey}

theorem owned_created {key : MetricKey} {h : CachedHandles} (hs : s.Owned) (hlabels : s'.LabelsOk)
    (hc : Created key h s s') : s'.Owned where
  labels := hlabels
  owner := by
    intro x i hby hx
    rcases hc.series.newCounters x i hx with hold | hnew
    · -- the owner of an old series is still there
      obtain ⟨k, hk, hlookup, howned⟩ := hs.owner x i hby hold
      have hne : k ≠ key := by
        rintro rfl
        exact hc.fresh (FinMap.mem_iff_lookup.mpr ⟨hk, hlookup⟩)
      refine ⟨k, hk, ?_, howned⟩
      rw [hc.handles, AList.lookup_insert_ne hne]
      exact hlookup
    · exact ⟨key, h, by rw [hc.handles, AList.lookup_insert], hnew⟩
  attached := by
    intro k hk hlookup x hx
    rw [hc.handles] at hlookup
    rcases FinMap.lookup_insert_cases hlookup with ⟨rfl, rfl⟩ | ⟨-, hold⟩
    · exact hc.attached x hx
    · exact (hs.attached k hk hold x hx).grown hc.series

/-- A removal by process leaves the counters of the other processes alone. -/
theorem kept_of_removal {P : U32 → Prop} (hs : s.Owned)
    (he : Evicts (fun k => P k.pid) (s.metrics, s.cache) (s'.metrics, s'.cache)) {h : CachedHandles}
    (hlookup : s.cache.handles.lookup k = some h) (hk : ¬P k.pid) {x : CounterFamily × List String}
    (hx : x ∈ ownedSeries k.eventType h.labels) :
    s'.metrics.counterIndex x = s.metrics.counterIndex x := by
  refine he.series.keptCounters x ?_
  rintro ⟨k', h', hP, hlookup', hx'⟩
  have hby : x.1.byLabels = false := by
    obtain ⟨mode, env, kernelNames, event, -, hpid, hlabels⟩ := (hs.labels k h hlookup).labels
    rw [hlabels] at hx
    exact (ownedSeries_pid hpid hx).1
  -- a counter that both handles reach is of one process
  rcases (hs.labels k h hlookup).shared_counter (hs.labels k' h' hlookup')
    (mem_counterSeries_of_owned hx _) hx' with hsame | ⟨hby', -⟩
  · rw [hsame] at hk
    exact hk hP
  · rw [hby] at hby'
    cases hby'

theorem owned_evicted {P : U32 → Prop} (hs : s.Owned) (hlabels : s'.LabelsOk)
    (he : Evicts (fun k => P k.pid) (s.metrics, s.cache) (s'.metrics, s'.cache)) : s'.Owned where
  labels := hlabels
  owner := by
    intro x i hby hx
    -- what is still exported was not removed, so its owner is still there
    by_cases hlost : x ∈ s.cache.countersOf s.metrics.kernelMode fun k => P k.pid
    · rw [he.series.lostCounters x hlost] at hx
      cases hx
    · rw [he.series.keptCounters x hlost] at hx
      obtain ⟨k, h, hlookup, howned⟩ := hs.owner x i hby hx
      have hk : ¬P k.pid := fun hP =>
        hlost ⟨k, h, hP, hlookup, mem_counterSeries_of_owned howned _⟩
      exact ⟨k, h, (he.handles k h).mpr ⟨hk, hlookup⟩, howned⟩
  attached := by
    rintro k h hlookup ⟨f, c, labels⟩ hx
    obtain ⟨hk, hlookup⟩ := (he.handles k h).mp hlookup
    refine Attached.mono (hs.attached k h hlookup _ hx) ?_
    rintro l rfl i hi
    rw [kept_of_removal hs he hlookup hk (mem_ownedSeries_iff_held.mpr ⟨c, hx⟩)]
    exact hi

theorem owned_step (hs : s.Owned) (hop : op.OfProcess) : (s.step limits op).Owned := by
  have hlabels : (s.step limits op).LabelsOk := labelsOk_step hs.labels hop
  rcases step_series limits s op with ⟨r, -, hc⟩ | ⟨hhandles, hgrown⟩ | he
  · exact owned_created hs hlabels hc
  · refine ⟨hlabels, ?_, ?_⟩
    · intro x i hby hx
      rw [hhandles]
      rcases hgrown.newCounters x i hx with hold | hnew
      · exact hs.owner x i hby hold
      · exact absurd hnew (by simp [hby])
    · intro k h hlookup x hx
      rw [hhandles] at hlookup
      exact (hs.attached k h hlookup x hx).grown hgrown
  · exact owned_evicted (P := (· ∈ op.removes s)) hs hlabels he

theorem owned_run {ops : List CacheOp}
    (hops : Runs.Along (step limits) (fun _ op => op.OfProcess) (init kernelMode) ops) :
    (run kernelMode limits ops).Owned :=
  Runs.run_invariant (I := Owned) (fun _ _ h hop => owned_step h hop) (owned_init kernelMode) hops

/-- **Exact ownership.** In every state a run of the cache reaches, the label tuples exported in
    the families that carry the process are exactly those recorded in the cached handles, and
    every counter of a cached handle is the one its labels point at. -/
theorem exported_eq_recorded {ops : List CacheOp}
    (hops : Runs.Along (step limits) (fun _ op => op.OfProcess) (init kernelMode) ops)
    {family : CounterFamily}
    (hfamily : family ∈ [.cudaCalls, .cudaMemcpyBytes, .cudaMallocBytes, .cudaErrors, .ncclCalls,
      .ncclBytes, CounterFamily.cudaKernelLaunches]) :
    let s := run kernelMode limits ops
    s.metrics.exported family = s.cache.recorded family ∧
      ∀ k h, s.cache.handles.lookup k = some h → ∀ x ∈ h.held k.eventType,
        Attached s.metrics x := by
  intro s
  have hs : s.Owned := owned_run hops
  have hby : family.byLabels = false := by
    revert family
    decide
  refine ⟨?_, hs.attached⟩
  ext labels
  rw [Metrics.mem_exported]
  constructor
  · rintro ⟨i, hi⟩
    exact hs.owner (family, labels) i hby hi
  · rintro ⟨k, h, hlookup, hx⟩
    obtain ⟨c, hc⟩ := mem_ownedSeries_iff_held.mp hx
    exact (hs.attached k h hlookup _ hc).exported

/-- A request for a handle of a process in a pod of the namespace "jobs". -/
def podRequest (pod : String) (pid : U32) (eventType : EventType) : CacheRequest where
  key := ⟨eventType, pid, 0, 0, 0, 0, 0⟩
  env := ⟨fun _ => some ⟨"jobs", pod, "main"⟩, fun _ => none, fun _ => none, KeyOrder.asListed _⟩
  event := ⟨eventType, pid, pid, 0, 0, 0, 0, 0, 0, List.replicate 16 0, List.replicate 16 0, 0⟩

/-- Two allocating processes of a pod, one of which is removed. -/
theorem exported_eq_recorded_one_left :
    let s := run .full {} [.getOrCreate (podRequest "trainer" 7 .cudaMalloc),
      .getOrCreate (podRequest "trainer" 8 .cudaMalloc), .invalidatePids [7]]
    s.cache.handles.size = 1 ∧
      s.metrics.exported .cudaMallocBytes = s.cache.recorded .cudaMallocBytes := by
  intro s
  refine ⟨by decide, (exported_eq_recorded ?_ (by decide)).1⟩
  exact ⟨rfl, rfl, trivial, trivial⟩

/-! ## Removals and the series of other processes -/

/-- A handle is whole after a removal: the tuples recorded in it are exported, and all its series
    read as they did before. -/
structure Unharmed (m m' : Metrics) (eventType : EventType) (l : HandleLabels) : Prop where
  counters : ∀ x ∈ counterSeries m.kernelMode eventType l, m'.counterAt x = m.counterAt x
  histograms : ∀ x ∈ recordedHistograms eventType l, m'.histogramAt x = m.histogramAt x
  countersBacked : ∀ x ∈ ownedSeries eventType l, m'.counterAt x ≠ none
  histogramsBacked : ∀ x ∈ recordedHistograms eventType l, m'.histogramAt x ≠ none

/-- After a removal, every handle that is still cached is whole. -/
def KeepsOthers (limits : CardinalityLimits) (s : CacheState) (op : CacheOp) : Prop :=
  op.IsRemoval → ∀ k h, (s.step limits op).cache.handles.lookup k = some h →
    Unharmed s.metrics (s.step limits op).metrics k.eventType h.labels

/-- No handle that is removed has the histogram labels of one that stays. -/
def Separate (s : CacheState) (op : CacheOp) : Prop :=
  ∀ k h k' h', s.cache.handles.lookup k = some h → s.cache.handles.lookup k' = some h' →
    k.pid ∈ op.removes s → k'.pid ∉ op.removes s → h.labels.histLabels ≠ h'.labels.histLabels

theorem separate_iff {s : CacheState} :
    s.Separate op ↔ ∀ k ∈ s.cache.handles.keys, ∀ k' ∈ s.cache.handles.keys,
      k.pid ∈ op.removes s → k'.pid ∉ op.removes s →
        (s.cache.handles.lookup k).map (·.labels.histLabels) ≠
          (s.cache.handles.lookup k').map (·.labels.histLabels) := by
  constructor
  · intro hsep k hmem k' hmem' hk hk' hsame
    obtain ⟨h, hlookup⟩ := FinMap.exists_lookup_of_mem_keys hmem
    obtain ⟨h', hlookup'⟩ := FinMap.exists_lookup_of_mem_keys hmem'
    rw [hlookup, hlookup'] at hsame
    exact hsep k h k' h' hlookup hlookup' hk hk' (Option.some.inj hsame)
  · intro hsep k h k' h' hlookup hlookup' hk hk' hsame
    refine hsep k (FinMap.mem_iff_lookup.mpr ⟨h, hlookup⟩) k'
      (FinMap.mem_iff_lookup.mpr ⟨h', hlookup'⟩) hk hk' ?_
    rw [hlookup, hlookup', Option.map_some, Option.map_some, hsame]

instance Separate.decidable (s : CacheState) (op : CacheOp) : Decidable (s.Separate op) :=
  decidable_of_iff' _ separate_iff

/-- The histograms recorded in the cached handles are exported. -/
def Backed (s : CacheState) : Prop :=
  ∀ k h, s.cache.handles.lookup k = some h → ∀ x ∈ recordedHistograms k.eventType h.labels,
    ∃ i, s.metrics.histogramIndex x = some i

/-- A removal that is separate leaves the histograms of the other handles alone. -/
theorem histogram_spared (hs : s.LabelsOk) (hsep : s.Separate op) {h : CachedHandles}
    (hlookup : s.cache.handles.lookup k = some h) (hk : k.pid ∉ op.removes s)
    {x : HistogramFamily × List String} (hx : x ∈ recordedHistograms k.eventType h.labels) :
    x ∉ s.cache.histogramsOf s.metrics.kernelMode (·.pid ∈ op.removes s) := by
  rintro ⟨k', h', hk', hlookup', hx'⟩
  exact hsep k' h' k h hlookup' hlookup hk' hk ((hs k' h' hlookup').shared_histogram
    (hs k h hlookup) (recorded_of_mem_histogramSeries hx') hx)

/-- And their counters. -/
theorem counter_spared (hs : s.LabelsOk) (hsep : s.Separate op) {h : CachedHandles}
    (hlookup : s.cache.handles.lookup k = some h) (hk : k.pid ∉ op.removes s)
    {x : CounterFamily × List String}
    (hx : x ∈ counterSeries s.metrics.kernelMode k.eventType h.labels) :
    x ∉ s.cache.countersOf s.metrics.kernelMode (·.pid ∈ op.removes s) := by
  rintro ⟨k', h', hk', hlookup', hx'⟩
  rcases (hs k' h' hlookup').shared_counter (hs k h hlookup) hx' hx with hsame | ⟨-, hsame⟩
  · rw [hsame] at hk'
    exact hk hk'
  · exact hsep k' h' k h hlookup' hlookup hk' hk hsame

theorem backed_step (hlabels : s.LabelsOk) (hs : s.Backed) (hsep : s.Separate op) :
    (s.step limits op).Backed := by
  intro k h hlookup x hx
  rcases step_series limits s op with ⟨r, -, hc⟩ | ⟨hhandles, hgrown⟩ | he
  · rw [hc.handles] at hlookup
    rcases FinMap.lookup_insert_cases hlookup with ⟨rfl, rfl⟩ | ⟨-, hold⟩
    · exact hc.series.madeHistograms x hx
    · obtain ⟨i, hi⟩ := hs k h hold x hx
      exact ⟨i, hc.series.histograms x i hi⟩
  · rw [hhandles] at hlookup
    obtain ⟨i, hi⟩ := hs k h hlookup x hx
    exact ⟨i, hgrown.histograms x i hi⟩
  · -- a removal: the handle survives, and separation says its series were not taken
    obtain ⟨hk, hlookup⟩ := (he.handles k h).mp hlookup
    obtain ⟨i, hi⟩ := hs k h hlookup x hx
    refine ⟨i, ?_⟩
    rw [he.series.keptHistograms x (histogram_spared hlabels hsep hlookup hk hx)]
    exact hi

/-- A handle that shares its histogram labels with a removed one loses its histogram. -/
theorem separate_of_keepsOthers (hs : s.LabelsOk) (hkeeps : s.KeepsOthers limits op) :
    s.Separate op := by
  intro k h k' h' hlookup hlookup' hk hk' hsame
  have hop : op.IsRemoval := by
    cases op with
    | invalidatePids pids => trivial
    | gc now staleAfter => trivial
    | _ => cases hk
  have he := evicts_of_isRemoval limits s hop
  -- the histogram both record is taken out
  have htype := (hs k h hlookup).eventType_of_histLabels (hs k' h' hlookup') hsame
  have hlost : (durationFamily k'.eventType, h'.labels.histLabels) ∈
      s.cache.histogramsOf s.metrics.kernelMode (·.pid ∈ op.removes s) := by
    refine ⟨k, h, hk, hlookup, ?_⟩
    rw [← htype, ← hsame]
    exact List.mem_cons_self
  refine (hkeeps hop k' h' ((he.handles k' h').mpr ⟨hk', hlookup'⟩)).histogramsBacked _
    List.mem_cons_self ?_
  exact MetricVec.value_eq_none_iff.mpr (he.series.lostHistograms _ hlost)

theorem keepsOthers_of_separate (hs : s.Owned) (hbacked : s.Backed) (hsep : s.Separate op) :
    s.KeepsOthers limits op := by
  intro hop k h hlookup
  have he := evicts_of_isRemoval limits s hop
  obtain ⟨hk, hlookup⟩ := (he.handles k h).mp hlookup
  have hcounters : ∀ x ∈ counterSeries s.metrics.kernelMode k.eventType h.labels,
      (s.step limits op).metrics.counterAt x = s.metrics.counterAt x := fun x hx =>
    he.series.counterAt (counter_spared hs.labels hsep hlookup hk hx)
  have hhistograms : ∀ x ∈ recordedHistograms k.eventType h.labels,
      (s.step limits op).metrics.histogramAt x = s.metrics.histogramAt x := fun x hx =>
    he.series.histogramAt (histogram_spared hs.labels hsep hlookup hk hx)
  -- a handle holds its series, so none of them can be missing
  refine ⟨hcounters, hhistograms, fun x hx hnone => ?_, fun x hx hnone => ?_⟩
  · rw [hcounters x (mem_counterSeries_of_owned hx _)] at hnone
    obtain ⟨c, hc⟩ := mem_ownedSeries_iff_held.mp hx
    obtain ⟨i, hi⟩ := (hs.attached k h hlookup _ hc).exported
    exact absurd (hi.symm.trans (MetricVec.value_eq_none_iff.mp hnone)) (by simp)
  · rw [hhistograms x hx] at hnone
    obtain ⟨i, hi⟩ := hbacked k h hlookup x hx
    exact absurd (hi.symm.trans (MetricVec.value_eq_none_iff.mp hnone)) (by simp)

/-- **Removals and other processes.** All removals of a run leave the handles that stay whole
    exactly if none of them removes a handle that has the histogram labels of one that stays. -/
theorem keeps_others_iff (kernelMode : KernelMode) (limits : CardinalityLimits)
    {ops : List CacheOp}
    (hops : Runs.Along (step limits) (fun _ op => op.OfProcess) (init kernelMode) ops) :
    Runs.Along (step limits) (KeepsOthers limits) (init kernelMode) ops ↔
      Runs.Along (step limits) Separate (init kernelMode) ops := by
  constructor
  · intro hkeeps
    have hinv := hops.and_invariant (I := LabelsOk) (fun _ _ h hop => labelsOk_step h hop)
      (labelsOk_init kernelMode)
    exact (hkeeps.and hinv).mono fun _ _ h => separate_of_keepsOthers h.2.2 h.1
  · intro hsep
    -- a histogram that was lost earlier would stay lost, so the whole past has to be separate
    have hinv := (hops.and hsep).and_invariant (I := fun s => s.Owned ∧ s.Backed)
      (fun _ _ h hop => ⟨owned_step h.1 hop.1, backed_step h.1.labels h.2 hop.2⟩)
      ⟨owned_init kernelMode, by
        intro k h hlookup
        simp [init, Cache.new] at hlookup⟩
    exact hinv.mono fun _ _ h => keepsOthers_of_separate h.2.1 h.2.2 h.1.2

/-- Processes of different pods are removed separately. -/
theorem keeps_others_iff_two_pods :
    Runs.Along (step {}) (KeepsOthers {}) (init .full)
      [.getOrCreate (podRequest "trainer" 7 .cudaMalloc),
        .getOrCreate (podRequest "server" 8 .cudaMalloc), .invalidatePids [7]] := by
  refine (keeps_others_iff .full {} ?_).mpr (by decide)
  exact ⟨rfl, rfl, trivial, trivial⟩

/-- Two processes of one pod allocate, the second one's call is counted, and the first one is
    removed. The handle of the second is still cached, but the histogram and the count it is
    recorded with are gone. -/
theorem removal_takes_pod_series :
    let hist := ["cudaMalloc", "jobs", "trainer", ""]
    let s := run .full {} [.getOrCreate (podRequest "trainer" 7 .cudaMalloc),
      .getOrCreate (podRequest "trainer" 8 .cudaMalloc),
      .write (.incLabels .cudaDurationCountTotal rfl hist 1)]
    let s' := s.step {} (.invalidatePids [7])
    (s'.cache.handles.lookup (podRequest "trainer" 8 .cudaMalloc).key).map (·.labels.histLabels) =
        some hist ∧
      s.metrics.counterAt (.cudaDurationCountTotal, hist) = some 1 ∧
      s'.metrics.counterAt (.cudaDurationCountTotal, hist) = none ∧
      s.metrics.histogramAt (.cudaDuration, hist) = some [] ∧
      s'.metrics.histogramAt (.cudaDuration, hist) = none := by
  decide

end CacheState

end Profi
