import Profi.Registry

/-!
# Cumulative Sums over OTLP

The bridge gathers the registry at each of its ticks and sends every counter as a monotonic
cumulative sum, all with the start time of the process. A backend takes a value that is lower than
the last one at the same start time for an error.

A counter never falls, but a series that is removed and made again points at a new counter. So the
sums of two successive exports go forward exactly if each series that was made again in between has
caught up (`OtlpSys.forward_iff`); a gc tick between two exports is enough to make one go back.
-/

namespace Profi

variable {n : ℕ}

/-! ## Families -/

/-- The counter families the event loop writes. -/
inductive SumFamily where
  | counter (family : CounterFamily)
  | cardinalityDrops
  deriving DecidableEq

def CounterFamily.metricName : CounterFamily → String
  | cudaCalls => "profi_cuda_calls_total"
  | cudaMemcpyBytes => "profi_cuda_memcpy_bytes_total"
  | cudaMallocBytes => "profi_cuda_malloc_bytes_total"
  | cudaErrors => "profi_cuda_errors_total"
  | cudaKernelLaunches => "profi_cuda_kernel_launches_total"
  | ncclCalls => "profi_nccl_calls_total"
  | ncclBytes => "profi_nccl_bytes_total"
  | cudaDurationBucketTotal => "profi_cuda_duration_bucket_total"
  | cudaDurationSumSecondsTotal => "profi_cuda_duration_sum_seconds_total"
  | cudaDurationCountTotal => "profi_cuda_duration_count_total"
  | ncclDurationBucketTotal => "profi_nccl_duration_bucket_total"
  | ncclDurationSumSecondsTotal => "profi_nccl_duration_sum_seconds_total"
  | ncclDurationCountTotal => "profi_nccl_duration_count_total"
  | cudaKernelDurationBucketTotal => "profi_cuda_kernel_duration_bucket_total"
  | cudaKernelDurationSumSecondsTotal => "profi_cuda_kernel_duration_sum_seconds_total"
  | cudaKernelDurationCountTotal => "profi_cuda_kernel_duration_count_total"

def CounterFamily.help : CounterFamily → String
  | cudaCalls => "Total CUDA Runtime API calls"
  | cudaMemcpyBytes => "Bytes transferred via cudaMemcpy/cudaMemcpyAsync"
  | cudaMallocBytes => "Bytes allocated via cudaMalloc"
  | cudaErrors => "CUDA/NCCL API calls returning non-zero error codes"
  | cudaKernelLaunches => "CUDA kernel launches by kernel name"
  | ncclCalls => "Total NCCL collective calls"
  | ncclBytes => "Bytes transferred via NCCL collectives"
  | cudaDurationBucketTotal =>
    "Cumulative CUDA API latency bucket counts from aggregate eBPF maps"
  | cudaDurationSumSecondsTotal => "Cumulative CUDA API latency sum from aggregate eBPF maps"
  | cudaDurationCountTotal => "Cumulative CUDA API latency sample count from aggregate eBPF maps"
  | ncclDurationBucketTotal => "Cumulative NCCL latency bucket counts from aggregate eBPF maps"
  | ncclDurationSumSecondsTotal => "Cumulative NCCL latency sum from aggregate eBPF maps"
  | ncclDurationCountTotal => "Cumulative NCCL latency sample count from aggregate eBPF maps"
  | cudaKernelDurationBucketTotal =>
    "Cumulative CUDA kernel launch latency bucket counts from aggregate eBPF maps"
  | cudaKernelDurationSumSecondsTotal =>
    "Cumulative CUDA kernel launch latency sum from aggregate eBPF maps"
  | cudaKernelDurationCountTotal =>
    "Cumulative CUDA kernel launch latency sample count from aggregate eBPF maps"

namespace SumFamily

def name : SumFamily → String
  | counter family => family.metricName
  | cardinalityDrops => "profi_cardinality_limit_drops_total"

def help : SumFamily → String
  | counter family => family.help
  | cardinalityDrops => "Events dropped due to cardinality limit (--max-time-series exceeded)"

def labelNames : SumFamily → List String
  | counter family => family.labelNames
  | cardinalityDrops => []

/-- The series of the family, with their values. -/
def points (m : Metrics) : SumFamily → List (List String × ℕ)
  | counter family => (m.counters family).points
  | cardinalityDrops => [([], m.cardinalityDrops)]

/-- The registry goes through its families by name. -/
def all : List SumFamily :=
  [cardinalityDrops, counter .cudaCalls, counter .cudaDurationBucketTotal,
    counter .cudaDurationCountTotal, counter .cudaDurationSumSecondsTotal, counter .cudaErrors,
    counter .cudaKernelDurationBucketTotal, counter .cudaKernelDurationCountTotal,
    counter .cudaKernelDurationSumSecondsTotal, counter .cudaKernelLaunches,
    counter .cudaMallocBytes, counter .cudaMemcpyBytes, counter .ncclBytes, counter .ncclCalls,
    counter .ncclDurationBucketTotal, counter .ncclDurationCountTotal,
    counter .ncclDurationSumSecondsTotal]

theorem mem_all (family : SumFamily) : family ∈ all := by
  cases family with
  | counter family => cases family <;> decide
  | cardinalityDrops => decide

theorem name_injective : Function.Injective name := by
  intro a b h
  have hall : ∀ a ∈ all, ∀ b ∈ all, a.name = b.name → a = b := by decide
  exact hall a (mem_all a) b (mem_all b) h

end SumFamily

/-! ## Conversion -/

/-- A gathered family of counters. -/
structure MetricFamily where
  name : String
  help : String
  metrics : List (List (String × String) × ℕ)

/-- The label pairs of a series are sorted by name. -/
def labelPairs (names labels : List String) : List (String × String) :=
  (names.zip labels).mergeSort fun a b => a.1 ≤ b.1

/-- `registry.gather()`: families without series are left out. The series of a family are sorted by
    their labels, on which nothing depends here. -/
def gather (m : Metrics) : List MetricFamily :=
  (SumFamily.all.map fun family =>
    { name := family.name
      help := family.help
      metrics := (family.points m).map fun x => (labelPairs family.labelNames x.1, x.2) }).filter
    fun family : MetricFamily => !family.metrics.isEmpty

/-- `SELF_OBS_PREFIX`. -/
def selfObsPrefix : String := "profi_system_"

def shouldSkipMetric (name : String) : Bool := selfObsPrefix.toList.isPrefixOf name.toList

/-- `LABEL_MAP`. -/
def labelMap : List (String × String) :=
  [("pod", "k8s.pod.name"), ("namespace", "k8s.namespace.name"),
    ("container", "k8s.container.name"), ("gpu", "gpu.id"), ("gpu_uuid", "gpu.uuid"),
    ("gpu_model", "gpu.model"), ("pid", "process.pid"), ("comm", "process.command"),
    ("operation", "profi.operation"), ("kernel", "profi.kernel"),
    ("kernel_class", "profi.kernel.class"), ("phase", "profi.phase"),
    ("direction", "profi.memcpy.direction"), ("stream", "profi.cuda.stream"),
    ("error_code", "profi.error.code")]

/-- The attribute of a label. -/
def otelKey (name : String) : String := (labelMap.lookup name).getD ("profi." ++ name)

def translateLabels (labels : List (String × String)) : List (String × String) :=
  labels.map fun lp => (otelKey lp.1, lp.2)

structure DataPoint where
  attributes : List (String × String)
  startTime : ℕ
  time : ℕ
  value : ℕ
  deriving DecidableEq

inductive Temporality where
  | cumulative | delta
  deriving DecidableEq

/-- A metric whose data is a sum. -/
structure SumMetric where
  name : String
  description : String
  unit : String
  dataPoints : List DataPoint
  temporality : Temporality
  isMonotonic : Bool

def counterFamilyToOtlp (family : MetricFamily) (startTime now : ℕ) : Option SumMetric :=
  let dataPoints := family.metrics.map fun m => ⟨translateLabels m.1, startTime, now, m.2⟩
  if dataPoints.isEmpty then none
  else
    some
      { name := family.name
        description := family.help
        unit := ""
        dataPoints
        temporality := .cumulative
        isMonotonic := true }

/-- The counters of an export. -/
def otlpMetrics (startTime now : ℕ) (m : Metrics) : List SumMetric :=
  ((gather m).filter fun f => !shouldSkipMetric f.name).filterMap
    fun f => counterFamilyToOtlp f startTime now

/-! ## The bridge -/

/-- The system with the bridge: the start time is fixed when the bridge is started, and `last` is a
    record for specifications, of the time and the registry of the last export. -/
structure OtlpSys (n : ℕ) where
  sys : Sys n
  startTime : ℕ
  last : Option (ℕ × Metrics)

inductive OtlpEvent (n : ℕ) where
  | sys (e : Event n)
  | tick (now : ℕ)

namespace OtlpSys

variable (args : Args)

def init (n startTime : ℕ) : OtlpSys n := ⟨.init n args, startTime, none⟩

def step (s : OtlpSys n) : OtlpEvent n → OtlpSys n
  | .sys e => { s with sys := s.sys.step args e }
  | .tick now =>
    -- nothing is sent without metrics
    if (otlpMetrics s.startTime now s.sys.loop.metrics).isEmpty then s
    else { s with last := some (now, s.sys.loop.metrics) }

/-- The sums of two exports go forward: points with the same attributes have the same start time,
    and the later value is not lower. -/
def SumsForward (before after : List SumMetric) : Prop :=
  ∀ a ∈ before, ∀ b ∈ after, a.name = b.name → ∀ p ∈ a.dataPoints, ∀ q ∈ b.dataPoints,
    p.attributes = q.attributes → p.startTime = q.startTime ∧ p.value ≤ q.value

/-- The export of a tick goes forward from the last one. -/
def Forward (s : OtlpSys n) : OtlpEvent n → Prop
  | .sys _ => True
  | .tick now => ∀ prev ∈ s.last, SumsForward (otlpMetrics s.startTime prev.1 prev.2)
      (otlpMetrics s.startTime now s.sys.loop.metrics)

/-- At a tick, no series of the last export has been removed and made again. -/
def NoneRemade (s : OtlpSys n) : OtlpEvent n → Prop
  | .sys _ => True
  | .tick _ => ∀ prev ∈ s.last, ∀ x i j, prev.2.counterIndex x = some i →
      s.sys.loop.metrics.counterIndex x = some j → i = j

/-- At a tick, the series of the last export that have been made again have caught up. -/
def CaughtUp (s : OtlpSys n) : OtlpEvent n → Prop
  | .sys _ => True
  | .tick _ => ∀ prev ∈ s.last, ∀ x i j, prev.2.counterIndex x = some i →
      s.sys.loop.metrics.counterIndex x = some j → i ≠ j →
        ∀ v ∈ prev.2.counterAt x, ∀ w ∈ s.sys.loop.metrics.counterAt x, v ≤ w

end OtlpSys

/-! ## Attributes tell series apart -/

theorem otelKey_injOn (family : CounterFamily) :
    ∀ a ∈ family.labelNames, ∀ b ∈ family.labelNames, otelKey a = otelKey b → a = b := by
  cases family <;> decide

theorem mem_labelPairs {names labels : List String} {p : String × String} :
    p ∈ labelPairs names labels ↔ p ∈ names.zip labels :=
  List.mem_mergeSort

/-- Two tuples of a family with the same attributes are the same. -/
theorem labels_eq_of_attributes {family : CounterFamily} {labels labels' : List String}
    (hlabels : HasArity (family, labels)) (hlabels' : HasArity (family, labels'))
    (h : translateLabels (labelPairs family.labelNames labels) =
      translateLabels (labelPairs family.labelNames labels')) : labels = labels' := by
  apply List.ext_getElem (hlabels.trans hlabels'.symm)
  intro i hi hi'
  have hname : i < family.labelNames.length := hlabels ▸ hi
  -- the pair at `i` has its attribute, which a pair of the other tuple has as well
  have hpair : (family.labelNames[i], labels[i]) ∈ labelPairs family.labelNames labels := by
    rw [mem_labelPairs, List.mem_iff_getElem]
    exact ⟨i, by simp [hname, hi], by simp⟩
  have hattr := List.mem_map_of_mem (f := fun lp : String × String => (otelKey lp.1, lp.2)) hpair
  change _ ∈ translateLabels _ at hattr
  rw [h] at hattr
  obtain ⟨⟨name, v⟩, hmem, heq⟩ := List.mem_map.mp hattr
  rw [mem_labelPairs] at hmem
  obtain ⟨hkey, rfl⟩ := Prod.mk.inj heq
  have hsame : name = family.labelNames[i] :=
    otelKey_injOn family name (List.of_mem_zip hmem).1 _ (List.getElem_mem hname) hkey
  subst hsame
  have hvalue := MetricVec.getElem?_idxOf_of_mem_zip family.labelNames_nodup hmem
  rw [family.labelNames_nodup.idxOf_getElem, List.getElem?_eq_getElem hi'] at hvalue
  exact (Option.some.inj hvalue).symm

/-! ## What is sent -/

theorem not_skipped (family : SumFamily) : shouldSkipMetric family.name = false := by
  have hall : ∀ family ∈ SumFamily.all, shouldSkipMetric family.name = false := by decide
  exact hall family (SumFamily.mem_all family)

/-- The points of an export are the exported series. -/
theorem exists_dataPoint_iff {startTime now : ℕ} {m : Metrics} {name : String} {p : DataPoint} :
    (∃ a ∈ otlpMetrics startTime now m, a.name = name ∧ p ∈ a.dataPoints) ↔
      ∃ family labels v, SumFamily.name family = name ∧ (labels, v) ∈ family.points m ∧
        p = ⟨translateLabels (labelPairs family.labelNames labels), startTime, now, v⟩ := by
  constructor
  · rintro ⟨a, ha, rfl, hp⟩
    obtain ⟨f, hf, hsome⟩ := List.mem_filterMap.mp ha
    -- a gathered family is one of the registry
    obtain ⟨family, -, rfl⟩ := List.mem_map.mp (List.mem_of_mem_filter (List.mem_of_mem_filter hf))
    unfold counterFamilyToOtlp at hsome
    simp only at hsome
    split at hsome
    · cases hsome
    · cases hsome
      simp only [List.map_map, List.mem_map, Function.comp_apply] at hp
      obtain ⟨⟨labels, v⟩, hpoint, rfl⟩ := hp
      exact ⟨family, labels, v, rfl, hpoint, rfl⟩
  · rintro ⟨family, labels, v, rfl, hpoint, rfl⟩
    -- the family has a point and no skipped name, so it is gathered and sent
    let f : MetricFamily :=
      { name := family.name
        help := family.help
        metrics := (family.points m).map fun x => (labelPairs family.labelNames x.1, x.2) }
    have hmetric : (labelPairs family.labelNames labels, v) ∈ f.metrics :=
      List.mem_map_of_mem (f := fun x => (labelPairs family.labelNames x.1, x.2)) hpoint
    have hgathered : f ∈ (gather m).filter fun f => !shouldSkipMetric f.name := by
      refine List.mem_filter.mpr ⟨List.mem_filter.mpr ⟨?_, ?_⟩, ?_⟩
      · exact List.mem_map.mpr ⟨family, family.mem_all, rfl⟩
      · simpa using List.ne_nil_of_mem hmetric
      · show (!shouldSkipMetric family.name) = true
        rw [not_skipped]
        rfl
    have hdata := List.mem_map_of_mem
      (f := fun m : List (String × String) × ℕ =>
        (⟨translateLabels m.1, startTime, now, m.2⟩ : DataPoint))
      hmetric
    refine ⟨_, List.mem_filterMap.mpr ⟨f, hgathered, if_neg ?_⟩, rfl, hdata⟩
    simpa using List.ne_nil_of_mem hmetric

/-- Two exports with the same start time go forward if the values do, series by series. -/
theorem sumsForward_iff {startTime now now' : ℕ} {m m' : Metrics} (hm : m.Fits) (hm' : m'.Fits) :
    OtlpSys.SumsForward (otlpMetrics startTime now m) (otlpMetrics startTime now' m') ↔
      ∀ family labels v w, (labels, v) ∈ SumFamily.points m family →
        (labels, w) ∈ SumFamily.points m' family → v ≤ w := by
  constructor
  · intro h family labels v w hv hw
    obtain ⟨a, ha, hname, hp⟩ := exists_dataPoint_iff.mpr ⟨family, labels, v, rfl, hv, rfl⟩
    obtain ⟨b, hb, hname', hq⟩ := exists_dataPoint_iff.mpr ⟨family, labels, w, rfl, hw, rfl⟩
    exact (h a ha b hb (hname.trans hname'.symm) _ hp _ hq rfl).2
  · intro h a ha b hb hname p hp q hq hattr
    obtain ⟨family, labels, v, hfamily, hv, rfl⟩ := exists_dataPoint_iff.mp ⟨a, ha, rfl, hp⟩
    obtain ⟨family', labels', w, hfamily', hw, rfl⟩ := exists_dataPoint_iff.mp ⟨b, hb, rfl, hq⟩
    have hsame : family = family' :=
      SumFamily.name_injective (hfamily.trans (hname.trans hfamily'.symm))
    subst hsame
    refine ⟨rfl, h family labels v w hv ?_⟩
    -- the tuples are the same, because the attributes are
    cases family with
    | cardinalityDrops =>
      simp only [SumFamily.points, List.mem_singleton, Prod.mk.injEq] at hv hw ⊢
      exact ⟨hv.1, hw.2⟩
    | counter family =>
      have harity : ∀ {m : Metrics} {l : List String} {x : ℕ}, m.Fits →
          (l, x) ∈ (m.counters family).points → HasArity (family, l) := by
        intro m l x hfits hx
        obtain ⟨i, hi, -⟩ := Option.bind_eq_some_iff.mp (MetricVec.mem_points.mp hx)
        exact hfits (family, l) i hi
      rw [labels_eq_of_attributes (harity hm hv) (harity hm' hw) hattr]
      exact hw

/-! ## Runs -/

namespace OtlpSys

variable {args : Args} {s : OtlpSys n}

/-- What holds in every state: the registry has climbed since the last export. -/
structure Sound (s : OtlpSys n) : Prop where
  owned : s.sys.loop.cacheState.Owned
  fits : s.sys.loop.metrics.Fits
  climbs : ∀ prev ∈ s.last, prev.2.Fits ∧ prev.2.Climbs s.sys.loop.metrics

theorem Sound.step (h : s.Sound) (e : OtlpEvent n) : (s.step args e).Sound := by
  cases e with
  | sys e =>
    refine ⟨(s.sys.step_reaches e).owned h.owned, Sys.fits_step h.owned h.fits e, ?_⟩
    intro prev hprev
    obtain ⟨hfits, hclimbs⟩ := h.climbs prev hprev
    exact ⟨hfits, hclimbs.trans (Sys.climbs_step h.owned e)⟩
  | tick now =>
    unfold OtlpSys.step
    simp only
    split
    · exact h
    · refine ⟨h.owned, h.fits, ?_⟩
      rintro prev hprev
      cases hprev
      exact ⟨h.fits, .refl _⟩

/-- A series that points at the same counter goes forward by itself. -/
theorem forward_iff_caughtUp (h : s.Sound) (e : OtlpEvent n) : s.Forward e ↔ s.CaughtUp e := by
  cases e with
  | sys e => exact Iff.rfl
  | tick now =>
    refine forall₂_congr fun prev hprev => ?_
    obtain ⟨hfits, hclimbs⟩ := h.climbs prev hprev
    rw [sumsForward_iff hfits h.fits]
    constructor
    · rintro hforward ⟨family, labels⟩ i j - - - v hv w hw
      exact hforward (.counter family) labels v w (MetricVec.mem_points.mpr hv)
        (MetricVec.mem_points.mpr hw)
    · intro hcaught family labels v w hv hw
      cases family with
      | cardinalityDrops =>
        simp only [SumFamily.points, List.mem_singleton, Prod.mk.injEq] at hv hw
        rw [hv.2, hw.2]
        exact hclimbs.cardinalityDrops
      | counter family =>
        have hv' := MetricVec.mem_points.mp hv
        have hw' := MetricVec.mem_points.mp hw
        obtain ⟨i, hi, -⟩ := Option.bind_eq_some_iff.mp hv'
        obtain ⟨j, hj, -⟩ := Option.bind_eq_some_iff.mp hw'
        -- the same counter climbs; another one has to have caught up
        by_cases hij : i = j
        · subst hij
          exact (hclimbs.counters family).value_le hi hj hv' hw'
        · exact hcaught (family, labels) i j hi hj hij v hv' w hw'

theorem caughtUp_of_noneRemade (e : OtlpEvent n) (h : s.NoneRemade e) : s.CaughtUp e := by
  cases e with
  | sys e => trivial
  | tick now =>
    intro prev hprev x i j hi hj hij
    exact absurd (h prev hprev x i j hi hj) hij

/-- In every run, all exports go forward exactly if at each of them the series that were made again
    since the last one have caught up. This is so if none was. -/
theorem forward_iff (args : Args) (n startTime : ℕ) (es : List (OtlpEvent n)) :
    (Runs.Along (step args) Forward (init args n startTime) es ↔
        Runs.Along (step args) CaughtUp (init args n startTime) es) ∧
      (Runs.Along (step args) NoneRemade (init args n startTime) es →
        Runs.Along (step args) Forward (init args n startTime) es) := by
  have hinit : (init args n startTime).Sound := by
    refine ⟨CacheState.owned_init args.kernelMode, .new args.kernelMode, ?_⟩
    intro prev hprev
    cases hprev
  have hstep : ∀ (s : OtlpSys n) e, s.Sound → True → (s.step args e).Sound :=
    fun s e h _ => h.step e
  have hiff := Runs.along_iff_of_invariant (P := fun _ _ => True)
    (I := fun s : OtlpSys n => s.Sound) hstep (fun s e h _ => forward_iff_caughtUp h e) hinit
    (Runs.along_true _ _ es)
  refine ⟨hiff, fun hnone => hiff.mpr ?_⟩
  exact hnone.mono fun s e h => caughtUp_of_noneRemade e h

/-- Process 7 makes two calls, is exported and evicted, and makes one more call before the next
    export. -/
def countAgain : List (OtlpEvent 1) :=
  let call (t : U64) : List (OtlpEvent 1) :=
    [.sys (.enter (.cudaStreamSync 0) (Sys.bareCtx 0x700000007 t 0)),
      .sys (.ret (Sys.bareCtx 0x700000007 (t + 1) 0))]
  call 1 ++ call 3 ++ [.sys (.aggTick .bare), .tick 10,
    .sys (.gcTick { LoopEnv.bare with now := 1000000000000 })] ++
    call 5 ++ [.sys (.aggTick .bare)]

/-- The sum of its calls goes from two back to one. -/
theorem sum_goes_back :
    ¬Runs.Along (step {}) Forward (init {} 1 0) (countAgain ++ [.tick 20]) := by
  rw [Runs.along_append]
  rintro ⟨-, hforward, -⟩
  let calls : SumFamily := .counter .cudaCalls
  let labels := ["cudaStreamSync", "7", "unknown", "", "", "", "", "", "default"]
  have hpoints : ∃ prev ∈ (Runs.run (step {}) (init {} 1 0) countAgain).last,
      (labels, 2) ∈ calls.points prev.2 ∧
        (labels, 1) ∈ calls.points
          (Runs.run (step {}) (init {} 1 0) countAgain).sys.loop.metrics := by
    decide +kernel
  obtain ⟨prev, hprev, hv, hw⟩ := hpoints
  obtain ⟨a, ha, hname, hp⟩ := exists_dataPoint_iff.mpr ⟨calls, labels, 2, rfl, hv, rfl⟩
  obtain ⟨b, hb, hname', hq⟩ := exists_dataPoint_iff.mpr ⟨calls, labels, 1, rfl, hw, rfl⟩
  have hle : 2 ≤ 1 := (hforward prev hprev a ha b hb (hname.trans hname'.symm) _ hp _ hq rfl).2
  exact absurd hle (by decide)

end OtlpSys

end Profi
