import Profi.Bpf.State
import Profi.Kernel
import Profi.Lib.MetricVec

/-!
# The Metric Registry

The part of `src/metrics.rs` the event loop writes to: the counter and histogram families
with their label tuples, the active memory gauge, and the functions that make label values.

Counters hold naturals. The `*_sum_seconds_total` counters are kept in nanoseconds, and a
histogram child is the list of durations observed through it.
-/

namespace Profi

/-! ## Families -/

inductive CounterFamily where
  | cudaCalls | cudaMemcpyBytes | cudaMallocBytes | cudaErrors | cudaKernelLaunches
  | ncclCalls | ncclBytes
  | cudaDurationBucketTotal | cudaDurationSumSecondsTotal | cudaDurationCountTotal
  | ncclDurationBucketTotal | ncclDurationSumSecondsTotal | ncclDurationCountTotal
  | cudaKernelDurationBucketTotal | cudaKernelDurationSumSecondsTotal
  | cudaKernelDurationCountTotal
  deriving DecidableEq, Repr

inductive HistogramFamily where
  | cudaDuration | ncclDuration | cudaKernelDuration
  deriving DecidableEq, Repr

/-- `CUDA_DURATION_BUCKET_LE`. -/
def cudaDurationBucketLe : List String :=
  ["0.000001", "0.000005", "0.00001", "0.00005", "0.0001", "0.0005", "0.001", "0.005", "0.01",
    "0.05", "0.1", "0.5", "1", "+Inf"]

/-- `NCCL_DURATION_BUCKET_LE`. -/
def ncclDurationBucketLe : List String :=
  ["0.00001", "0.00005", "0.0001", "0.0005", "0.001", "0.005", "0.01", "0.05", "0.1", "0.5",
    "1", "+Inf"]

/-- `CUDA_KERNEL_DURATION_BUCKET_LE`. -/
def cudaKernelDurationBucketLe : List String :=
  ["0.000001", "0.000005", "0.00001", "0.00005", "0.0001", "0.0005", "0.001", "0.01", "+Inf"]

/-! ## Label sets -/

/-- `COUNTER_LABELS`. -/
def counterLabels : List String :=
  ["operation", "pid", "comm", "namespace", "pod", "container", "gpu", "gpu_uuid", "stream"]

/-- `HIST_LABELS`. -/
def histLabels : List String := ["operation", "namespace", "pod", "gpu"]

/-- `HIST_BUCKET_LABELS`. -/
def histBucketLabels : List String := ["operation", "namespace", "pod", "gpu", "le"]

/-- `MEMCPY_COUNTER_LABELS`. -/
def memcpyCounterLabels : List String :=
  ["direction", "pid", "comm", "namespace", "pod", "container", "gpu", "gpu_uuid", "stream"]

/-- `MALLOC_LABELS`. -/
def mallocLabels : List String :=
  ["pid", "comm", "namespace", "pod", "container", "gpu", "gpu_uuid"]

/-- `NCCL_COUNTER_LABELS`. -/
def ncclCounterLabels : List String :=
  ["operation", "pid", "comm", "namespace", "pod", "container", "gpu", "gpu_uuid"]

/-- `NCCL_HIST_LABELS`. -/
def ncclHistLabels : List String := ["operation", "namespace", "pod", "gpu"]

/-- `NCCL_HIST_BUCKET_LABELS`. -/
def ncclHistBucketLabels : List String := ["operation", "namespace", "pod", "gpu", "le"]

/-- `NCCL_BYTES_LABELS`. -/
def ncclBytesLabels : List String :=
  ["operation", "pid", "comm", "namespace", "pod", "container", "gpu", "gpu_uuid"]

/-- `KERNEL_COUNTER_LABELS`. -/
def kernelCounterLabels : List String :=
  ["kernel", "pid", "comm", "namespace", "pod", "container", "gpu", "gpu_uuid", "kernel_class",
    "phase"]

/-- `KERNEL_HIST_LABELS`. -/
def kernelHistLabels : List String :=
  ["kernel", "namespace", "pod", "gpu", "kernel_class", "phase"]

/-- `KERNEL_HIST_BUCKET_LABELS`. -/
def kernelHistBucketLabels : List String :=
  ["kernel", "namespace", "pod", "gpu", "kernel_class", "phase", "le"]

/-- `ERROR_LABELS`. -/
def errorLabels : List String :=
  ["operation", "pid", "comm", "namespace", "pod", "container", "gpu", "gpu_uuid", "error_code"]

/-- `ACTIVE_MEM_LABELS`. -/
def activeMemLabels : List String :=
  ["pid", "comm", "namespace", "pod", "container", "gpu", "gpu_uuid"]

/-- The label names a counter family is registered with. -/
def CounterFamily.labelNames : CounterFamily → List String
  | cudaCalls => counterLabels
  | cudaMemcpyBytes => memcpyCounterLabels
  | cudaMallocBytes => mallocLabels
  | cudaErrors => errorLabels
  | cudaKernelLaunches => kernelCounterLabels
  | ncclCalls => ncclCounterLabels
  | ncclBytes => ncclBytesLabels
  | cudaDurationBucketTotal => histBucketLabels
  | cudaDurationSumSecondsTotal | cudaDurationCountTotal => histLabels
  | ncclDurationBucketTotal => ncclHistBucketLabels
  | ncclDurationSumSecondsTotal | ncclDurationCountTotal => ncclHistLabels
  | cudaKernelDurationBucketTotal => kernelHistBucketLabels
  | cudaKernelDurationSumSecondsTotal | cudaKernelDurationCountTotal => kernelHistLabels

theorem CounterFamily.labelNames_nodup (family : CounterFamily) : family.labelNames.Nodup := by
  cases family <;> decide

/-! ## Label values -/

/-- `operation_name`. -/
def operationName : EventType → String
  | .cudaMalloc => "cudaMalloc"
  | .cudaFree => "cudaFree"
  | .cudaMemcpy => "cudaMemcpy"
  | .cudaMemcpyAsync => "cudaMemcpyAsync"
  | .cudaLaunchKernel => "cudaLaunchKernel"
  | .cudaMallocAsync => "cudaMallocAsync"
  | .cudaFreeAsync => "cudaFreeAsync"
  | .ncclAllReduce => "ncclAllReduce"
  | .ncclAllGather => "ncclAllGather"
  | .ncclReduceScatter => "ncclReduceScatter"
  | .ncclBroadcast => "ncclBroadcast"
  | .ncclSend => "ncclSend"
  | .ncclRecv => "ncclRecv"
  | .cudaStreamSync => "cudaStreamSync"
  | .cudaEventSync => "cudaEventSync"
  | .cudaMallocHost => "cudaMallocHost"
  | .cudaFreeHost => "cudaFreeHost"
  | .cudaMemset => "cudaMemset"
  | .cudaMemsetAsync => "cudaMemsetAsync"
  | .cudaGraphLaunch => "cudaGraphLaunch"
  | .cudaGraphInstantiate => "cudaGraphInstantiate"
  | .cudaModuleLoad => "cuModuleLoadData"
  | .cudaRegisterFunction => "unknown"

/-- An operation label names one event type. -/
theorem operationName_injective : Function.Injective operationName := by
  intro a b h
  cases a <;> cases b <;> first | rfl | exact absurd h (by decide)

/-- Lower-case hexadecimal, as `{:x}` prints it. -/
def hexString (x : U64) : String := String.ofList (Nat.toDigits 16 x.toNat)

/-- `stream_label`. -/
def streamLabel (stream : U64) : String :=
  if stream = 0 then "default" else "0x" ++ hexString stream

/-- `memcpy_direction`. -/
def memcpyDirection (kind : U32) : String :=
  if kind = 0 then "h2h"
  else if kind = 1 then "h2d"
  else if kind = 2 then "d2h"
  else if kind = 3 then "d2d"
  else if kind > 255 then "p2p"
  else "unknown"

/-- `nvtx_hash`. -/
def nvtxHash (marker : List U8) : U64 :=
  marker.foldl (fun h b => h * 31 + b.setWidth 64) 0

/-- `nccl_event_bytes`: the product wraps. -/
def ncclEventBytes (event : CudaEvent) : U64 :=
  event.size *
    (if h : event.memcpyKind.toNat < 10 then ncclDtypeSizes ⟨event.memcpyKind.toNat, h⟩ else 1)

/-- The decimal text of a word. -/
def decString {w : ℕ} (x : BitVec w) : String := toString x.toNat

theorem decString_injective {w : ℕ} : Function.Injective (decString (w := w)) := by
  intro a b h
  have hdigits : Nat.toDigits 10 a.toNat = Nat.toDigits 10 b.toNat := by
    simpa [decString, Nat.toString_eq_ofList_toDigits] using congrArg String.toList h
  apply BitVec.eq_of_toNat_eq
  calc
    a.toNat = Nat.ofDigitChars 10 (Nat.toDigits 10 a.toNat) 0 :=
      Nat.ofDigitChars_ten_toDigits.symm
    _ = Nat.ofDigitChars 10 (Nat.toDigits 10 b.toNat) 0 := by rw [hdigits]
    _ = b.toNat := Nat.ofDigitChars_ten_toDigits

/-! ## Registry -/

/-- A held counter child. -/
structure CounterRef where
  family : CounterFamily
  index : ℕ
  deriving DecidableEq

/-- A held histogram child. -/
structure HistogramRef where
  family : HistogramFamily
  index : ℕ
  deriving DecidableEq

/-- The registry. The kernel duration families only exist in full kernel mode. -/
structure Metrics where
  kernelMode : KernelMode
  counters : CounterFamily → MetricVec ℕ
  histograms : HistogramFamily → MetricVec (List U64)
  cudaActiveMemory : MetricVec I64
  cardinalityDrops : ℕ
  trackedPids : ℕ

namespace Metrics

def new (kernelMode : KernelMode) : Metrics where
  kernelMode
  counters := fun _ => .empty
  histograms := fun _ => .empty
  cudaActiveMemory := .empty
  cardinalityDrops := 0
  trackedPids := 0

/-- `with_label_values` on a counter family. -/
def counter (m : Metrics) (family : CounterFamily) (labels : List String) : CounterRef × Metrics :=
  let (index, vec) := (m.counters family).withLabelValues 0 labels
  (⟨family, index⟩, { m with counters := Function.update m.counters family vec })

/-- `with_label_values` on a histogram family. -/
def histogram (m : Metrics) (family : HistogramFamily) (labels : List String) :
    HistogramRef × Metrics :=
  let (index, vec) := (m.histograms family).withLabelValues [] labels
  (⟨family, index⟩, { m with histograms := Function.update m.histograms family vec })

/-- `inc_by` through a held counter. -/
def incBy (m : Metrics) (c : CounterRef) (x : ℕ) : Metrics :=
  { m with counters :=
      Function.update m.counters c.family ((m.counters c.family).modify c.index (· + x)) }

/-- `if let Some(ref c) = handle { c.inc_by(x) }`. -/
def incByOpt (m : Metrics) (c : Option CounterRef) (x : ℕ) : Metrics :=
  match c with
  | some c => m.incBy c x
  | none => m

/-- `with_label_values(labels).inc_by(x)`. -/
def incLabels (m : Metrics) (family : CounterFamily) (labels : List String) (x : ℕ) : Metrics :=
  let (c, m) := m.counter family labels
  m.incBy c x

/-- `observe` through a held histogram. -/
def observe (m : Metrics) (h : HistogramRef) (durationNs : U64) : Metrics :=
  let vec := (m.histograms h.family).modify h.index fun observed => observed ++ [durationNs]
  { m with histograms := Function.update m.histograms h.family vec }

def observeOpt (m : Metrics) (h : Option HistogramRef) (durationNs : U64) : Metrics :=
  match h with
  | some h => m.observe h durationNs
  | none => m

/-- `remove_label_values` on a counter family. -/
def removeCounter (m : Metrics) (family : CounterFamily) (labels : List String) : Metrics :=
  { m with counters :=
      Function.update m.counters family ((m.counters family).removeLabelValues labels) }

/-- `remove_label_values` on a histogram family. -/
def removeHistogram (m : Metrics) (family : HistogramFamily) (labels : List String) : Metrics :=
  { m with histograms :=
      Function.update m.histograms family ((m.histograms family).removeLabelValues labels) }

/-- `cuda_active_memory.with_label_values(labels).set(bytes)`. -/
def setActiveMemory (m : Metrics) (labels : List String) (bytes : I64) : Metrics :=
  { m with cudaActiveMemory := m.cudaActiveMemory.modifyAt 0 labels fun _ => bytes }

/-! ## References stay valid -/

/-- `c` is the child of `family` that carries `labels`. -/
def RefOk (m : Metrics) (c : CounterRef) (family : CounterFamily) (labels : List String) : Prop :=
  c.family = family ∧ (m.counters family).labelsOf c.index = some labels

/-- Every counter child of `m` is still there in `m'`, under the same labels. -/
def Extends (m m' : Metrics) : Prop :=
  ∀ family i labels, (m.counters family).labelsOf i = some labels →
    (m'.counters family).labelsOf i = some labels

variable (m : Metrics) (family : CounterFamily) (labels : List String) (f : CounterFamily)
  (p : List String → Bool) {c : CounterRef}

theorem Extends.refl : Extends m m := fun _ _ _ h => h

theorem Extends.trans {a b c : Metrics} (hab : Extends a b) (hbc : Extends b c) :
    Extends a c := fun family i labels h => hbc family i labels (hab family i labels h)

theorem RefOk.mono {m m' : Metrics} {family : CounterFamily} {labels : List String}
    (h : RefOk m c family labels) (hext : Extends m m') : RefOk m' c family labels :=
  ⟨h.1, hext family c.index labels h.2⟩

/-- Changing one family in a way that keeps the labels of its children is an extension. -/
private theorem extends_update {m : Metrics} {family : CounterFamily} {vec : MetricVec ℕ}
    (h : ∀ i labels, (m.counters family).labelsOf i = some labels → vec.labelsOf i = some labels) :
    Extends m { m with counters := Function.update m.counters family vec } := by
  intro f i labels hi
  by_cases hf : f = family
  · subst hf
    simpa using h i labels hi
  · simpa [hf] using hi

theorem extends_counter : Extends m (m.counter family labels).2 :=
  extends_update fun _ _ h => MetricVec.labelsOf_withLabelValues h 0 labels

theorem extends_incBy (c : CounterRef) (x : ℕ) : Extends m (m.incBy c x) :=
  extends_update fun i _ h => by rwa [MetricVec.labelsOf_modify]

theorem extends_incLabels (x : ℕ) : Extends m (m.incLabels family labels x) :=
  (extends_counter m family labels).trans (extends_incBy _ _ x)

theorem extends_removeCounter : Extends m (m.removeCounter family labels) :=
  extends_update fun _ _ h => h

theorem refOk_counter :
    RefOk (m.counter family labels).2 (m.counter family labels).1 family labels := by
  refine ⟨rfl, ?_⟩
  simpa [counter] using MetricVec.labelsOf_withLabelValues_self (m.counters family) 0 labels

/-! ## Totals of increments -/

/-- All increments ever made in a family to children whose labels satisfy `p`. -/
def total (family : CounterFamily) (p : List String → Bool) (m : Metrics) : ℕ :=
  (m.counters family).total p

private theorem total_update {m : Metrics} {family : CounterFamily} {vec : MetricVec ℕ} {x : ℕ}
    {p : List String → Bool} (h : vec.total p = (m.counters family).total p + x)
    (f : CounterFamily) :
    total f p { m with counters := Function.update m.counters family vec } =
      total f p m + if f = family then x else 0 := by
  unfold total
  by_cases hf : f = family
  · subst hf
    simp [h]
  · simp [hf]

@[simp] theorem total_counter (m : Metrics) (family : CounterFamily) (labels : List String) :
    total f p (m.counter family labels).2 = total f p m := by
  have h := total_update (x := 0) (m := m)
    (MetricVec.total_withLabelValues p (m.counters family) labels) f
  simpa [counter] using h

theorem total_incBy {m : Metrics} {family : CounterFamily} {labels : List String}
    (h : RefOk m c family labels) (f : CounterFamily) (p : List String → Bool) (x : ℕ) :
    total f p (m.incBy c x) =
      total f p m + if f = family ∧ p labels = true then x else 0 := by
  obtain ⟨rfl, hlabels⟩ := h
  unfold incBy
  rw [total_update (MetricVec.total_incBy hlabels p x)]
  by_cases hf : f = c.family <;> simp [hf]

@[simp] theorem total_incLabels (m : Metrics) (family : CounterFamily) (labels : List String)
    (x : ℕ) :
    total f p (m.incLabels family labels x) =
      total f p m + if f = family ∧ p labels = true then x else 0 := by
  unfold incLabels
  rw [total_incBy (refOk_counter m family labels), total_counter]

@[simp] theorem total_removeCounter (m : Metrics) (family : CounterFamily) (labels : List String) :
    total f p (m.removeCounter family labels) = total f p m := by
  have h := total_update (x := 0) (m := m)
    (MetricVec.total_removeLabelValues p (m.counters family) labels) f
  simpa [removeCounter] using h

/-! ## Exported counters -/

/-- The exported value of a counter; a missing series reads as zero. -/
def counterValue (family : CounterFamily) (labels : List String) (m : Metrics) : ℕ :=
  ((m.counters family).value labels).getD 0

@[simp] theorem counterValue_counter (l : List String) (m : Metrics) (family : CounterFamily)
    (labels : List String) : counterValue f l (m.counter family labels).2 = counterValue f l m := by
  unfold counterValue counter
  by_cases hf : f = family
  · subst hf
    simp only [Function.update_self, MetricVec.value_withLabelValues]
    by_cases hl : l = labels <;> simp [hl]
  · simp [hf]

/-- Increments through a handle stay in the handle's family. -/
theorem counterValue_incBy_of_ne {f : CounterFamily} {m : Metrics} (h : f ≠ c.family)
    (l : List String) (x : ℕ) : counterValue f l (m.incBy c x) = counterValue f l m := by
  simp [counterValue, incBy, h]

@[simp] theorem counterValue_incLabels (l : List String) (m : Metrics) (family : CounterFamily)
    (labels : List String) (x : ℕ) :
    counterValue f l (m.incLabels family labels x) =
      counterValue f l m + if f = family ∧ l = labels then x else 0 := by
  by_cases hf : f = family
  · subst hf
    have hval : (m.incLabels f labels x).counters f =
        (m.counters f).modifyAt 0 labels (· + x) := by
      simp [incLabels, counter, incBy, MetricVec.modifyAt]
    unfold counterValue
    rw [hval, MetricVec.value_modifyAt]
    by_cases hl : l = labels <;> simp [hl]
  · simp only [hf, false_and, ↓reduceIte, Nat.add_zero]
    unfold incLabels
    rw [counterValue_incBy_of_ne (by exact hf), counterValue_counter]

end Metrics

/-! ## Operations that count nothing -/

/-- From `m` to `m'` no counter was incremented, no child was lost and the active memory
    gauge was left alone. -/
structure Quiet (m m' : Metrics) : Prop where
  ext : m.Extends m'
  total : ∀ family p, m'.total family p = m.total family p
  drops : m.cardinalityDrops ≤ m'.cardinalityDrops
  activeMemory : m'.cudaActiveMemory = m.cudaActiveMemory

/-- A quiet change that also leaves every exported value as it was. -/
structure Silent (m m' : Metrics) : Prop extends Quiet m m' where
  value : ∀ family labels, m'.counterValue family labels = m.counterValue family labels

theorem Quiet.refl (m : Metrics) : Quiet m m := ⟨.refl m, fun _ _ => rfl, le_rfl, rfl⟩

theorem Quiet.trans {a b c : Metrics} (hab : Quiet a b) (hbc : Quiet b c) : Quiet a c where
  ext := hab.ext.trans hbc.ext
  total family p := (hbc.total family p).trans (hab.total family p)
  drops := hab.drops.trans hbc.drops
  activeMemory := hbc.activeMemory.trans hab.activeMemory

theorem Silent.refl (m : Metrics) : Silent m m := ⟨.refl m, fun _ _ => rfl⟩

theorem Silent.trans {a b c : Metrics} (hab : Silent a b) (hbc : Silent b c) : Silent a c where
  toQuiet := hab.toQuiet.trans hbc.toQuiet
  value family labels := (hbc.value family labels).trans (hab.value family labels)

namespace Metrics

/-- Nothing but the counters, the gauge and the drop count matters to `Silent`. -/
private theorem silent_of_eq {m m' : Metrics} (hc : m'.counters = m.counters)
    (hd : m.cardinalityDrops ≤ m'.cardinalityDrops)
    (ha : m'.cudaActiveMemory = m.cudaActiveMemory) : Silent m m' where
  ext := by intro family i labels h; rwa [hc]
  total := by intro family p; simp [Metrics.total, hc]
  drops := hd
  activeMemory := ha
  value := by intro family labels; simp [counterValue, hc]

variable (m : Metrics)

theorem silent_counter (family : CounterFamily) (labels : List String) :
    Silent m (m.counter family labels).2 where
  ext := extends_counter m family labels
  total := by intro f p; exact total_counter f p m family labels
  drops := le_rfl
  activeMemory := rfl
  value := by intro f l; exact counterValue_counter f l m family labels

theorem silent_histogram (family : HistogramFamily) (labels : List String) :
    Silent m (m.histogram family labels).2 :=
  silent_of_eq rfl le_rfl rfl

theorem silent_drop : Silent m { m with cardinalityDrops := m.cardinalityDrops + 1 } :=
  silent_of_eq rfl (Nat.le_succ _) rfl

theorem silent_trackedPids (x : ℕ) : Silent m { m with trackedPids := x } :=
  silent_of_eq rfl le_rfl rfl

theorem silent_observe (h : HistogramRef) (durationNs : U64) : Silent m (m.observe h durationNs) :=
  silent_of_eq rfl le_rfl rfl

theorem silent_observeOpt (h : Option HistogramRef) (durationNs : U64) :
    Silent m (m.observeOpt h durationNs) := by
  cases h with
  | none => exact .refl m
  | some h => exact silent_observe m h durationNs

end Metrics

/-! ## What a sequence of operations adds -/

/-- An optional handle is there exactly when its labels are, and refers to them. -/
def OptRefOk (m : Metrics) (c : Option CounterRef) (family : CounterFamily)
    (labels : Option (List String)) : Prop :=
  match c, labels with
  | some c, some labels => m.RefOk c family labels
  | none, none => True
  | _, _ => False

theorem OptRefOk.mono {m m' : Metrics} {c : Option CounterRef} {family : CounterFamily}
    {labels : Option (List String)} (hc : OptRefOk m c family labels) (hext : m.Extends m') :
    OptRefOk m' c family labels := by
  unfold OptRefOk at hc ⊢
  split <;> simp_all only
  exact Metrics.RefOk.mono hc hext

/-- One increment: a family, a label tuple and an amount. -/
structure Inc where
  family : CounterFamily
  labels : List String
  amount : ℕ

/-- The increment through an optional handle. -/
def optInc (family : CounterFamily) (labels : Option (List String)) (amount : ℕ) : List Inc :=
  (labels.map fun labels => (⟨family, labels, amount⟩ : Inc)).toList

/-- What a list of increments adds up to in one family, over the labels satisfying `p`. -/
def incTotal (f : CounterFamily) (p : List String → Bool) (incs : List Inc) : ℕ :=
  (incs.map fun i => if f = i.family ∧ p i.labels = true then i.amount else 0).sum

variable (f : CounterFamily)

@[simp] theorem incTotal_nil (p : List String → Bool) : incTotal f p [] = 0 := rfl

@[simp] theorem incTotal_cons (p : List String → Bool) (i : Inc) (incs : List Inc) :
    incTotal f p (i :: incs) =
      (if f = i.family ∧ p i.labels = true then i.amount else 0) + incTotal f p incs := rfl

@[simp] theorem incTotal_append (p : List String → Bool) (xs ys : List Inc) :
    incTotal f p (xs ++ ys) = incTotal f p xs + incTotal f p ys := by
  simp [incTotal]

/-- Increments of other families do not count. -/
theorem incTotal_eq_zero {f : CounterFamily} {incs : List Inc} (h : ∀ i ∈ incs, i.family ≠ f)
    (p : List String → Bool) : incTotal f p incs = 0 := by
  apply List.sum_eq_zero
  intro x hx
  obtain ⟨i, hi, rfl⟩ := List.mem_map.mp hx
  simp [(h i hi).symm]

theorem incTotal_optInc (p : List String → Bool) (family : CounterFamily)
    (labels : Option (List String)) (x : ℕ) :
    incTotal f p (optInc family labels x) =
      if f = family ∧ labels.any p = true then x else 0 := by
  cases labels <;> simp [optInc]

/-- The families that are only incremented by label tuple, never through a held handle. -/
def CounterFamily.byLabels : CounterFamily → Bool
  | cudaDurationBucketTotal | cudaDurationSumSecondsTotal | cudaDurationCountTotal
  | ncclDurationBucketTotal | ncclDurationSumSecondsTotal | ncclDurationCountTotal
  | cudaKernelDurationBucketTotal | cudaKernelDurationSumSecondsTotal
  | cudaKernelDurationCountTotal => true
  | _ => false

/-- From `m` to `m'` the increments `incs` were made and no others. Increments through a held
    handle may go to a series that is no longer exported, so exported values are only
    accounted for in the families addressed by label tuple. -/
structure Adds (m m' : Metrics) (incs : List Inc) : Prop where
  ext : m.Extends m'
  total : ∀ f p, m'.total f p = m.total f p + incTotal f p incs
  value : ∀ f labels, f.byLabels = true →
    m'.counterValue f labels = m.counterValue f labels + incTotal f (· == labels) incs
  drops : m.cardinalityDrops ≤ m'.cardinalityDrops
  activeMemory : m'.cudaActiveMemory = m.cudaActiveMemory

theorem Silent.adds {m m' : Metrics} (h : Silent m m') : Adds m m' [] where
  ext := h.ext
  total := h.total
  value f labels _ := h.value f labels
  drops := h.drops
  activeMemory := h.activeMemory

namespace Adds

variable {a m m' : Metrics} {xs ys : List Inc}

theorem trans (ham : Adds a m xs) (hmm : Adds m m' ys) : Adds a m' (xs ++ ys) where
  ext := ham.ext.trans hmm.ext
  total f p := by rw [hmm.total, ham.total, incTotal_append, Nat.add_assoc]
  value f labels hf := by
    rw [hmm.value f labels hf, ham.value f labels hf, incTotal_append, Nat.add_assoc]
  drops := ham.drops.trans hmm.drops
  activeMemory := hmm.activeMemory.trans ham.activeMemory

theorem silent (h : Adds a m xs) (hs : Silent m m') : Adds a m' xs := by
  simpa using h.trans hs.adds

theorem incBy (h : Adds a m xs) {c : CounterRef} {family : CounterFamily} {labels : List String}
    (hc : m.RefOk c family labels) (hf : family.byLabels = false) (x : ℕ) :
    Adds a (m.incBy c x) (xs ++ [⟨family, labels, x⟩]) := by
  refine h.trans ⟨m.extends_incBy c x, ?_, ?_, le_rfl, rfl⟩
  · intro f p
    rw [Metrics.total_incBy hc]
    simp
  · intro f l hdirect
    have hne : f ≠ c.family := by
      rintro rfl
      rw [hc.1, hf] at hdirect
      cases hdirect
    have hne' : f ≠ family := hc.1 ▸ hne
    rw [Metrics.counterValue_incBy_of_ne hne]
    simp [hne']

theorem incByOpt (h : Adds a m xs) {c : Option CounterRef} {family : CounterFamily}
    {labels : Option (List String)} (hc : OptRefOk m c family labels)
    (hf : family.byLabels = false) (x : ℕ) :
    Adds a (m.incByOpt c x) (xs ++ optInc family labels x) := by
  cases c with
  | none =>
    cases labels with
    | none => simpa [optInc, Metrics.incByOpt] using h
    | some labels => exact hc.elim
  | some c =>
    cases labels with
    | none => exact hc.elim
    | some labels => exact h.incBy hc hf x

theorem incLabels (h : Adds a m xs) (family : CounterFamily) (labels : List String) (x : ℕ) :
    Adds a (m.incLabels family labels x) (xs ++ [⟨family, labels, x⟩]) := by
  refine h.trans ⟨m.extends_incLabels family labels x, ?_, ?_, le_rfl, rfl⟩
  · intro f p
    simp
  · intro f l _
    have hlabels : (labels == l) = true ↔ l = labels := by rw [beq_iff_eq, eq_comm]
    simp only [Metrics.counterValue_incLabels, incTotal_cons, incTotal_nil, hlabels, Nat.add_zero]

end Adds

end Profi
