import Profi.Requests
import Profi.Series

/-!
# What is Written for a Record

A record is counted through its handle by writes to the registry that do not depend on what the
registry holds: `Record.writes` lists them, and `Record.write_eq` says that this is what the arms
do. They count through the handle or in the duration series of its labels, and set no gauge
(`Record.writes_counts`), so what every such write keeps a record keeps.
-/

namespace Profi

/-! ## Lists of writes -/

namespace MetricWrite

/-- The writes of `Metrics.incByOpt`. -/
def incByOpt (c : Option CounterRef) (x : ℕ) : List MetricWrite := c.toList.map (.incBy · x)

/-- The writes of `Metrics.incByPos`. -/
def incByPos (c : Option CounterRef) (x : U64) : List MetricWrite :=
  if x > 0 then incByOpt c x.toNat else []

/-- The writes of `Metrics.observeOpt`. -/
def observeOpt (h : Option HistogramRef) (durationNs : U64) : List MetricWrite :=
  h.toList.map (.observe · durationNs)

/-- The writes of `incCumulativeFrom`. -/
def incCumulativeFrom (family : CounterFamily) (hfamily : family.byLabels = true)
    (baseLabels : List String) : ℕ → List (String × ℕ) → List MetricWrite
  | _, [] => []
  | cumulative, (le, count) :: rest =>
    let cumulative := cumulative + count
    if cumulative = 0 then incCumulativeFrom family hfamily baseLabels cumulative rest
    else
      .incLabels family hfamily (baseLabels ++ [le]) cumulative ::
        incCumulativeFrom family hfamily baseLabels cumulative rest

variable (m : Metrics)
variable (c : Option CounterRef) {w : MetricWrite}

@[simp] theorem foldl_incByOpt (x : ℕ) : (incByOpt c x).foldl apply m = m.incByOpt c x := by
  cases c <;> rfl

@[simp] theorem foldl_incByPos (x : U64) : (incByPos c x).foldl apply m = m.incByPos c x := by
  unfold incByPos Metrics.incByPos
  split
  · exact foldl_incByOpt m c _
  · rfl

@[simp] theorem foldl_observeOpt (h : Option HistogramRef) (durationNs : U64) :
    (observeOpt h durationNs).foldl apply m = m.observeOpt h durationNs := by
  cases h <;> rfl

theorem foldl_incCumulativeFrom (family : CounterFamily) (hfamily : family.byLabels = true)
    (baseLabels : List String) (cumulative : ℕ) (pairs : List (String × ℕ)) :
    (incCumulativeFrom family hfamily baseLabels cumulative pairs).foldl apply m =
      Profi.incCumulativeFrom family baseLabels m cumulative pairs := by
  induction pairs generalizing m cumulative with
  | nil => rfl
  | cons pair rest ih =>
    simp only [incCumulativeFrom, Profi.incCumulativeFrom]
    split
    · exact ih m _
    · exact ih _ _

/-- The writes for a drained duration: its buckets, its sum and its count. -/
def duration (bucket sum count : CounterFamily) (hbucket : bucket.byLabels = true)
    (hsum : sum.byLabels = true) (hcount : count.byLabels = true) (leValues labels : List String)
    (buckets : List ℕ) (total n : ℕ) : List MetricWrite :=
  incCumulativeFrom bucket hbucket labels 0 (leValues.zip buckets) ++
    [.incLabels sum hsum labels total, .incLabels count hcount labels n]

@[simp] theorem foldl_duration {bucket sum count : CounterFamily} (hbucket : bucket.byLabels = true)
    (hsum : sum.byLabels = true) (hcount : count.byLabels = true) (leValues labels : List String)
    (buckets : List ℕ) (total n : ℕ) :
    (duration bucket sum count hbucket hsum hcount leValues labels buckets total n).foldl apply m =
      ((incCumulativeBucketCounters m bucket labels leValues buckets).incLabels sum labels
        total).incLabels count labels n := by
  rw [duration, List.foldl_append, foldl_incCumulativeFrom]
  rfl

/-- The write counts through a handle, or in a duration series of its labels. -/
def Counts (mode : KernelMode) (l : HandleLabels) : MetricWrite → Prop
  | .incBy _ _ | .observe _ _ => True
  | .incLabels family _ labels _ =>
    (∃ eventType, (family, labels) ∈ durationSeries eventType l) ∨
      (family, labels) ∈ kernelSeries mode l
  | .setTrackedPids _ | .setActiveMemory _ _ => False

variable {mode : KernelMode} {l : HandleLabels}

theorem counts_incByOpt (x : ℕ) : ∀ w ∈ incByOpt c x, w.Counts mode l := by
  cases c <;> simp [incByOpt, Counts]

theorem counts_incByPos (x : U64) : ∀ w ∈ incByPos c x, w.Counts mode l := by
  unfold incByPos
  split
  · exact counts_incByOpt c _
  · simp

theorem counts_observeOpt (h : Option HistogramRef) (durationNs : U64) :
    ∀ w ∈ observeOpt h durationNs, w.Counts mode l := by
  cases h <;> simp [observeOpt, Counts]

/-- The buckets that are written are among those of the family. -/
theorem mem_incCumulativeFrom {family : CounterFamily} {hfamily : family.byLabels = true}
    {baseLabels : List String} {cumulative : ℕ} {pairs : List (String × ℕ)}
    (h : w ∈ incCumulativeFrom family hfamily baseLabels cumulative pairs) :
    ∃ le ∈ pairs.map Prod.fst, ∃ x, w = .incLabels family hfamily (baseLabels ++ [le]) x := by
  induction pairs generalizing cumulative with
  | nil => cases h
  | cons pair rest ih =>
    have hrest : w ∈ incCumulativeFrom family hfamily baseLabels (cumulative + pair.2) rest →
        ∃ le ∈ (pair :: rest).map Prod.fst,
          ∃ x, w = .incLabels family hfamily (baseLabels ++ [le]) x := by
      intro hmem
      obtain ⟨le, hle, hw⟩ := ih hmem
      exact ⟨le, List.mem_cons_of_mem _ hle, hw⟩
    simp only [incCumulativeFrom] at h
    split at h
    · exact hrest h
    · rcases List.mem_cons.mp h with rfl | h
      · exact ⟨pair.1, List.mem_cons_self, _, rfl⟩
      · exact hrest h

theorem mem_duration {bucket sum count : CounterFamily} {hbucket : bucket.byLabels = true}
    {hsum : sum.byLabels = true} {hcount : count.byLabels = true} {leValues labels : List String}
    {buckets : List ℕ} {total n : ℕ}
    (h : w ∈ duration bucket sum count hbucket hsum hcount leValues labels buckets total n) :
    ∃ family hfamily labels' x, w = .incLabels family hfamily labels' x ∧
      (family, labels') ∈ durationCounters bucket sum count leValues labels := by
  rcases List.mem_append.mp h with h | h
  · obtain ⟨le, hle, x, rfl⟩ := mem_incCumulativeFrom h
    refine ⟨_, _, _, _, rfl, List.mem_append_left _ (List.mem_map.mpr ⟨le, ?_, rfl⟩)⟩
    obtain ⟨pair, hpair, rfl⟩ := List.mem_map.mp hle
    exact (List.of_mem_zip hpair).1
  · simp only [List.mem_cons, List.not_mem_nil, or_false] at h
    rcases h with rfl | rfl
    · exact ⟨_, _, _, _, rfl, List.mem_append_right _ (by simp)⟩
    · exact ⟨_, _, _, _, rfl, List.mem_append_right _ (by simp)⟩

/-- A write that counts adds at most the duration series it counts in. -/
theorem grown_of_counts (h : w.Counts mode l) (m : Metrics) :
    Grown {y | ∃ hfamily x, (incLabels y.1 hfamily y.2 x).Counts mode l} ∅ m (w.apply m) := by
  cases w with
  | incBy c x => exact (incBy_grown m c x).mono (Set.empty_subset _) subset_rfl
  | incLabels family hfamily labels x =>
    refine ((Grown.counter m family labels).trans (incBy_grown _ _ x)).mono ?_ (Set.empty_subset _)
    rintro y (rfl | hy)
    · exact ⟨hfamily, x, h⟩
    · exact hy.elim
  | observe r durationNs =>
    have hsame : Grown ∅ ∅ m (m.observe r durationNs) :=
      Grown.of_same rfl (fun _ => rfl) (m.histogramIndex_observe r durationNs)
    exact hsame.mono (Set.empty_subset _) subset_rfl
  | setTrackedPids x => exact h.elim
  | setActiveMemory labels bytes => exact h.elim

end MetricWrite

/-! ## The writes for a record -/

namespace Record

open MetricWrite

/-- What is written for a record that is counted through the handle. -/
def writes (mode : KernelMode) (h : CachedHandles) : Record → List MetricWrite
  | .ring event =>
    .incBy h.calls 1 :: .observe h.duration event.durationNs ::
      (incByPos h.memcpyBytes event.size ++ incByPos h.mallocBytes event.size ++
        incByPos h.ncclBytes (ncclEventBytes event) ++ incByOpt h.kernelCounter 1 ++
        observeOpt h.kernelHistogram event.durationNs ++ incByOpt h.errorsCounter 1)
  | .aggregated _ perCpu =>
    let count := (perCpu.map (·.count)).sum
    let size := (perCpu.map (·.sizeSum)).sum
    let total : U64 := (perCpu.map (·.durationSumNs)).sum
    .incBy h.calls count ::
      (duration .cudaDurationBucketTotal .cudaDurationSumSecondsTotal .cudaDurationCountTotal
          (by decide) (by decide) (by decide) cudaDurationBucketLe h.labels.histLabels
          (sumBuckets (perCpu.map (·.bucketCounts))) total.toNat count ++
        incByOpt h.kernelCounter count ++ incByPos h.memcpyBytes size ++
        incByPos h.mallocBytes size ++ incByOpt h.errorsCounter count)
  | .launch _ perCpu =>
    let count := (perCpu.map (·.count)).sum
    let total : U64 := (perCpu.map (·.totalDurationNs)).sum
    let durations :=
      match h.labels.kernelHistLabels, mode with
      | some labels, .full =>
        duration .cudaKernelDurationBucketTotal .cudaKernelDurationSumSecondsTotal
          .cudaKernelDurationCountTotal (by decide) (by decide) (by decide)
          cudaKernelDurationBucketLe labels
          (sumBuckets (perCpu.map (·.bucketCounts))) total.toNat count
      | _, _ => []
    .incBy h.calls count :: (incByOpt h.kernelCounter count ++ durations)
  | .nccl _ perCpu =>
    let count := (perCpu.map (·.count)).sum
    let total : U64 := (perCpu.map (·.durationSumNs)).sum
    .incBy h.calls count ::
      (incByPos h.ncclBytes (perCpu.map (·.bytesSum)).sum ++ incByOpt h.errorsCounter count ++
        duration .ncclDurationBucketTotal .ncclDurationSumSecondsTotal .ncclDurationCountTotal
          (by decide) (by decide) (by decide) ncclDurationBucketLe h.labels.histLabels
          (sumBuckets (perCpu.map (·.bucketCounts))) total.toNat count)

theorem kernelMode_incByOpt (m : Metrics) (c : Option CounterRef) (x : ℕ) :
    (m.incByOpt c x).kernelMode = m.kernelMode := by
  cases c <;> rfl

/-- What an arm writes for a record is the list. -/
theorem write_eq (m : Metrics) (h : CachedHandles) (r : Record) :
    r.write m h = (r.writes m.kernelMode h).foldl MetricWrite.apply m := by
  cases r with
  | ring event =>
    simp [write, writes, Loop.countEvent, List.foldl_append, MetricWrite.apply]
  | aggregated key perCpu =>
    simp [write, writes, Loop.countAggregated, List.foldl_append, MetricWrite.apply]
  | launch key perCpu =>
    have hmode : ∀ x, ((m.incBy h.calls x).incByOpt h.kernelCounter x).kernelMode =
        m.kernelMode := fun x => kernelMode_incByOpt _ _ _
    simp only [write, writes, Loop.countLaunch, List.foldl_cons, List.foldl_append, foldl_incByOpt,
      MetricWrite.apply, hmode]
    cases h.labels.kernelHistLabels with
    | none => rfl
    | some labels =>
      cases m.kernelMode with
      | full => exact (foldl_duration _ _ _ _ _ _ _ _ _).symm
      | _ => rfl
  | nccl key perCpu =>
    simp [write, writes, Loop.countNccl, List.foldl_append, MetricWrite.apply]

/-- All writes for a record count. -/
theorem writes_counts (mode : KernelMode) (h : CachedHandles) (r : Record) :
    ∀ w ∈ r.writes mode h, w.Counts mode h.labels := by
  intro w hw
  cases r with
  | ring event =>
    simp only [writes, List.mem_cons, List.mem_append] at hw
    rcases hw with rfl | rfl | ((((hw | hw) | hw) | hw) | hw) | hw
    · trivial
    · trivial
    · exact counts_incByPos _ _ w hw
    · exact counts_incByPos _ _ w hw
    · exact counts_incByPos _ _ w hw
    · exact counts_incByOpt _ _ w hw
    · exact counts_observeOpt _ _ w hw
    · exact counts_incByOpt _ _ w hw
  | aggregated key perCpu =>
    simp only [writes, List.mem_cons, List.mem_append] at hw
    rcases hw with rfl | (((hw | hw) | hw) | hw) | hw
    · trivial
    · -- any call that is not NCCL stands for the others
      obtain ⟨family, hfamily, labels, x, rfl, hseries⟩ := mem_duration hw
      exact .inl ⟨.cudaMalloc, hseries⟩
    · exact counts_incByOpt _ _ w hw
    · exact counts_incByPos _ _ w hw
    · exact counts_incByPos _ _ w hw
    · exact counts_incByOpt _ _ w hw
  | launch key perCpu =>
    simp only [writes, List.mem_cons, List.mem_append] at hw
    rcases hw with rfl | hw | hw
    · trivial
    · exact counts_incByOpt _ _ w hw
    · split at hw
      next labels hlabels =>
        obtain ⟨family, hfamily, labels', x, rfl, hseries⟩ := mem_duration hw
        right
        simpa [kernelSeries, hlabels] using hseries
      · cases hw
  | nccl key perCpu =>
    simp only [writes, List.mem_cons, List.mem_append] at hw
    rcases hw with rfl | (hw | hw) | hw
    · trivial
    · exact counts_incByPos _ _ w hw
    · exact counts_incByOpt _ _ w hw
    · obtain ⟨family, hfamily, labels, x, rfl, hseries⟩ := mem_duration hw
      exact .inl ⟨.ncclAllReduce, hseries⟩

/-- What every write that counts keeps, a record keeps. -/
theorem write_invariant {I : Metrics → Prop} {h : CachedHandles} {m : Metrics} (r : Record)
    (hwrite : ∀ (m' : Metrics) (w : MetricWrite), I m' → w.Counts m.kernelMode h.labels →
      I (w.apply m')) (hm : I m) :
    I (r.write m h) := by
  have hrun : I (Runs.run MetricWrite.apply m (r.writes m.kernelMode h)) :=
    Runs.run_invariant hwrite hm (Runs.along_of_forall (r.writes_counts m.kernelMode h) m)
  rw [write_eq]
  exact hrun

end Record

end Profi
