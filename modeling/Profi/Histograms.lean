import Profi.Latency
import Profi.Requests
import Profi.Series
import Profi.Lib.Cumulative

/-!
# The Exported Histograms

The aggregate tick exports three histograms as plain counters: a bucket counter for each `le` label,
a sum and a count, under labels that processes share. The counters are written one by one, read
from cells of 32 bits that may wrap, and taken out by whichever process of a pod goes first.

In every run they keep the shape of a histogram (`exported_histograms_run`): with no assumption on
nesting, sampling, room, limits or clocks.
-/

namespace Profi

variable {n : ℕ} {args : Args} {exact : Prop}

/-- The cells of a record that is counted in a histogram hold no more than its values count, and
    all of it if `exact`. -/
def Record.CellsFit (exact : Prop) (r : Record) : Prop :=
  ∀ mode hl row, r.row mode hl = some row →
    r.cells.sum ≤ r.count ∧ (exact → r.cells.sum = r.count)

namespace LatencyHistogram

variable {m m' : Metrics} {hist : LatencyHistogram} {base labels : List String}

/-! ## The counters of a histogram -/

/-- The exported counters under `base` have the shape of a histogram. -/
def Shaped (exact : Prop) (m : Metrics) (hist : LatencyHistogram) (base : List String) : Prop :=
  Cumulative exact hist.bucketLe (fun le => m.counterValue hist.bucketTotal (base ++ [le]))
    (m.counterValue hist.countTotal base)

/-! ## Rows -/

/-- What a record adds has the shape of a histogram under every `base`. -/
theorem cumulative_incs {r : Record} (hr : r.CellsFit exact) (mode : KernelMode) (key : MetricKey)
    (hl : HandleLabels) (hist : LatencyHistogram) (base : List String) :
    Cumulative exact hist.bucketLe
      (fun le => incTotal hist.bucketTotal (· == base ++ [le]) (r.incs mode key hl))
      (incTotal hist.countTotal (· == base) (r.incs mode key hl)) := by
  have hbucket := fun i le => @Record.incTotal_bucket mode key hl r hist base i le
  rw [r.incTotal_count mode key hl hist base]
  by_cases hrow : r.row mode hl = some (hist, base)
  · simp only [hrow, ↓reduceIte] at hbucket ⊢
    obtain ⟨hle, heq⟩ := hr mode hl _ hrow
    exact .of_cells ((Record.length_cells hrow).trans hist.length_bucketLe.symm) hbucket hle heq
  · -- a row of another histogram, or under other labels
    simp only [hrow, ↓reduceIte] at hbucket ⊢
    apply (Cumulative.zero exact hist.bucketLe).congr _ rfl
    intro le hle
    obtain ⟨i, hi⟩ := List.getElem?_of_mem hle
    exact hbucket i le hi

/-! ## Removal -/

/-- The counters that go with the histogram under `labels`. -/
def series (hist : LatencyHistogram) (labels : List String) : List (CounterFamily × List String) :=
  durationCounters hist.bucketTotal hist.sumSecondsTotal hist.countTotal hist.bucketLe labels

theorem bucket_mem_series (row : LatencyHistogram) {le : String} (hle : le ∈ hist.bucketLe) :
    (hist.bucketTotal, base ++ [le]) ∈ row.series labels ↔ hist = row ∧ base = labels := by
  unfold series durationCounters
  constructor
  · intro h
    cases hist <;> cases row <;> simp_all [bucketTotal, sumSecondsTotal, countTotal]
  · rintro ⟨rfl, rfl⟩
    exact List.mem_append_left _ (List.mem_map_of_mem hle)

theorem count_mem_series {row : LatencyHistogram} :
    (hist.countTotal, base) ∈ row.series labels ↔ hist = row ∧ base = labels := by
  unfold series durationCounters
  constructor
  · intro h
    cases hist <;> cases row <;> simp_all [bucketTotal, sumSecondsTotal, countTotal]
  · rintro ⟨rfl, rfl⟩
    simp

/-- A handle takes all counters of a histogram with it, or none. -/
theorem mem_counterSeries_iff {le : String} (hle : le ∈ hist.bucketLe) (mode : KernelMode)
    (eventType : EventType) (l : HandleLabels) :
    (hist.bucketTotal, base ++ [le]) ∈ counterSeries mode eventType l ↔
      (hist.countTotal, base) ∈ counterSeries mode eventType l := by
  -- the counters that a handle holds are of no histogram
  have howned : ∀ f labels, f.byLabels = true → (f, labels) ∉ ownedSeries eventType l := by
    intro f labels hf hmem
    have hcalls : f ≠ callsFamily eventType := by
      rintro rfl
      rw [byLabels_callsFamily] at hf
      cases hf
    cases f <;> simp_all [ownedSeries, CounterFamily.byLabels]
  have hduration : (hist.bucketTotal, base ++ [le]) ∈ durationSeries eventType l ↔
      (hist.countTotal, base) ∈ durationSeries eventType l := by
    unfold durationSeries
    split
    · exact (bucket_mem_series nccl hle).trans count_mem_series.symm
    · exact (bucket_mem_series cuda hle).trans count_mem_series.symm
  have hkernel : (hist.bucketTotal, base ++ [le]) ∈ kernelSeries mode l ↔
      (hist.countTotal, base) ∈ kernelSeries mode l := by
    unfold kernelSeries
    split
    · simp only [List.mem_flatMap]
      apply exists_congr
      intro labels
      apply and_congr_right
      intro _
      exact (bucket_mem_series kernel hle).trans count_mem_series.symm
    · simp
  unfold counterSeries
  simp only [List.mem_append, hduration, hkernel]
  have hbucket := howned hist.bucketTotal (base ++ [le]) (by cases hist <;> rfl)
  have hcount := howned hist.countTotal base (by cases hist <;> rfl)
  simp only [hbucket, hcount]

/-- Removing handles keeps the shape: a histogram goes as a whole. -/
theorem Shaped.evicts {P : MetricKey → Prop} {s s' : Metrics × Cache}
    (h : Shaped exact s.1 hist base) (hevicts : Evicts P s s') : Shaped exact s'.1 hist base := by
  have hdrops := hevicts.series
  have hiff : ∀ le ∈ hist.bucketLe,
      (hist.bucketTotal, base ++ [le]) ∈ s.2.countersOf s.1.kernelMode P ↔
        (hist.countTotal, base) ∈ s.2.countersOf s.1.kernelMode P := by
    intro le hle
    simp only [Cache.countersOf, Cache.seriesOf, Set.mem_ofPred_eq, mem_counterSeries_iff hle]
  have hlost : ∀ f labels, (f, labels) ∈ s.2.countersOf s.1.kernelMode P →
      s'.1.counterValue f labels = 0 := by
    intro f labels hmem
    have hnone : (s'.1.counters f).value labels = none :=
      MetricVec.value_eq_none_iff.mpr (hdrops.lostCounters _ hmem)
    exact congrArg (·.getD 0) hnone
  have hkept : ∀ f labels, (f, labels) ∉ s.2.countersOf s.1.kernelMode P →
      s'.1.counterValue f labels = s.1.counterValue f labels := by
    intro f labels hmem
    exact congrArg (·.getD 0) (hdrops.counterAt hmem)
  by_cases hmem : (hist.countTotal, base) ∈ s.2.countersOf s.1.kernelMode P
  · -- all of them read zero from now on
    apply (Cumulative.zero exact hist.bucketLe).congr
    · intro le hle
      exact hlost _ _ ((hiff le hle).mpr hmem)
    · exact hlost _ _ hmem
  · -- all of them are as before
    apply Cumulative.congr h
    · intro le hle
      exact hkept _ _ fun hbucket => hmem ((hiff le hle).mp hbucket)
    · exact hkept _ _ hmem

end LatencyHistogram

open LatencyHistogram

/-! ## The cells -/

variable {N : ℕ}

/-- What the cells of a value hold together. -/
def cellSum (cells : Fin N → U32) : ℕ := ∑ j, (cells j).toNat

/-- The cells hold no more than the value counts, and all of it while none of them can have
    wrapped. -/
structure CellsCount {N : ℕ} (count : ℕ) (cells : Fin N → U32) : Prop where
  le : cellSum cells ≤ count
  eq : count < 2 ^ 32 → cellSum cells = count

theorem cellsCount_zero : CellsCount 0 (fun _ : Fin N => (0 : U32)) := by
  have hzero : cellSum (fun _ : Fin N => (0 : U32)) = 0 := by simp [cellSum]
  exact ⟨hzero.le, fun _ => hzero⟩

theorem cell_le_cellSum (cells : Fin N → U32) (j : Fin N) : (cells j).toNat ≤ cellSum cells :=
  Finset.single_le_sum (f := fun j => (cells j).toNat) (fun _ _ => Nat.zero_le _)
    (Finset.mem_univ j)

/-- Counting `k` calls of one bucket. -/
theorem CellsCount.bump {count : ℕ} {cells : Fin N → U32} (h : CellsCount count cells) {idx : ℕ}
    (hidx : idx < N) {inc : U32} {k : ℕ} (hle : inc.toNat ≤ k) (heq : k < 2 ^ 32 → inc.toNat = k) :
    CellsCount (count + k) (bumpBucket cells idx inc) := by
  have hbump : ∀ d, (cells ⟨idx, hidx⟩ + inc).toNat = (cells ⟨idx, hidx⟩).toNat + d →
      cellSum (bumpBucket cells idx inc) = cellSum cells + d := by
    intro d hd
    unfold bumpBucket
    rw [dif_pos hidx]
    exact PerCpuMap.sum_update_slot BitVec.toNat cells ⟨idx, hidx⟩ _ d hd
  have hcell := cell_le_cellSum cells ⟨idx, hidx⟩
  have hsum := h.le
  by_cases hwrap : (cells ⟨idx, hidx⟩).toNat + inc.toNat < 2 ^ 32
  · have hnew := hbump inc.toNat (BitVec.toNat_add_of_lt hwrap)
    refine ⟨by omega, fun hlt => ?_⟩
    have hold := h.eq (by omega)
    omega
  · -- a cell that wraps is lower than before, and the count has left the range
    have hlower : cellSum (bumpBucket cells idx inc) ≤ cellSum cells := by
      unfold bumpBucket
      rw [dif_pos hidx]
      apply Finset.sum_le_sum
      intro j _
      by_cases hj : j = ⟨idx, hidx⟩
      · subst hj
        have hnew : (cells ⟨idx, hidx⟩ + inc).toNat =
            ((cells ⟨idx, hidx⟩).toNat + inc.toNat) % 2 ^ 32 := BitVec.toNat_add _ _
        rw [Function.update_self, hnew]
        omega
      · rw [Function.update_of_ne hj]
    exact ⟨by omega, fun hlt => by omega⟩

/-- The cells of a row, summed over the CPUs. -/
theorem sum_sumBuckets (rows : List (Fin N → U32)) :
    (sumBuckets rows).sum = (rows.map cellSum).sum := by
  unfold sumBuckets
  rw [List.sum_ofFn]
  induction rows with
  | nil => simp
  | cons row rows ih =>
    simp only [List.map_cons, List.sum_cons, Finset.sum_add_distrib, ih]
    rfl

/-- The cells of all values of the maps. -/
structure CellsOk (args : Args) (b : Bpf n) : Prop where
  agg : (aggView args n).AllValues (fun val => CellsCount val.count val.bucketCounts) b
  launch : (launchView args n).AllValues (fun val => CellsCount val.count val.bucketCounts) b
  nccl : (ncclView args n).AllValues (fun val => CellsCount val.count val.bucketCounts) b

theorem cellsOk_init (args : Args) : CellsOk args (Sys.init n args).bpf :=
  ⟨View.allValues_init _ _, View.allValues_init _ _, View.allValues_init _ _⟩

/-- A call adds to one cell what it adds to the count, but for the bits that the cell does not
    have. -/
theorem cellsOk_step {s : Sys n} (h : CellsOk args s.bpf) (e : Event n) :
    CellsOk args (s.step args e).bpf where
  agg := by
    refine View.allValues_step _ cellsCount_zero (fun _ => id) (fun _ _ _ _ _ =>
      addItem_mono (fun _ => id) (fun entry val hval => ?_) _) h.agg
    -- a sampled call adds its multiplier, cut to the 32 bits of a cell
    apply hval.bump (LatencyHistogram.cuda.profiBucketIdx_lt _)
    · rw [BitVec.toNat_setWidth]
      exact Nat.mod_le _ _
    · intro hlt
      exact Nat.mod_eq_of_lt hlt
  -- launches and collectives are not sampled: one call, one more in its cell
  launch := View.allValues_step _ cellsCount_zero (fun _ => id) (fun _ _ _ _ _ =>
    addItem_mono (fun _ => id) (fun _ _ hval =>
      hval.bump (LatencyHistogram.kernel.profiBucketIdx_lt _) le_rfl fun _ => rfl) _) h.launch
  nccl := View.allValues_step _ cellsCount_zero (fun _ => id) (fun _ _ _ _ _ =>
    addItem_mono (fun _ => id) (fun _ _ hval =>
      hval.bump (LatencyHistogram.nccl.profiBucketIdx_lt _) le_rfl fun _ => rfl) _) h.nccl

/-! ## Records -/

/-- The values of a row count in their cells what they count, up to `2 ^ 32`. -/
theorem cellsFit_of_forall {V : Type} {count : V → ℕ} {cells : V → Fin N → U32} {perCpu : List V}
    (h : ∀ val ∈ perCpu, CellsCount (count val) (cells val))
    (hexact : exact → ∀ val ∈ perCpu, count val < 2 ^ 32) :
    (sumBuckets (perCpu.map cells)).sum ≤ (perCpu.map count).sum ∧
      (exact → (sumBuckets (perCpu.map cells)).sum = (perCpu.map count).sum) := by
  rw [sum_sumBuckets, List.map_map]
  constructor
  · apply List.sum_le_sum
    exact fun val hval => (h val hval).le
  · intro he
    exact congrArg List.sum (List.map_congr_left fun val hval =>
      (h val hval).eq (hexact he val hval))

/-- All exported histograms have their shape. -/
structure Loop.Shaped (exact : Prop) (l : Loop) : Prop where
  cache : CacheOk (fun _ => True) l.metrics l.cache
  histograms : ∀ hist base, LatencyHistogram.Shaped exact l.metrics hist base

/-- The part of the loop that is looked at. -/
theorem Loop.Shaped.congr {l l' : Loop} (h : l.Shaped exact)
    (hcounters : l'.metrics.counters = l.metrics.counters) (hcache : l'.cache = l.cache) :
    l'.Shaped exact where
  cache := by
    rw [hcache]
    exact h.cache.mono fun family i labels hlabels => hcounters ▸ hlabels
  histograms hist base := by
    have hvalue : ∀ f labels, l'.metrics.counterValue f labels = l.metrics.counterValue f labels :=
      fun f labels => by unfold Metrics.counterValue; rw [hcounters]
    exact Cumulative.congr (h.histograms hist base) (fun le _ => hvalue _ _) (hvalue _ _)

theorem Loop.Shaped.record {x : Loop × MemDelta} (h : x.1.Shaped exact)
    (env : LoopEnv) {r : Record} (hr : r.CellsFit exact) :
    (Loop.processRecord args env x r).1.Shaped exact := by
  by_cases hcount : r.count = 0
  · rw [Loop.processRecord_of_none args env (if_pos hcount)]
    exact h
  have hcounted := @processRecord_counted _ x h.cache env trivial args r hcount
  obtain ⟨mode, key', hl, -, -, hadds⟩ := hcounted.adds
  refine ⟨hcounted.cacheOk, fun hist base => ?_⟩
  obtain ⟨hbucket, htotal⟩ := hist.byLabels_totals
  apply (Cumulative.add (h.histograms hist base)
    (LatencyHistogram.cumulative_incs hr mode key' hl hist base)).congr
  · exact fun le _ => hadds.value _ _ hbucket
  · exact hadds.value _ _ htotal

theorem Loop.Shaped.records {x : Loop × MemDelta} (h : x.1.Shaped exact)
    (env : LoopEnv) {records : List Record} (hrecords : ∀ r ∈ records, r.CellsFit exact) :
    (records.foldl (Loop.processRecord args env) x).1.Shaped exact := by
  induction records generalizing x with
  | nil => exact h
  | cons r records ih =>
    exact ih (h.record env (hrecords r List.mem_cons_self))
      fun r' hr' => hrecords r' (List.mem_cons_of_mem r hr')

/-! ## Runs -/

/-- No value that was handed to the event loop had counted `2 ^ 32` calls. -/
structure History.SlotsSmall (h : History n) : Prop where
  agg : ∀ row ∈ h.aggHanded, ∀ val ∈ row.2, val.count < 2 ^ 32
  launch : ∀ row ∈ h.launchHanded, ∀ val ∈ row.2, val.count < 2 ^ 32
  nccl : ∀ row ∈ h.ncclHanded, ∀ val ∈ row.2, val.count < 2 ^ 32

namespace Sys

/-- What was handed out before a step was handed out after it. -/
theorem slotsSmall_of_step {s : Sys n} {e : Event n} (h : (s.step args e).hist.SlotsSmall) :
    s.hist.SlotsSmall := by
  cases e with
  | ret ctx =>
    simp only [step] at h
    cases hs : s.stack ctx.pidTgid with
    | nil =>
      rw [ret_nil hs] at h
      exact h
    | cons call rest =>
      rw [ret_cons hs] at h
      exact ⟨h.agg, h.launch, h.nccl⟩
  | aggTick env =>
    exact ⟨fun row hrow => h.agg row (List.mem_append_left _ hrow),
      fun row hrow => h.launch row (List.mem_append_left _ hrow),
      fun row hrow => h.nccl row (List.mem_append_left _ hrow)⟩
  | _ => exact ⟨h.agg, h.launch, h.nccl⟩

/-- The rows a step handles hold no more than they count. -/
theorem cellsFit_records {s : Sys n} (h : CellsOk args s.bpf) (e : Event n) :
    ∀ r ∈ s.records args e, r.CellsFit (s.step args e).hist.SlotsSmall := by
  intro r hr mode hl row hrow
  cases e with
  | consume env =>
    obtain ⟨event, -, rfl⟩ := List.mem_map.mp hr
    cases hrow
  | aggTick env =>
    simp only [records, tickRecords, List.mem_append, List.mem_map] at hr
    -- the rows of the records are those that the step hands out
    rcases hr with (⟨kv, hkv, rfl⟩ | hr) | ⟨kv, hkv, rfl⟩
    · exact cellsFit_of_forall (View.forall_drained h.agg hkv) fun hsmall =>
        hsmall.agg kv (List.mem_append_right _ hkv)
    · cases hd : args.detailedLaunches with
      | true => simp [hd] at hr
      | false =>
        simp only [hd, Bool.false_eq_true, ↓reduceIte, List.mem_map] at hr
        obtain ⟨kv, hkv, rfl⟩ := hr
        refine cellsFit_of_forall (View.forall_drained h.launch hkv) fun hsmall =>
          hsmall.launch kv ?_
        simp only [step, aggTick, handOut, hd, Bool.false_eq_true, ↓reduceIte]
        exact List.mem_append_right _ hkv
    · exact cellsFit_of_forall (View.forall_drained h.nccl hkv) fun hsmall =>
        hsmall.nccl kv (List.mem_append_right _ hkv)
  | _ => cases hr

/-- The arm of a step begins with the removals of the step. -/
theorem shaped_armStart {s : Sys n} (h : s.loop.Shaped exact) (e : Event n) :
    (s.armStart args e).Shaped exact := by
  cases e with
  | consume env =>
    simp only [armStart]
    rw [Loop.invalidateChanged_eq]
    have hevicts := Evicts.invalidatePids s.loop.cache env.changedPids s.loop.metrics
    exact ⟨(Cache.invalidatePids_ok h.cache env.changedPids).1,
      fun hist base => (h.histograms hist base).evicts hevicts⟩
  | aggTick env =>
    rw [armStart_aggTick]
    exact ⟨h.cache, h.histograms⟩
  | gcTick env =>
    have hevicts := Evicts.gc s.loop.cache s.loop.metrics env.now (args.gcInterval * 1000000000)
    exact ⟨(Cache.gc_ok h.cache env.now _).1,
      fun hist base => (h.histograms hist base).evicts hevicts⟩
  | _ => exact h

theorem shaped_step {s : Sys n} (hcells : CellsOk args s.bpf) (h : s.loop.Shaped s.hist.SlotsSmall)
    (e : Event n) : (s.step args e).loop.Shaped (s.step args e).hist.SlotsSmall := by
  have hstart : (s.armStart args e).Shaped (s.step args e).hist.SlotsSmall := by
    apply shaped_armStart
    exact ⟨h.cache, fun hist base => Cumulative.mono (h.histograms hist base) slotsSmall_of_step⟩
  have hsame := s.step_handled args e
  have hhandled : (s.handled args e).1.Shaped (s.step args e).hist.SlotsSmall :=
    Loop.Shaped.records (x := (s.armStart args e, ∅)) hstart e.env (cellsFit_records hcells e)
  exact hhandled.congr hsame.counters hsame.cache

/-- In every run, under all labels, each of the exported histograms has the shape of a histogram:
    its bucket counters do not fall from one `le` to the next and none is above its count. The
    `+Inf` bucket is the count as long as no value with `2 ^ 32` calls was drained. -/
theorem exported_histograms_run (args : Args) (es : List (Event n)) (hist : LatencyHistogram)
    (base : List String) :
    let m := (run args n es).loop.metrics
    (hist.bucketLe.map fun le => m.counterValue hist.bucketTotal (base ++ [le])).Pairwise (· ≤ ·) ∧
      (∀ le ∈ hist.bucketLe,
        m.counterValue hist.bucketTotal (base ++ [le]) ≤ m.counterValue hist.countTotal base) ∧
      ((run args n es).hist.SlotsSmall →
        m.counterValue hist.bucketTotal (base ++ ["+Inf"]) =
          m.counterValue hist.countTotal base) := by
  intro m
  have hshaped : (run args n es).loop.Shaped (run args n es).hist.SlotsSmall := by
    have hinv := invariant_run
      (fun s : Sys n => CellsOk args s.bpf ∧ s.loop.Shaped s.hist.SlotsSmall)
      ⟨cellsOk_init args, cacheOk_new _ _, fun hist base => Cumulative.zero _ hist.bucketLe⟩
      (fun s e h => ⟨cellsOk_step h.1 e, shaped_step h.1 h.2 e⟩) es
    exact hinv.2
  have hcumulative := hshaped.histograms hist base
  refine ⟨hcumulative.sorted, hcumulative.le_count, fun hsmall => ?_⟩
  apply hcumulative.last_eq hsmall
  cases hist <;> rfl

end Sys

end Profi
