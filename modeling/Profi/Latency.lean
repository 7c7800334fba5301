import Profi.BucketIndex
import Profi.Launches

/-!
# The Latency Histograms

A call's duration goes through three tables on its way to
`profi_cuda_duration_seconds_bucket_total` and its NCCL counterpart: the bounds the kernel
program compares with, the cells of the per-CPU values, and the `le` strings the event loop
exports. The cells are summed over CPUs, cumulated, and added to counters tick by tick.

`latency_histograms_exact` says that all of this is exact: after the last drain each bucket
counter is the number of calls with the series' labels that took at most `le` seconds.
-/

namespace Profi

variable {n : ℕ} {args : Args}

/-! ## The `le` labels -/

def digitsValue (digits : List Char) : ℕ :=
  digits.foldl (fun value c => 10 * value + (c.toNat - '0'.toNat)) 0

/-- A decimal number of seconds, in nanoseconds. -/
def decimalNs (le : String) : ℕ :=
  let whole := le.toList.takeWhile (· ≠ '.')
  let frac := (le.toList.drop (whole.length + 1)).take 9
  digitsValue whole * 10 ^ 9 + digitsValue frac * 10 ^ (9 - frac.length)

/-- The bound an `le` label stands for. -/
def leNs (le : String) : WithTop ℕ := if le = "+Inf" then ⊤ else (decimalNs le : ℕ)

variable {le : String} {enr : Enrichment} {s : Sys n} {N : ℕ}

/-- In a table of labels for sorted bounds, a bucket is among the first `i` iff the duration is
    at most the `i`-th label. -/
theorem indexFrom_le_iff_leNs {les : List String} {bounds : List ℕ}
    (hles : les.map leNs = bounds.map (fun b : ℕ => (b : WithTop ℕ)) ++ [⊤])
    (hsorted : bounds.Pairwise (· ≤ ·)) {i : ℕ} (hi : les[i]? = some le) (x : ℕ) :
    Buckets.indexFrom 0 bounds x ≤ i ↔ (x : WithTop ℕ) ≤ leNs le := by
  have hmap : (les.map leNs)[i]? = some (leNs le) := by
    rw [List.getElem?_map, hi]
    rfl
  rw [hles] at hmap
  by_cases hlt : i < bounds.length
  · obtain ⟨b, hb⟩ : ∃ b, bounds[i]? = some b := ⟨bounds[i], List.getElem?_eq_getElem hlt⟩
    rw [List.getElem?_append_left (by simpa using hlt), List.getElem?_map, hb, Option.map_some,
      Option.some.injEq] at hmap
    have hiff := Buckets.indexFrom_le_iff hsorted hb 0 x
    rw [Nat.zero_add] at hiff
    rw [← hmap, hiff, Nat.cast_le]
  · -- the bucket above all bounds
    have htop : leNs le = ⊤ := by
      rw [List.getElem?_append_right (by simpa using hlt), List.getElem?_singleton] at hmap
      split at hmap
      · exact (Option.some.inj hmap).symm
      · cases hmap
    have hle := Buckets.indexFrom_le 0 bounds x
    simp only [htop, le_top, iff_true]
    omega

namespace LatencyHistogram

/-- The `le` labels. -/
def bucketLe : LatencyHistogram → List String
  | nccl => ncclDurationBucketLe
  | cuda => cudaDurationBucketLe
  | kernel => cudaKernelDurationBucketLe

def bucketTotal : LatencyHistogram → CounterFamily
  | nccl => .ncclDurationBucketTotal
  | cuda => .cudaDurationBucketTotal
  | kernel => .cudaKernelDurationBucketTotal

def sumSecondsTotal : LatencyHistogram → CounterFamily
  | nccl => .ncclDurationSumSecondsTotal
  | cuda => .cudaDurationSumSecondsTotal
  | kernel => .cudaKernelDurationSumSecondsTotal

def countTotal : LatencyHistogram → CounterFamily
  | nccl => .ncclDurationCountTotal
  | cuda => .cudaDurationCountTotal
  | kernel => .cudaKernelDurationCountTotal

variable (hist : LatencyHistogram)

theorem bucketLe_nodup : hist.bucketLe.Nodup := by
  cases hist <;> decide

theorem length_bucketLe : hist.bucketLe.length = hist.lastIdx + 2 := by
  cases hist <;> rfl

/-- The labels name the bounds of the kernel program, and one bucket more. -/
theorem leNs_bucketLe :
    hist.bucketLe.map leNs =
      (List.ofFn fun i => (hist.profiBounds i).toNat).map (fun b : ℕ => (b : WithTop ℕ)) ++
        [⊤] := by
  cases hist <;> decide

/-- The kernel program puts a duration into the first `i` cells iff it is at most the label `i`. -/
theorem profiBucketIdx_le_iff {i : ℕ} {le : String} (hi : hist.bucketLe[i]? = some le) (d : U64) :
    hist.profiBucketIdx d ≤ i ↔ (d.toNat : WithTop ℕ) ≤ leNs le := by
  have hsorted : (List.ofFn fun i => (hist.profiBounds i).toNat).Pairwise (· ≤ ·) :=
    List.pairwise_ofFn.mpr fun _ _ hlt => hist.monotone_profiBounds hlt.le
  rw [profiBucketIdx_eq]
  exact indexFrom_le_iff_leNs hist.leNs_bucketLe hsorted hi d.toNat

end LatencyHistogram

/-! ## Cells -/

/-- The calls counted in the cells up to `i`. -/
def cellsUpTo (i : ℕ) (cells : Fin N → U32) : ℕ := Buckets.upTo i fun j => (cells j).toNat

/-- A cell that does not overflow counts one call more. -/
theorem cellsUpTo_bump {cells : Fin N → U32} {idx : ℕ} (hidx : idx < N)
    (hfit : (cells ⟨idx, hidx⟩).toNat + 1 < 2 ^ 32) (i : ℕ) :
    cellsUpTo i (bumpBucket cells idx 1) = cellsUpTo i cells + if idx ≤ i then 1 else 0 := by
  have hone : (cells ⟨idx, hidx⟩ + 1).toNat = (cells ⟨idx, hidx⟩).toNat + 1 := by
    exact Nat.mod_eq_of_lt hfit
  have hcells : (fun j => (bumpBucket cells idx 1 j).toNat) =
      Function.update (fun j => (cells j).toNat) ⟨idx, hidx⟩ (cells ⟨idx, hidx⟩ + 1).toNat := by
    funext j
    unfold bumpBucket
    rw [dif_pos hidx]
    by_cases hj : j = ⟨idx, hidx⟩
    · subst hj
      simp
    · simp [hj]
  unfold cellsUpTo
  rw [hcells]
  exact Buckets.upTo_update i _ ⟨idx, hidx⟩ _ hone

/-- Summing over the CPUs and cumulating commute. -/
theorem sum_take_sumBuckets (i : ℕ) (rows : List (Fin N → U32)) :
    ((sumBuckets rows).take (i + 1)).sum = (rows.map (cellsUpTo i)).sum := by
  unfold sumBuckets
  rw [Buckets.sum_take_ofFn]
  exact Buckets.upTo_sum i (fun (row : Fin N → U32) j => (row j).toNat) rows

/-! ## Cumulative increments -/

theorem concat_beq_concat (base base' : List String) (le le' : String) :
    (base ++ [le] == base' ++ [le']) = true ↔ base = base' ∧ le = le' := by
  rw [beq_iff_eq]
  constructor
  · intro h
    obtain ⟨hbase, hle⟩ := List.append_inj' h rfl
    exact ⟨hbase, List.singleton_injective hle⟩
  · rintro ⟨rfl, rfl⟩
    rfl

theorem incTotal_bucketIncs_of_notMem (family : CounterFamily) (base base' : List String)
    {les : List String} (hle : le ∉ les) (counts : List ℕ) (cumulative : ℕ) :
    incTotal family (· == base' ++ [le]) (bucketIncs family base cumulative (les.zip counts)) =
      0 := by
  induction les generalizing counts cumulative with
  | nil => rfl
  | cons l les ih =>
    rw [List.mem_cons, not_or] at hle
    obtain ⟨hne, hle⟩ := hle
    cases counts with
    | nil => rfl
    | cons x counts =>
      simp only [List.zip_cons_cons, bucketIncs, incTotal_cons, concat_beq_concat]
      rw [ih hle]
      simp [Ne.symm hne]

/-- The counter of the `i`-th label moves by the running sum up to cell `i`. -/
theorem incTotal_bucketIncs (family : CounterFamily) (base base' : List String) {les : List String}
    (hnodup : les.Nodup) {i : ℕ} (hi : les[i]? = some le) {counts : List ℕ}
    (hlen : counts.length = les.length) (cumulative : ℕ) :
    incTotal family (· == base' ++ [le]) (bucketIncs family base cumulative (les.zip counts)) =
      if base = base' then cumulative + (counts.take (i + 1)).sum else 0 := by
  induction les generalizing counts cumulative i with
  | nil => simp at hi
  | cons l les ih =>
    obtain ⟨hl, hnodup⟩ := List.nodup_cons.mp hnodup
    cases counts with
    | nil => simp at hlen
    | cons x counts =>
      have hlen' : counts.length = les.length := by simpa using hlen
      simp only [List.zip_cons_cons, bucketIncs, incTotal_cons, concat_beq_concat]
      -- the label is the first one, or the running total goes into the rest
      cases i with
      | zero =>
        rw [List.getElem?_cons_zero, Option.some.injEq] at hi
        subst hi
        rw [incTotal_bucketIncs_of_notMem family base base' hl]
        simp
      | succ i =>
        have hne : l ≠ le := by
          rintro rfl
          exact hl (List.mem_of_getElem? hi)
        rw [ih hnodup hi hlen']
        simp [hne, Nat.add_assoc]

/-! ## What a row adds -/

namespace LatencyHistogram

/-- The increments of a drained row of the histogram. -/
def rowIncs (hist : LatencyHistogram) (base : List String) (sum : ℕ) (buckets : List ℕ)
    (count : ℕ) : List Inc :=
  bucketIncs hist.bucketTotal base 0 (hist.bucketLe.zip buckets) ++
    [⟨hist.sumSecondsTotal, base, sum⟩] ++ [⟨hist.countTotal, base, count⟩]

/-- Both lists of increments add the same to the families that are addressed by labels. -/
def Amounts (incs rows : List Inc) : Prop :=
  ∀ (f : CounterFamily) (p : List String → Bool), f.byLabels = true →
    incTotal f p incs = incTotal f p rows

theorem incTotal_optInc_of_byLabels {f family : CounterFamily} (hf : f.byLabels = true)
    (hfamily : family.byLabels = false) (p : List String → Bool) (labels : Option (List String))
    (x : ℕ) : incTotal f p (optInc family labels x) = 0 := by
  rw [incTotal_optInc, if_neg]
  rintro ⟨rfl, -⟩
  rw [hf] at hfamily
  cases hfamily

theorem incTotal_calls_of_byLabels {f : CounterFamily} (hf : f.byLabels = true)
    (p : List String → Bool) (eventType : EventType) (labels : List String) (x : ℕ) :
    incTotal f p [⟨callsFamily eventType, labels, x⟩] = 0 :=
  incTotal_optInc_of_byLabels hf (byLabels_callsFamily eventType) p (some labels) x

/-- The bucket counters of the row's own histogram move under its labels, and no others. -/
theorem incTotal_rowIncs_bucket (row hist : LatencyHistogram) (base' base : List String) (sum : ℕ)
    {buckets : List ℕ} (hlength : buckets.length = row.lastIdx + 2) (count : ℕ) {i : ℕ}
    {le : String} (hi : hist.bucketLe[i]? = some le) :
    incTotal hist.bucketTotal (· == base ++ [le]) (row.rowIncs base' sum buckets count) =
      if row = hist ∧ base' = base then (buckets.take (i + 1)).sum else 0 := by
  unfold rowIncs
  rw [incTotal_append, incTotal_append]
  by_cases hrow : row = hist
  · subst hrow
    rw [incTotal_bucketIncs row.bucketTotal base' base row.bucketLe_nodup hi
      (hlength.trans row.length_bucketLe.symm) 0]
    cases row <;> simp [bucketTotal, sumSecondsTotal, countTotal]
  · rw [incTotal_bucketIncs_of_ne (by cases row <;> cases hist <;> simp_all [bucketTotal])]
    cases row <;> cases hist <;> simp_all [bucketTotal, sumSecondsTotal, countTotal]

theorem incTotal_rowIncs_count (row hist : LatencyHistogram) (base' base : List String) (sum : ℕ)
    (buckets : List ℕ) (count : ℕ) :
    incTotal hist.countTotal (· == base) (row.rowIncs base' sum buckets count) =
      if row = hist ∧ base' = base then count else 0 := by
  unfold rowIncs
  rw [incTotal_append, incTotal_append,
    incTotal_bucketIncs_of_ne (by cases row <;> cases hist <;> decide)]
  cases row <;> cases hist <;> simp [sumSecondsTotal, countTotal]

theorem byLabels_totals (hist : LatencyHistogram) :
    hist.bucketTotal.byLabels = true ∧ hist.countTotal.byLabels = true := by
  cases hist <;> exact ⟨rfl, rfl⟩

end LatencyHistogram

namespace Record

open LatencyHistogram

/-- The histogram a record is counted in, and under which labels. -/
def row (mode : KernelMode) (hl : HandleLabels) : Record → Option (LatencyHistogram × List String)
  | .ring _ => none
  | .aggregated _ _ => some (.cuda, hl.histLabels)
  | .launch _ _ =>
    match hl.kernelHistLabels, mode with
    | some labels, .full => some (.kernel, labels)
    | _, _ => none
  | .nccl _ _ => some (.nccl, hl.histLabels)

/-- The cells of a record, summed over the CPUs. -/
def cells : Record → List ℕ
  | .ring _ => []
  | .aggregated _ perCpu => sumBuckets (perCpu.map (·.bucketCounts))
  | .launch _ perCpu => sumBuckets (perCpu.map (·.bucketCounts))
  | .nccl _ perCpu => sumBuckets (perCpu.map (·.bucketCounts))

theorem length_cells {mode : KernelMode} {hl : HandleLabels} {r : Record} {hist : LatencyHistogram}
    {base : List String} (h : r.row mode hl = some (hist, base)) :
    r.cells.length = hist.lastIdx + 2 := by
  cases r with
  | ring event => cases h
  | launch _ perCpu =>
    simp only [row] at h
    split at h
    · cases h
      exact List.length_ofFn
    · cases h
  | _ =>
    cases h
    exact List.length_ofFn

variable (mode : KernelMode) (key : MetricKey) (hl : HandleLabels) (r : Record)

/-- A record is counted in a histogram as a row of it, or in none. -/
theorem amounts :
    r.row mode hl = none ∧ Amounts (r.incs mode key hl) [] ∨
      ∃ hist base sum, r.row mode hl = some (hist, base) ∧
        Amounts (r.incs mode key hl) (hist.rowIncs base sum r.cells r.count) := by
  cases r with
  | ring event =>
    refine .inl ⟨rfl, fun f p hf => ?_⟩
    simp only [incs, eventIncs, incTotal_append]
    rw [incTotal_calls_of_byLabels hf, incTotal_optInc_of_byLabels hf rfl,
      incTotal_optInc_of_byLabels hf rfl, incTotal_optInc_of_byLabels hf rfl,
      incTotal_optInc_of_byLabels hf rfl, incTotal_optInc_of_byLabels hf rfl, incTotal_nil]
  | aggregated _ perCpu =>
    refine .inr ⟨_, _, (perCpu.map AggValue.durationSumNs).sum.toNat, rfl, fun f p hf => ?_⟩
    simp only [incs, aggIncs, rowIncs, incTotal_append]
    rw [incTotal_calls_of_byLabels hf, incTotal_optInc_of_byLabels hf rfl,
      incTotal_optInc_of_byLabels hf rfl, incTotal_optInc_of_byLabels hf rfl,
      incTotal_optInc_of_byLabels hf rfl]
    simp only [Nat.zero_add, Nat.add_zero]
    rfl
  | launch _ perCpu =>
    have hplain : ∀ f p, f.byLabels = true → incTotal f p
        ([⟨callsFamily key.eventType, hl.callsLabels, (perCpu.map (·.count)).sum⟩] ++
          optInc .cudaKernelLaunches hl.kernelCounterLabels (perCpu.map (·.count)).sum) = 0 := by
      intro f p hf
      rw [incTotal_append, incTotal_calls_of_byLabels hf, incTotal_optInc_of_byLabels hf rfl]
    -- a launch is in a histogram only in full mode, and only for a handle that has the labels
    cases hlabels : hl.kernelHistLabels with
    | none =>
      refine .inl ⟨by simp [row, hlabels], fun f p hf => ?_⟩
      simpa [incs, launchIncs, hlabels] using hplain f p hf
    | some labels =>
      cases mode with
      | full =>
        refine .inr ⟨.kernel, labels, (perCpu.map LaunchAggValue.totalDurationNs).sum.toNat,
          by simp [row, hlabels], fun f p hf => ?_⟩
        simp only [incs, launchIncs, hlabels]
        rw [incTotal_append, hplain f p hf, Nat.zero_add]
        rfl
      | _ =>
        refine .inl ⟨by simp [row, hlabels], fun f p hf => ?_⟩
        simpa [incs, launchIncs, hlabels] using hplain f p hf
  | nccl _ perCpu =>
    refine .inr ⟨_, _, (perCpu.map NcclAggValue.durationSumNs).sum.toNat, rfl, fun f p hf => ?_⟩
    simp only [incs, ncclIncs, rowIncs, incTotal_append]
    rw [incTotal_calls_of_byLabels hf, incTotal_optInc_of_byLabels hf rfl,
      incTotal_optInc_of_byLabels hf rfl]
    simp only [Nat.zero_add]
    rfl

variable (hist : LatencyHistogram) (base : List String)

/-- What a record adds to a bucket counter. -/
theorem incTotal_bucket {i : ℕ} {le : String} (hi : hist.bucketLe[i]? = some le) :
    incTotal hist.bucketTotal (· == base ++ [le]) (r.incs mode key hl) =
      if r.row mode hl = some (hist, base) then (r.cells.take (i + 1)).sum else 0 := by
  have hbucket := (byLabels_totals hist).1
  rcases r.amounts mode key hl with ⟨hnone, hamounts⟩ | ⟨row, base', sum, hrow, hamounts⟩
  · rw [hamounts _ _ hbucket, hnone]
    rfl
  · rw [hamounts _ _ hbucket, hrow,
      incTotal_rowIncs_bucket row hist base' base sum (length_cells hrow) _ hi]
    simp

theorem incTotal_count :
    incTotal hist.countTotal (· == base) (r.incs mode key hl) =
      if r.row mode hl = some (hist, base) then r.count else 0 := by
  have hcount := (byLabels_totals hist).2
  rcases r.amounts mode key hl with ⟨hnone, hamounts⟩ | ⟨row, base', sum, hrow, hamounts⟩
  · rw [hamounts _ _ hcount, hnone]
    rfl
  · rw [hamounts _ _ hcount, hrow, incTotal_rowIncs_count]
    simp

end Record

/-! ## Labels -/

/-- What the enricher answers about each process, for the whole run. -/
structure Enrichment where
  pods : U32 → Option PodInfo
  gpus : U32 → Option GpuDevice

namespace Enrichment

variable (enr : Enrichment)

/-- The environment gives these answers. -/
def Answers (env : CacheEnv) : Prop := env.resolveK8s = enr.pods ∧ env.resolveGpu = enr.gpus

/-- The labels of a duration series: operation, namespace, pod and GPU. -/
def labels (eventType : EventType) (pid : U32) : List String :=
  [operationName eventType, ((enr.pods pid).map (·.namespace_)).getD "",
    ((enr.pods pid).map (·.pod)).getD "", ((enr.gpus pid).map fun g => decString g.index).getD ""]

end Enrichment

theorem LabelsFor.hist_eq {key : MetricKey} {hl : HandleLabels}
    (hfor : LabelsFor enr.Answers key hl) : hl.histLabels = enr.labels key.eventType key.pid := by
  obtain ⟨env, comm, ⟨hpods, hgpus⟩, hhist⟩ := hfor.hist
  rw [hhist]
  simp [Enrichment.labels, CacheEnv.lookup, hpods, hgpus]

section Shares

open LatencyHistogram

variable (enr : Enrichment) (labels : List String) {hist : LatencyHistogram}
  (hhist : hist ≠ .kernel)

include hhist in
/-- Launches are counted in the kernel histogram only. -/
theorem row_launch_ne {mode : KernelMode} {hl : HandleLabels} {key : LaunchKey}
    {perCpu : List LaunchAggValue} {base : List String} :
    (Record.launch key perCpu).row mode hl ≠ some (hist, base) := by
  simp only [Record.row]
  split
  · exact fun h => hhist (congrArg Prod.fst (Option.some.inj h)).symm
  · simp

/-- The bucket counters of a histogram. Only rows of its own map have a share. -/
def bucketShares {i : ℕ} {le : String} (hi : hist.bucketLe[i]? = some le) :
    Shares enr.Answers (.value hist.bucketTotal (labels ++ [le]) (byLabels_totals hist).1) where
  agg key val :=
    if cuda = hist ∧ enr.labels key.eventType key.pid = labels then cellsUpTo i val.bucketCounts
    else 0
  launch _ _ := 0
  nccl key val :=
    if nccl = hist ∧ enr.labels key.eventType key.pid = labels then cellsUpTo i val.bucketCounts
    else 0
  event _ := 0
  zero := by
    have hagg : cellsUpTo i (0 : AggValue).bucketCounts = 0 := Buckets.upTo_zero i
    have hnccl : cellsUpTo i (0 : NcclAggValue).bucketCounts = 0 := Buckets.upTo_zero i
    exact ⟨fun _ => by simp [hagg], fun _ => rfl, fun _ => by simp [hnccl]⟩
  incs r mode key' hl hsame hfor := by
    refine (r.incTotal_bucket mode key' hl hist labels hi).trans ?_
    cases r with
    | ring ev => rfl
    | launch key perCpu => simp [row_launch_ne hhist, Record.share]
    | _ =>
      simp only [Record.row, Record.cells, Record.share, sum_take_sumBuckets, List.map_map,
        hfor.hist_eq, hsame.eventType, hsame.pid, sum_map_ite, Option.some.injEq, Prod.mk.injEq]
      rfl

/-- The count series of a histogram. -/
def countShares : Shares enr.Answers (.value hist.countTotal labels (byLabels_totals hist).2) where
  agg key val := if cuda = hist ∧ enr.labels key.eventType key.pid = labels then val.count else 0
  launch _ _ := 0
  nccl key val := if nccl = hist ∧ enr.labels key.eventType key.pid = labels then val.count else 0
  event _ := 0
  zero := ⟨fun _ => ite_self _, fun _ => rfl, fun _ => ite_self _⟩
  incs r mode key' hl hsame hfor := by
    refine (r.incTotal_count mode key' hl hist labels).trans ?_
    cases r with
    | ring ev => rfl
    | launch key perCpu => simp [row_launch_ne hhist, Record.share]
    | _ =>
      simp only [Record.row, Record.count, Record.share, hfor.hist_eq, hsame.eventType, hsame.pid,
        sum_map_ite, Option.some.injEq, Prod.mk.injEq]
      rfl

end Shares

/-! ## Runs -/

/-- No cell of a slot that a return adds to is about to overflow. -/
def CellsFit (args : Args) (s : Sys n) : Event n → Prop
  | .ret ctx => ∀ call rest, s.stack ctx.pidTgid = call :: rest →
      (∀ k, (aggView args n).key (s.completed ctx call rest) = some k →
        ∀ j, ((s.bpf.aggregated.slot ctx.cpu k).bucketCounts j).toNat + 1 < 2 ^ 32) ∧
      (∀ k, (ncclView args n).key (s.completed ctx call rest) = some k →
        ∀ j, ((s.bpf.ncclAgg.slot ctx.cpu k).bucketCounts j).toNat + 1 < 2 ^ 32)
  | _ => True

/-- No series is removed: no process has changed its pod, none is stale. -/
def KeepsSeries (args : Args) (s : Sys n) : Event n → Prop
  | .consume env => env.changedPids = []
  | .gcTick env => s.loop.cache.stalePids env.now (args.gcInterval * 1000000000) = []
  | _ => True

/-- What the histograms are exact under. -/
structure LatencyRun (args : Args) (enr : Enrichment) (s : Sys n) (e : Event n) : Prop where
  orderly : Orderly args s e
  answers : EnvOk enr.Answers e
  cellsFit : CellsFit args s e
  keepsSeries : KeepsSeries args s e

theorem KeepsSeries.undisturbed {μ : Measure} {e : Event n} (h : KeepsSeries args s e) :
    Undisturbed μ args s e := by
  cases e with
  | consume env =>
    have hnone : env.changedPids = [] := h
    simp [Undisturbed, Loop.invalidateChanged, hnone]
  | gcTick env =>
    have hnone : s.loop.cache.stalePids env.now (args.gcInterval * 1000000000) = [] := h
    simp [Undisturbed, Loop.gcTick, Cache.gc, hnone]
  | _ => trivial

theorem cellsUpTo_aggAdd {val : AggValue} {x : AggItem} (hmul : x.sampleMul = 1)
    (hfit : ∀ j, (val.bucketCounts j).toNat + 1 < 2 ^ 32) (i : ℕ) :
    cellsUpTo i (val.add x).bucketCounts =
      cellsUpTo i val.bucketCounts + if profiCudaBucketIdx x.durationNs ≤ i then 1 else 0 := by
  have hone : x.sampleMul.setWidth 32 = 1 := by
    rw [hmul]
    rfl
  unfold AggValue.add
  rw [hone]
  exact cellsUpTo_bump (LatencyHistogram.cuda.profiBucketIdx_lt _) (hfit _) i

theorem cellsUpTo_ncclAdd {val : NcclAggValue} (x : NcclItem)
    (hfit : ∀ j, (val.bucketCounts j).toNat + 1 < 2 ^ 32) (i : ℕ) :
    cellsUpTo i (val.add x).bucketCounts =
      cellsUpTo i val.bucketCounts + if profiNcclBucketIdx x.durationNs ≤ i then 1 else 0 :=
  cellsUpTo_bump (LatencyHistogram.nccl.profiBucketIdx_lt _) (hfit _) i

/-- The cells of a fresh `AGGREGATED` slot hold one call. -/
theorem cellsUpTo_aggAdd_zero {x : AggItem} (hmul : x.sampleMul = 1) (i : ℕ) :
    cellsUpTo i (AggValue.add 0 x).bucketCounts =
      if profiCudaBucketIdx x.durationNs ≤ i then 1 else 0 := by
  have hzero : cellsUpTo i (0 : AggValue).bucketCounts = 0 := Buckets.upTo_zero i
  rw [cellsUpTo_aggAdd hmul (fun _ => show (0 : U32).toNat + 1 < 2 ^ 32 by decide), hzero,
    Nat.zero_add]

theorem cellsUpTo_ncclAdd_zero (x : NcclItem) (i : ℕ) :
    cellsUpTo i (NcclAggValue.add 0 x).bucketCounts =
      if profiNcclBucketIdx x.durationNs ≤ i then 1 else 0 := by
  have hzero : cellsUpTo i (0 : NcclAggValue).bucketCounts = 0 := Buckets.upTo_zero i
  rw [cellsUpTo_ncclAdd x (fun _ => show (0 : U32).toNat + 1 < 2 ^ 32 by decide), hzero,
    Nat.zero_add]

/-- Cells that do not overflow absorb what a call adds to them. -/
theorem bucketShares_absorbed {labels : List String} {e : Event n} (h : LatencyRun args enr s e)
    (hmul : s.bpf.sampleMul = 1) {hist : LatencyHistogram} (hhist : hist ≠ .kernel) {i : ℕ}
    {le : String} (hi : hist.bucketLe[i]? = some le) :
    Absorbed (bucketShares enr labels hhist hi) args s e where
  agg := by
    have hroom := h.orderly.aggregated
    have hfit := h.cellsFit
    cases e with
    | ret ctx =>
      intro call rest hs k hk
      refine ⟨hroom call rest hs k hk, ?_⟩
      obtain ⟨entry, hentry, -⟩ := Option.map_eq_some_iff.mp hk
      have hadd : ∀ val, (aggView args n).add (s.completed ctx call rest) val =
          val.add ((s.completed ctx call rest).aggItem entry) := by
        intro val
        simp only [aggView, hentry, addItem]
      simp only [View.share, hk, hadd, bucketShares]
      -- the cells up to the bucket grow by what the call has there
      rw [cellsUpTo_aggAdd_zero (by exact hmul)]
      split
      · exact cellsUpTo_aggAdd (by exact hmul) ((hfit call rest hs).1 k hk) i
      · rfl
    | _ => trivial
  launch := View.absorbs_share_of_room (fun _ _ _ _ => rfl) h.orderly.launch
  nccl := by
    have hroom := h.orderly.nccl
    have hfit := h.cellsFit
    cases e with
    | ret ctx =>
      intro call rest hs k hk
      refine ⟨hroom call rest hs k hk, ?_⟩
      obtain ⟨entry, hentry, -⟩ := Option.map_eq_some_iff.mp hk
      have hadd : ∀ val, (ncclView args n).add (s.completed ctx call rest) val =
          val.add ((s.completed ctx call rest).ncclItem entry) := by
        intro val
        simp only [ncclView, hentry, addItem]
      simp only [View.share, hk, hadd, bucketShares]
      rw [cellsUpTo_ncclAdd_zero]
      split
      · exact cellsUpTo_ncclAdd _ ((hfit call rest hs).2 k hk) i
      · rfl
    | _ => trivial
  rings := h.orderly.rings

/-! ## Exactness -/

/-- The calls a histogram is of. -/
def LatencyHistogram.kind : LatencyHistogram → EventType → Bool
  | nccl => profiIsNcclEvent
  | cuda => profiIsAggregatable
  | kernel => (· = .cudaLaunchKernel)

/-- A completed call of the kind whose series has these labels. -/
def Completed.inSeries (enr : Enrichment) (kind : EventType → Bool) (labels : List String)
    (r : Completed n) : Bool :=
  kind r.call.probe.eventType && enr.labels r.call.probe.eventType r.ctx.pid = labels

/-- The call took at most `le` seconds. -/
def Completed.within (le : String) (r : Completed n) : Bool :=
  ((r.durationNs r.call.entry).toNat : WithTop ℕ) ≤ leNs le

/-- The exported histogram of one label tuple is the histogram of the completed calls. -/
structure HistogramExact (enr : Enrichment) (les : List String) (bucket count : CounterFamily)
    (kind : EventType → Bool) (labels : List String) (s : Sys n) : Prop where
  buckets : ∀ le ∈ les, s.loop.metrics.counterValue bucket (labels ++ [le]) =
    s.hist.returns.countP fun r => r.inSeries enr kind labels && r.within le
  monotone : ∀ le ∈ les, ∀ le' ∈ les, leNs le ≤ leNs le' →
    s.loop.metrics.counterValue bucket (labels ++ [le]) ≤
      s.loop.metrics.counterValue bucket (labels ++ [le'])
  inf : s.loop.metrics.counterValue bucket (labels ++ ["+Inf"]) =
    s.loop.metrics.counterValue count labels
  count : s.loop.metrics.counterValue count labels =
    s.hist.returns.countP (·.inSeries enr kind labels)

/-- The order of the buckets and the total follow from the bucket counts. -/
theorem HistogramExact.of_buckets {les : List String} {bucket count : CounterFamily}
    {kind : EventType → Bool} {labels : List String} (hinf : "+Inf" ∈ les)
    (hbuckets : ∀ le ∈ les, s.loop.metrics.counterValue bucket (labels ++ [le]) =
      s.hist.returns.countP fun r => r.inSeries enr kind labels && r.within le)
    (hcount : s.loop.metrics.counterValue count labels =
      s.hist.returns.countP (·.inSeries enr kind labels)) :
    HistogramExact enr les bucket count kind labels s where
  buckets := hbuckets
  monotone le hle le' hle' hlt := by
    rw [hbuckets le hle, hbuckets le' hle']
    apply List.countP_mono_left
    intro r _ hr
    obtain ⟨hseries, hwithin⟩ := Bool.and_eq_true_iff.mp hr
    rw [Bool.and_eq_true]
    exact ⟨hseries, decide_eq_true ((of_decide_eq_true hwithin).trans hlt)⟩
  inf := by
    rw [hbuckets _ hinf, hcount]
    apply List.countP_congr
    intro r _
    have htop : r.within "+Inf" = true := decide_eq_true le_top
    simp [htop]
  count := hcount

section OfReturn

variable {E : CacheEnv → Prop} {μ : Measure} {sh : Shares E μ} {enr : Enrichment}
  {labels : List String} {r : Completed n} (hr : r.RecordedOnce)

include hr

/-- When ring events have no share, a call contributes through the row of its kind. -/
theorem ofReturn_of_rows (hevent : ∀ ev, sh.event ev = 0) :
    sh.ofReturn args r =
      (if profiIsAggregatable r.call.probe.eventType then
        sh.agg (r.aggKey r.call.entry) (AggValue.add 0 (r.aggItem r.call.entry)) else 0) +
      (if args.detailedLaunches then 0
        else if r.call.probe.eventType = .cudaLaunchKernel then
          sh.launch (r.launchKey r.call.entry) (LaunchAggValue.add 0 (r.launchItem r.call.entry))
        else 0) +
      (if profiIsNcclEvent r.call.probe.eventType then
        sh.nccl (r.ncclKey r.call.entry) (NcclAggValue.add 0 (r.ncclItem r.call.entry))
      else 0) := by
  have hrec := hr.recorded
  cases hm : r.call.probe.isModuleGetFunction with
  | true =>
    -- the name of a module's function is not recorded, and has no row
    rw [hm, if_pos rfl] at hrec
    have hagg : profiIsAggregatable .cudaRegisterFunction = false := rfl
    have hnccl : profiIsNcclEvent .cudaRegisterFunction = false := rfl
    rw [Shares.ofReturn_of_none _ hrec, (Probe.eventType_eq_register _).mpr hm]
    simp [hagg, hnccl]
  | false =>
    rw [hm, if_neg (by simp)] at hrec
    rw [Shares.ofReturn_of_some _ hrec, hr.eventType]
    simp [hevent]

/-- A call contributes to the bucket counter if it is of the histogram's kind and short enough. -/
theorem ofReturn_bucketShares {hist : LatencyHistogram} (hhist : hist ≠ .kernel) {i : ℕ}
    {le : String} (hi : hist.bucketLe[i]? = some le) :
    (bucketShares enr labels hhist hi).ofReturn args r =
      if (r.inSeries enr hist.kind labels && r.within le) = true then 1 else 0 := by
  have hwithin : hist.profiBucketIdx (r.durationNs r.call.entry) ≤ i ↔ r.within le = true := by
    rw [hist.profiBucketIdx_le_iff hi]
    exact decide_eq_true_iff.symm
  have hagg := cellsUpTo_aggAdd_zero (x := r.aggItem r.call.entry) hr.sampleMul i
  have hnccl := cellsUpTo_ncclAdd_zero (r.ncclItem r.call.entry) i
  have hkey : (r.aggKey r.call.entry).eventType = r.call.probe.eventType := hr.eventType
  have hkey' : (r.ncclKey r.call.entry).eventType = r.call.probe.eventType := hr.eventType
  have hpid : (r.aggKey r.call.entry).pid = r.ctx.pid := rfl
  have hpid' : (r.ncclKey r.call.entry).pid = r.ctx.pid := rfl
  rw [ofReturn_of_rows hr fun _ => rfl]
  simp only [bucketShares, hagg, hnccl, hkey, hkey', hpid, hpid', Completed.inSeries,
    Bool.and_eq_true, decide_eq_true_eq, ite_and, ← hwithin]
  -- the rows of the other map have no share
  cases hist with
  | cuda => simp [LatencyHistogram.kind]; rfl
  | nccl => simp [LatencyHistogram.kind]; rfl
  | kernel => exact absurd rfl hhist

theorem ofReturn_countShares {hist : LatencyHistogram} (hhist : hist ≠ .kernel) :
    (countShares enr labels hhist).ofReturn args r =
      if r.inSeries enr hist.kind labels = true then 1 else 0 := by
  have hagg := Completed.count_aggItem hr.sampleMul r.call.entry
  have hnccl : (NcclAggValue.add 0 (r.ncclItem r.call.entry)).count = 1 := rfl
  have hkey : (r.aggKey r.call.entry).eventType = r.call.probe.eventType := hr.eventType
  have hkey' : (r.ncclKey r.call.entry).eventType = r.call.probe.eventType := hr.eventType
  have hpid : (r.aggKey r.call.entry).pid = r.ctx.pid := rfl
  have hpid' : (r.ncclKey r.call.entry).pid = r.ctx.pid := rfl
  rw [ofReturn_of_rows hr fun _ => rfl]
  simp only [countShares, hagg, hnccl, hkey, hkey', hpid, hpid', Completed.inSeries,
    Bool.and_eq_true, decide_eq_true_eq, ite_and]
  cases hist with
  | cuda => simp [LatencyHistogram.kind]; rfl
  | nccl => simp [LatencyHistogram.kind]; rfl
  | kernel => exact absurd rfl hhist

end OfReturn

section Exact

variable {enr : Enrichment} (hrate : args.sampleRate ≤ 1) {es : List (Event n)}
  (hes : Sys.Permitted args (LatencyRun args enr) es)
  (hsettled : Settled args (Sys.run args n es))
  (hdrops : (Sys.run args n es).loop.metrics.cardinalityDrops = 0)

include hrate hes hsettled hdrops

/-- A series whose shares are absorbed counts the calls that contribute to it. -/
theorem value_eq_countP {μ : Measure} (sh : Shares enr.Answers μ)
    (habs : ∀ (s : Sys n) e, LatencyRun args enr s e → s.bpf.sampleMul = 1 →
      Absorbed sh args s e)
    {p : Completed n → Bool}
    (hof : ∀ r : Completed n, r.RecordedOnce → sh.ofReturn args r = if p r = true then 1 else 0) :
    μ.val (Sys.run args n es).loop.metrics =
      (Sys.run args n es).hist.returns.countP p := by
  -- sampling stays off, so every record stands for one call
  have hes' := hes.and_invariant (I := fun s => Sys.ConfigOk args s.bpf)
    (fun _ e h _ => Sys.configOk_step h e) (Sys.configOk_init args)
  exact exported_eq_countP sh (fun _ _ h => h.1.answers)
    (fun _ _ _ h => h.1.keepsSeries.undisturbed)
    (fun s e h => habs s e h.1 (h.2.sampleMul_eq_one hrate)) hes' hsettled hdrops
    fun r hr => hof r (returns_recordedOnce hrate (hes.mono fun _ _ h => h.orderly) r hr)

theorem histogram_exact (hist : LatencyHistogram) (hhist : hist ≠ .kernel) (labels : List String) :
    HistogramExact enr hist.bucketLe hist.bucketTotal hist.countTotal hist.kind labels
      (Sys.run args n es) := by
  refine .of_buckets (by cases hist <;> decide) ?_ ?_
  · intro le hle
    obtain ⟨i, hi⟩ := List.mem_iff_getElem?.mp hle
    exact value_eq_countP hrate hes hsettled hdrops (bucketShares enr labels hhist hi)
      (fun _ _ h hmul => bucketShares_absorbed h hmul hhist hi)
      (fun _ hr => ofReturn_bucketShares hr hhist hi)
  · exact value_eq_countP hrate hes hsettled hdrops (countShares enr labels hhist)
      (fun _ _ h _ => h.orderly.absorbed
        (fun _ => ite_eq_mul _ _)
        (fun _ => ⟨0, fun _ => (Nat.zero_mul _).symm⟩)
        (fun _ => ite_eq_mul _ _))
      (fun _ hr => ofReturn_countShares hr hhist)

end Exact

/-- **Latency histograms.** In every orderly run without sampling, cell overflow and removal of
    series, with ticks anywhere, after the last drain and below the handle limit: for every
    label tuple the exported CUDA and NCCL histograms are those of the completed calls. -/
theorem latency_histograms_exact (enr : Enrichment) (hrate : args.sampleRate ≤ 1)
    {es fs : List (Event n)} (hes : Sys.Permitted args (LatencyRun args enr) (es ++ fs))
    (hclose : Closing args (Sys.run args n es) fs)
    (hdrops : (Sys.run args n (es ++ fs)).loop.metrics.cardinalityDrops = 0)
    (labels : List String) :
    HistogramExact enr cudaDurationBucketLe .cudaDurationBucketTotal .cudaDurationCountTotal
        profiIsAggregatable labels (Sys.run args n (es ++ fs)) ∧
      HistogramExact enr ncclDurationBucketLe .ncclDurationBucketTotal .ncclDurationCountTotal
        profiIsNcclEvent labels (Sys.run args n (es ++ fs)) :=
  ⟨histogram_exact hrate hes hclose.settled_run hdrops .cuda (by decide) labels,
    histogram_exact hrate hes hclose.settled_run hdrops .nccl (by decide) labels⟩

/-- No pods and no devices. -/
def Enrichment.none : Enrichment := ⟨fun _ => .none, fun _ => .none⟩

/-- A copy that takes 7 µs. -/
def shortCopy : List (Event 1) :=
  [.enter (.cudaMemcpy 64 1) (Sys.bareCtx 0x700000007 100 0),
    .ret (Sys.bareCtx 0x700000007 7100 0)]

theorem latency_histograms_exact_copy :
    (Sys.run {} 1 (shortCopy ++ lastDrain)).loop.metrics.counterValue .cudaDurationBucketTotal
      ["cudaMemcpy", "", "", "", "0.00001"] = 1 := by
  have hspace : Sys.Permitted {} WithSpace (shortCopy ++ lastDrain) := by decide
  obtain ⟨h₁, h₂, h₃, h₄, -⟩ := hspace
  have hes : Sys.Permitted {} (LatencyRun {} .none) (shortCopy ++ lastDrain) := by
    refine ⟨⟨h₁.orderly, trivial, trivial, trivial⟩, ⟨h₂.orderly, trivial, ?_, trivial⟩,
      ⟨h₃.orderly, ⟨rfl, rfl⟩, trivial, rfl⟩, ⟨h₄.orderly, ⟨rfl, rfl⟩, trivial, trivial⟩, trivial⟩
    -- the maps are still empty when the copy returns
    exact fun _ _ _ => ⟨fun _ _ _ => show (0 : U32).toNat + 1 < 2 ^ 32 by decide,
      fun _ _ _ => show (0 : U32).toNat + 1 < 2 ^ 32 by decide⟩
  have hexact := latency_histograms_exact .none (by decide) hes
    ⟨by simp [lastDrain, Event.isAggTick, Event.isConsume], by decide, by decide, by decide,
      by decide⟩ (by decide) ["cudaMemcpy", "", "", ""]
  exact hexact.1.buckets "0.00001" (by decide)

end Profi
