import Profi.Latency
import Profi.Lib.Quantile
import Profi.PidSeries

/-!
# Straggler Ratios

A gc tick compares the ranks of a collective: for each process with a long enough window the 95th
percentile of its durations is divided by the median over the group.

- The median of a group is the entry at half its length, rounded down. In a group of two that is the
  slower rank itself, so a single slow rank is told apart exactly in larger groups
  (`straggler_ratio_iff`).
- The windows are filled from drained rows, with one entry for each bucket that has any call,
  however many. Whether the percentile is still in the right bucket is a matter of counting
  (`p95_bucket_iff`).
-/

namespace Profi

/-! ## The Group of an Operation -/

section Group

variable {env : GcEnv} {durations : NcclDurations} {op : EventType}

/-- A window of ten or more calls has a value. -/
theorem mem_pidP95s_iff {p : U32} {v : U64} :
    (p, v) ∈ pidP95s env durations op ↔
      ∃ window, durations.lookup (p, op) = some window ∧ 10 ≤ window.length ∧ p95 window = v := by
  unfold pidP95s
  rw [List.mem_filterMap]
  constructor
  · rintro ⟨k, -, hk⟩
    cases hwindow : durations.lookup k with
    | none => simp [hwindow] at hk
    | some window =>
      simp only [hwindow, Option.ite_none_right_eq_some, Option.some.injEq, Prod.mk.injEq] at hk
      obtain ⟨⟨rfl, hlong⟩, rfl, rfl⟩ := hk
      exact ⟨window, hwindow, hlong, rfl⟩
  · rintro ⟨window, hwindow, hlong, rfl⟩
    have hkey : (p, op) ∈ durations.keys :=
      AList.mem_keys.mpr (AList.lookup_isSome.mp (by rw [hwindow]; rfl))
    refine ⟨(p, op), (env.windowOrder.perm _).mem_iff.mpr hkey, ?_⟩
    simp [hwindow, hlong]

/-- Each process is in the group once. -/
theorem pidP95s_nodup (env : GcEnv) (durations : NcclDurations) (op : EventType) :
    ((pidP95s env durations op).map Prod.fst).Nodup := by
  have hkeys : (env.windowOrder.order durations.keys).Nodup :=
    (env.windowOrder.perm _).nodup_iff.mpr durations.nodupKeys
  have hnodup {f : U32 × EventType → Option U32} (hsource : ∀ k p, p ∈ f k → k = (p, op)) :
      ((env.windowOrder.order durations.keys).filterMap f).Nodup :=
    hkeys.filterMap fun k k' p hp hp' => (hsource k p hp).trans (hsource k' p hp').symm
  unfold pidP95s
  rw [List.map_filterMap]
  -- a process of the group tells the key it was made from
  apply hnodup
  intro k p hp
  cases hwindow : durations.lookup k with
  | none => simp [hwindow] at hp
  | some window =>
    simp only [hwindow, Option.mem_def, Option.map_eq_some_iff, Option.ite_none_right_eq_some,
      Option.some.injEq] at hp
    obtain ⟨x, ⟨⟨hop, -⟩, rfl⟩, rfl⟩ := hp
    exact Prod.ext rfl hop

/-- The group in the order of its percentiles. -/
def sortedP95s (env : GcEnv) (durations : NcclDurations) (op : EventType) : List (U32 × U64) :=
  (pidP95s env durations op).mergeSort fun a b => a.2.toNat ≤ b.2.toNat

/-- `pid_p95s[pid_p95s.len() / 2].1`. -/
def medianP95 (env : GcEnv) (durations : NcclDurations) (op : EventType) : U64 :=
  ((sortedP95s env durations op).getD ((sortedP95s env durations op).length / 2) (0, 0)).2

theorem sortedP95s_perm : (sortedP95s env durations op).Perm (pidP95s env durations op) :=
  List.mergeSort_perm _ _

/-- A ratio is set for each process of a group of two or more with a positive median. -/
theorem mem_stragglers_iff {p : U32} {r : ℚ} :
    (p, op, r) ∈ stragglers env durations ↔
      2 ≤ (pidP95s env durations op).length ∧ medianP95 env durations op ≠ 0 ∧
        ∃ v, (p, v) ∈ pidP95s env durations op ∧
          r = (v.toNat : ℚ) / (medianP95 env durations op).toNat := by
  -- a process with a value has a window, so its operation is visited
  have hop : ∀ v, (p, v) ∈ pidP95s env durations op →
      op ∈ env.opOrder.order (durations.keys.map Prod.snd).dedup := by
    intro v hv
    obtain ⟨window, hwindow, -, -⟩ := mem_pidP95s_iff.mp hv
    have hkey : (p, op) ∈ durations.keys :=
      AList.mem_keys.mpr (AList.lookup_isSome.mp (by rw [hwindow]; rfl))
    rw [(env.opOrder.perm _).mem_iff, List.mem_dedup]
    exact List.mem_map_of_mem hkey
  have hsorted : ∀ op', (pidP95s env durations op').mergeSort
      (fun a b => a.2.toNat ≤ b.2.toNat) = sortedP95s env durations op' := fun _ => rfl
  unfold stragglers
  rw [List.mem_flatMap]
  simp only [hsorted]
  constructor
  · rintro ⟨op', -, hmem⟩
    split at hmem
    · cases hmem
    next hcompared =>
      rw [not_or, not_lt] at hcompared
      obtain ⟨x, hx, heq⟩ := List.mem_map.mp hmem
      simp only [Prod.mk.injEq] at heq
      obtain ⟨rfl, rfl, rfl⟩ := heq
      exact ⟨sortedP95s_perm.length_eq ▸ hcompared.1, hcompared.2, x.2,
        sortedP95s_perm.mem_iff.mp hx, rfl⟩
  · rintro ⟨htwo, hmedian, v, hv, rfl⟩
    refine ⟨op, hop v hv, ?_⟩
    rw [if_neg]
    · exact List.mem_map.mpr ⟨(p, v), sortedP95s_perm.mem_iff.mpr hv, rfl⟩
    · rw [not_or, not_lt]
      exact ⟨sortedP95s_perm.length_eq ▸ htwo, hmedian⟩

end Group

/-! ## One Slow Rank -/

/-- The percentile of `p` is more than one and a half times that of every other process in the
    group, and all are positive. -/
structure OneSlow (env : GcEnv) (durations : NcclDurations) (op : EventType) (p : U32) (v : U64) :
    Prop where
  mem : (p, v) ∈ pidP95s env durations op
  slower : ∀ x ∈ pidP95s env durations op, x.1 ≠ p → 3 * x.2.toNat < 2 * v.toNat
  pos : ∀ x ∈ pidP95s env durations op, 0 < x.2.toNat

section OneSlow

variable {env : GcEnv} {durations : NcclDurations} {op : EventType} {p : U32} {v : U64}

theorem OneSlow.eq_of_pid (h : OneSlow env durations op p v) {x : U32 × U64}
    (hx : x ∈ pidP95s env durations op) (hpid : x.1 = p) : x = (p, v) :=
  List.inj_on_of_nodup_map (pidP95s_nodup env durations op) hx h.mem hpid

/-- The slow rank is the last of its group. -/
theorem OneSlow.sorted (h : OneSlow env durations op p v) :
    ∃ others, sortedP95s env durations op = others ++ [(p, v)] ∧ ∀ x ∈ others, x.1 ≠ p := by
  have hsorted : (sortedP95s env durations op).Pairwise fun a b => a.2.toNat ≤ b.2.toNat :=
    KeySort.pairwise_mergeSort (fun x : U32 × U64 => x.2.toNat) _
  have hpids : ((sortedP95s env durations op).map Prod.fst).Nodup :=
    (sortedP95s_perm.map Prod.fst).nodup_iff.mpr (pidP95s_nodup env durations op)
  -- more than one and a half times as slow is slower, so the rank is at the top
  have htop : ∀ y ∈ sortedP95s env durations op, y ≠ (p, v) → y.2.toNat < v.toNat := by
    intro y hy hne
    have hy' := sortedP95s_perm.mem_iff.mp hy
    have hslower := h.slower y hy' fun hpid => hne (h.eq_of_pid hy' hpid)
    omega
  obtain ⟨others, heq⟩ := KeySort.exists_eq_append_of_top (fun x : U32 × U64 => x.2.toNat) hsorted
    hpids.of_map (sortedP95s_perm.mem_iff.mpr h.mem) htop
  refine ⟨others, heq, ?_⟩
  intro x hx hpid
  rw [heq, List.map_append, List.nodup_append] at hpids
  exact hpids.2.2 x.1 (List.mem_map_of_mem hx) p (by simp) hpid

/-- In a group of two the slow rank is its own median; in a larger one the median is another. -/
theorem OneSlow.median (h : OneSlow env durations op p v)
    (htwo : 2 ≤ (pidP95s env durations op).length) :
    if 3 ≤ (pidP95s env durations op).length then
      3 * (medianP95 env durations op).toNat < 2 * v.toNat ∧ 0 < (medianP95 env durations op).toNat
    else medianP95 env durations op = v := by
  obtain ⟨others, heq, hothers⟩ := h.sorted
  have hlen : (pidP95s env durations op).length = others.length + 1 := by
    rw [← sortedP95s_perm.length_eq, heq, List.length_append, List.length_singleton]
  unfold medianP95
  rw [sortedP95s_perm.length_eq, hlen]
  rw [hlen] at htwo
  split
  next hthree =>
    -- of three or more the middle one is before the last
    have hplace : (others.length + 1) / 2 < others.length := by omega
    have hmem : others[(others.length + 1) / 2] ∈ others := List.getElem_mem hplace
    have hentry : (sortedP95s env durations op).getD ((others.length + 1) / 2) (0, 0) =
        others[(others.length + 1) / 2] := by
      rw [heq, List.getD_append _ _ _ _ hplace, List.getD_eq_getElem _ _ hplace]
    have hgroup : others[(others.length + 1) / 2] ∈ pidP95s env durations op := by
      rw [← sortedP95s_perm.mem_iff, heq]
      exact List.mem_append_left _ hmem
    rw [hentry]
    exact ⟨h.slower _ hgroup (hothers _ hmem), h.pos _ hgroup⟩
  · -- of two the middle one is the last
    have hone : others.length = 1 := by omega
    rw [heq, hone, List.getD_append_right _ _ _ _ (by omega), hone]
    rfl

/-- A single slow rank gets one ratio, and it is above one and a half exactly if the group has three
    or more processes. -/
theorem straggler_ratio_iff (h : OneSlow env durations op p v)
    (htwo : 2 ≤ (pidP95s env durations op).length) :
    ∃ r, (∀ r', (p, op, r') ∈ stragglers env durations ↔ r' = r) ∧
      (3 / 2 < r ↔ 3 ≤ (pidP95s env durations op).length) := by
  have hmedian := h.median htwo
  have hv : 0 < v.toNat := h.pos _ h.mem
  have hpos : 0 < (medianP95 env durations op).toNat := by
    split at hmedian
    · exact hmedian.2
    · rw [hmedian]
      exact hv
  refine ⟨(v.toNat : ℚ) / (medianP95 env durations op).toNat, ?_, ?_⟩
  · intro r
    rw [mem_stragglers_iff]
    constructor
    · rintro ⟨-, -, v', hv', rfl⟩
      rw [(Prod.mk.inj (h.eq_of_pid hv' rfl)).2]
    · rintro rfl
      refine ⟨htwo, ?_, v, h.mem, rfl⟩
      intro hzero
      rw [hzero] at hpos
      exact absurd hpos (by decide)
  · -- the median is that of another rank, or `v` itself
    have hposQ : (0 : ℚ) < (medianP95 env durations op).toNat := by exact_mod_cast hpos
    rw [lt_div_iff₀ hposQ]
    split at hmedian
    next hthree =>
      refine iff_of_true ?_ hthree
      have hlt : (3 : ℚ) * (medianP95 env durations op).toNat < 2 * v.toNat := by
        exact_mod_cast hmedian.1
      linarith
    next hthree =>
      refine iff_of_false ?_ hthree
      rw [hmedian] at hposQ ⊢
      linarith

end OneSlow

/-! ### Two Groups -/

theorem p95_replicate (d : U64) : p95 (List.replicate 10 d) = d := by
  have hsorted : ((List.replicate 10 d).mergeSort fun a b => a.toNat ≤ b.toNat) =
      List.replicate 10 d := List.perm_replicate.mp (List.mergeSort_perm _ _)
  unfold p95
  rw [hsorted]
  simp

/-- Ranks of an all-reduce, each with a window of ten equal durations. -/
def rankWindows : List (U32 × U64) → NcclDurations
  | [] => ∅
  | (pid, d) :: rest => (rankWindows rest).insert (pid, .ncclAllReduce) (List.replicate 10 d)

variable {ranks : List (U32 × U64)}

theorem lookup_rankWindows (hnodup : (ranks.map Prod.fst).Nodup) {x : U32 × U64} (hx : x ∈ ranks) :
    (rankWindows ranks).lookup (x.1, .ncclAllReduce) = some (List.replicate 10 x.2) := by
  induction ranks with
  | nil => cases hx
  | cons y rest ih =>
    obtain ⟨hnew, hrest⟩ := List.nodup_cons.mp hnodup
    rw [rankWindows, FinMap.lookup_insert_eq_ite]
    rcases List.mem_cons.mp hx with rfl | hx
    · rw [if_pos rfl]
    · have hne : x.1 ≠ y.1 := fun heq => hnew (heq ▸ List.mem_map_of_mem hx)
      rw [if_neg fun heq => hne (Prod.mk.inj heq).1]
      exact ih hrest hx

theorem keys_rankWindows (hnodup : (ranks.map Prod.fst).Nodup) :
    (rankWindows ranks).keys = ranks.map fun x => (x.1, .ncclAllReduce) := by
  induction ranks with
  | nil => rfl
  | cons y rest ih =>
    obtain ⟨hnew, hrest⟩ := List.nodup_cons.mp hnodup
    have hfresh : (y.1, EventType.ncclAllReduce) ∉ (rankWindows rest).keys := by
      rw [ih hrest]
      intro hmem
      obtain ⟨x, hx, heq⟩ := List.mem_map.mp hmem
      exact hnew ((Prod.mk.inj heq).1 ▸ List.mem_map_of_mem hx)
    rw [rankWindows, AList.keys,
      AList.entries_insert_of_notMem (fun h => hfresh (AList.mem_keys.mp h)), List.keys_cons]
    exact congrArg _ (ih hrest)

/-- The group of such ranks. -/
theorem pidP95s_rankWindows (ranks : List (U32 × U64)) (hnodup : (ranks.map Prod.fst).Nodup) :
    pidP95s .bare (rankWindows ranks) .ncclAllReduce = ranks := by
  unfold pidP95s
  show (rankWindows ranks).keys.filterMap _ = ranks
  rw [keys_rankWindows hnodup, List.filterMap_map]
  refine Eq.trans (List.filterMap_congr fun x hx => ?_) List.filterMap_some
  simp only [Function.comp_apply, lookup_rankWindows hnodup hx, p95_replicate]
  exact if_pos ⟨trivial, by simp⟩

theorem oneSlow_rankWindows (hnodup : (ranks.map Prod.fst).Nodup) {p : U32} {v : U64}
    (hmem : (p, v) ∈ ranks) (hslower : ∀ x ∈ ranks, x.1 ≠ p → 3 * x.2.toNat < 2 * v.toNat)
    (hpos : ∀ x ∈ ranks, 0 < x.2.toNat) : OneSlow .bare (rankWindows ranks) .ncclAllReduce p v := by
  have hgroup := pidP95s_rankWindows ranks hnodup
  constructor
  · rw [hgroup]
    exact hmem
  · rw [hgroup]
    exact hslower
  · rw [hgroup]
    exact hpos

/-- In a group of two such ranks the slow one is the median. -/
theorem medianP95_rankWindows (hnodup : (ranks.map Prod.fst).Nodup) (htwo : ranks.length = 2)
    {p : U32} {v : U64} (hmem : (p, v) ∈ ranks)
    (hslower : ∀ x ∈ ranks, x.1 ≠ p → 3 * x.2.toNat < 2 * v.toNat)
    (hpos : ∀ x ∈ ranks, 0 < x.2.toNat) :
    medianP95 .bare (rankWindows ranks) .ncclAllReduce = v := by
  have hlen : (pidP95s .bare (rankWindows ranks) .ncclAllReduce).length = 2 := by
    rw [pidP95s_rankWindows ranks hnodup, htwo]
  have hmedian := (oneSlow_rankWindows hnodup hmem hslower hpos).median (by omega)
  rwa [if_neg (by omega)] at hmedian

/-- Three ranks, of which the last is twice as slow as the others. -/
theorem straggler_ratio_threeRanks :
    ∃ r, (∀ r', (3, .ncclAllReduce, r') ∈
      stragglers .bare (rankWindows [(1, 1000), (2, 1000), (3, 2000)]) ↔ r' = r) ∧ 3 / 2 < r := by
  have hgroup := pidP95s_rankWindows [(1, 1000), (2, 1000), (3, 2000)] (by decide)
  have hslow :
      OneSlow .bare (rankWindows [(1, 1000), (2, 1000), (3, 2000)]) .ncclAllReduce 3 2000 :=
    oneSlow_rankWindows (by decide) (by simp) (by simp) (by simp)
  obtain ⟨r, hset, hratio⟩ := straggler_ratio_iff hslow (by rw [hgroup]; decide)
  exact ⟨r, hset, hratio.mpr (by rw [hgroup]; decide)⟩

/-- Two ranks, of which one takes a thousand times as long. -/
theorem stragglers_twoRanks :
    OneSlow .bare (rankWindows [(1, 1000), (2, 1000000)]) .ncclAllReduce 2 1000000 ∧
      (2, .ncclAllReduce, 1) ∈ stragglers .bare (rankWindows [(1, 1000), (2, 1000000)]) := by
  have hgroup := pidP95s_rankWindows [(1, 1000), (2, 1000000)] (by decide)
  have hslow : OneSlow .bare (rankWindows [(1, 1000), (2, 1000000)]) .ncclAllReduce 2 1000000 :=
    oneSlow_rankWindows (by decide) (by simp) (by simp) (by simp)
  refine ⟨hslow, mem_stragglers_iff.mpr ?_⟩
  have hmedian : medianP95 .bare (rankWindows [(1, 1000), (2, 1000000)]) .ncclAllReduce = 1000000 :=
    medianP95_rankWindows (p := 2) (by decide) rfl (by simp) (by simp) (by simp)
  refine ⟨by rw [hgroup]; decide, by rw [hmedian]; decide, 1000000, hslow.mem, ?_⟩
  rw [hmedian]
  exact (div_self (Nat.cast_ne_zero.mpr (by decide))).symm

/-! ## Windows of Drained Calls -/

/-- A row of `NCCL_AGG` when it is drained: its key, and the calls each CPU has added to it. -/
structure NcclDrain where
  key : AggKey
  perCpu : List (List NcclItem)

namespace NcclDrain

/-- The values that are handed out. -/
def row (d : NcclDrain) : List NcclAggValue :=
  d.perCpu.map fun calls => calls.foldl NcclAggValue.add 0

/-- The buckets of the calls in the row. -/
def callBuckets (d : NcclDrain) : List ℕ :=
  d.perCpu.flatten.map fun x => profiNcclBucketIdx x.durationNs

/-- The buckets that have any call in the row, each once. -/
def entryBuckets (d : NcclDrain) : List ℕ :=
  ((List.finRange 12).filter fun i => i.val ∈ d.callBuckets).map Fin.val

end NcclDrain

/-- The window of a process and an operation after a sequence of drains. -/
def windowOf (drains : List NcclDrain) (p : U32) (op : EventType) : List U64 :=
  ((drains.foldl (fun durations d => Record.pushDurations durations (.nccl d.key d.row))
    ∅).lookup (p, op)).getD []

/-- The duration that stands for a bucket. -/
def midpointNs (bucket : ℕ) : U64 := ncclBucketMidpointsNs.getD bucket 0

theorem profiNcclBucketIdx_midpointNs : ∀ i < 12, profiNcclBucketIdx (midpointNs i) = i := by
  decide +kernel

/-! ### One Row -/

theorem bumpBucket_apply {N : ℕ} (cells : Fin N → U32) (idx : ℕ) (i : Fin N) :
    bumpBucket cells idx 1 i = cells i + if idx = i.val then 1 else 0 := by
  unfold bumpBucket
  split
  next hidx =>
    rw [Function.update_apply]
    by_cases heq : idx = i.val
    · subst heq
      simp
    · have hne : i ≠ ⟨idx, hidx⟩ := fun h => heq (congrArg Fin.val h).symm
      simp [heq, hne]
  next hidx =>
    have hne : idx ≠ i.val := fun h => hidx (h ▸ i.isLt)
    simp [hne]

/-- A cell of a CPU's value counts the calls of its bucket. -/
theorem bucketCounts_foldl (calls : List NcclItem) (val : NcclAggValue) (i : Fin 12) :
    (calls.foldl NcclAggValue.add val).bucketCounts i =
      val.bucketCounts i +
        BitVec.ofNat 32 ((calls.map fun x => profiNcclBucketIdx x.durationNs).count i.val) := by
  induction calls generalizing val with
  | nil => simp
  | cons x calls ih =>
    rw [List.foldl_cons, ih, List.map_cons, List.count_cons]
    have hbump : (val.add x).bucketCounts i =
        val.bucketCounts i + if profiNcclBucketIdx x.durationNs = i.val then 1 else 0 :=
      bumpBucket_apply _ _ _
    rw [hbump]
    by_cases heq : profiNcclBucketIdx x.durationNs = i.val
    · simp only [heq, if_pos, beq_self_eq_true]
      rw [BitVec.ofNat_add, BitVec.add_assoc, BitVec.add_comm 1]
      rfl
    · simp [heq]

theorem count_foldl (calls : List NcclItem) (val : NcclAggValue) :
    (calls.foldl NcclAggValue.add val).count = val.count + calls.length := by
  induction calls generalizing val with
  | nil => rfl
  | cons x calls ih =>
    rw [List.foldl_cons, ih, List.length_cons]
    show val.count + 1 + calls.length = _
    omega

namespace NcclDrain

variable (d : NcclDrain)

theorem callBuckets_eq :
    d.callBuckets =
      (d.perCpu.map fun calls => calls.map fun x => profiNcclBucketIdx x.durationNs).flatten :=
  List.map_flatten

theorem sum_count_row : (d.row.map (·.count)).sum = d.callBuckets.length := by
  unfold row callBuckets
  rw [List.length_map, List.length_flatten, List.map_map]
  congr 1
  apply List.map_congr_left
  intro calls _
  rw [Function.comp_apply, count_foldl]
  exact Nat.zero_add _

theorem sumBuckets_row (hfew : d.callBuckets.length < 2 ^ 32) :
    sumBuckets (d.row.map (·.bucketCounts)) =
      List.ofFn fun i : Fin 12 => d.callBuckets.count i.val := by
  unfold sumBuckets row
  congr 1
  funext i
  -- the counts of the CPUs add up to the count over all of them
  rw [callBuckets_eq, List.count_flatten, List.map_map, List.map_map, List.map_map]
  congr 1
  apply List.map_congr_left
  intro calls hcalls
  -- no CPU has more calls than the row
  have hle : (calls.map fun x => profiNcclBucketIdx x.durationNs).count i.val < 2 ^ 32 := by
    refine lt_of_le_of_lt ?_ hfew
    rw [callBuckets_eq]
    refine List.count_le_length.trans ?_
    exact (List.sublist_flatten_of_mem (List.mem_map_of_mem hcalls)).length_le
  simp only [Function.comp_apply]
  rw [bucketCounts_foldl]
  show (0#32 + _).toNat = _
  rw [BitVec.zero_add, BitVec.toNat_ofNat, Nat.mod_eq_of_lt hle]

/-- The values a row adds to the window: a midpoint for each bucket with any call. -/
theorem pushed_row (hfew : d.callBuckets.length < 2 ^ 32) :
    ((ncclBucketMidpointsNs.zip (sumBuckets (d.row.map (·.bucketCounts)))).filter
      fun b => b.2 ≠ 0).map Prod.fst = d.entryBuckets.map midpointNs := by
  have hmid : ncclBucketMidpointsNs = (List.finRange 12).map fun i => midpointNs i.val := by
    decide +kernel
  rw [d.sumBuckets_row hfew, List.ofFn_eq_map, hmid, List.zip_map', List.filter_map, List.map_map]
  unfold entryBuckets
  rw [List.map_map]
  have hkept : ∀ i : Fin 12, decide (d.callBuckets.count i.val ≠ 0) =
      decide (i.val ∈ d.callBuckets) := by
    intro i
    rw [decide_eq_decide, Ne, List.count_eq_zero, not_not]
  exact congrArg (List.map _) (List.filter_congr fun i _ => hkept i)

/-- A bucket with any call has one. -/
theorem length_entryBuckets_le : d.entryBuckets.length ≤ d.callBuckets.length := by
  have hnodup : d.entryBuckets.Nodup :=
    ((List.nodup_finRange 12).filter _).map Fin.val_injective
  have hsub : d.entryBuckets ⊆ d.callBuckets := by
    intro b hb
    obtain ⟨i, hi, rfl⟩ := List.mem_map.mp hb
    exact of_decide_eq_true (List.mem_filter.mp hi).2
  exact (hnodup.subperm hsub).length_le

theorem lt_of_mem_entryBuckets {b : ℕ} (hb : b ∈ d.entryBuckets) : b < 12 := by
  obtain ⟨i, -, rfl⟩ := List.mem_map.mp hb
  exact i.isLt

end NcclDrain

/-! ### The Window -/

/-- As long as there is room, values are appended. -/
theorem foldl_pushBack (values window : List U64)
    (hroom : window.length + values.length ≤ ncclWindowSize) :
    values.foldl pushBack window = window ++ values := by
  induction values generalizing window with
  | nil => simp
  | cons v values ih =>
    rw [List.length_cons] at hroom
    have hpush : pushBack window v = window ++ [v] := by
      unfold pushBack
      rw [if_neg (by omega)]
    rw [List.foldl_cons, hpush, ih _ (by rw [List.length_append, List.length_singleton]; omega),
      List.append_assoc]
    rfl

/-- The calls and the entries of a sequence of drains, by their buckets. -/
def callBuckets (drains : List NcclDrain) : List ℕ := drains.flatMap (·.callBuckets)

def entryBuckets (drains : List NcclDrain) : List ℕ := drains.flatMap (·.entryBuckets)

theorem length_entryBuckets_le (drains : List NcclDrain) :
    (entryBuckets drains).length ≤ (callBuckets drains).length := by
  induction drains with
  | nil => exact le_rfl
  | cons d drains ih =>
    unfold entryBuckets callBuckets at *
    rw [List.flatMap_cons, List.flatMap_cons, List.length_append, List.length_append]
    exact Nat.add_le_add d.length_entryBuckets_le ih

section Window

variable {p : U32} {op : EventType} {drains : List NcclDrain}

/-- One drain of a process and an operation appends its entries to their window. -/
theorem lookup_pushDurations {d : NcclDrain} (hpid : d.key.pid = p) (hop : d.key.eventType = op)
    (durations : NcclDurations)
    (hroom : ((durations.lookup (p, op)).getD []).length + d.callBuckets.length ≤ ncclWindowSize) :
    ((Record.pushDurations durations (.nccl d.key d.row)).lookup (p, op)).getD [] =
      (durations.lookup (p, op)).getD [] ++ d.entryBuckets.map midpointNs := by
  subst hpid hop
  have hentries := d.length_entryBuckets_le
  have hfew : d.callBuckets.length < 2 ^ 32 := by
    unfold ncclWindowSize at hroom
    omega
  unfold Record.pushDurations
  simp only [d.sum_count_row, d.pushed_row hfew]
  split
  next hnone =>
    have hnil : d.entryBuckets = [] := List.eq_nil_of_length_eq_zero (by omega)
    simp [hnil]
  · unfold NcclDurations.push
    rw [AList.lookup_insert, Option.getD_some, foldl_pushBack]
    rw [List.length_map]
    omega

/-- A window that never was full has an entry for each bucket with a call in a drained row. -/
theorem windowOf_eq (hdrains : ∀ d ∈ drains, d.key.pid = p ∧ d.key.eventType = op)
    (hcalls : (callBuckets drains).length ≤ ncclWindowSize) :
    windowOf drains p op = (entryBuckets drains).map midpointNs := by
  suffices hfrom : ∀ durations : NcclDurations,
      ((durations.lookup (p, op)).getD []).length + (callBuckets drains).length ≤ ncclWindowSize →
      ((drains.foldl (fun durations d => Record.pushDurations durations (.nccl d.key d.row))
        durations).lookup (p, op)).getD [] =
          (durations.lookup (p, op)).getD [] ++ (entryBuckets drains).map midpointNs by
    have hempty := hfrom ∅ (by simpa using hcalls)
    simpa [windowOf] using hempty
  clear hcalls
  induction drains with
  | nil =>
    intro durations _
    simp [entryBuckets]
  | cons d drains ih =>
    -- each row adds at most as many entries as it has calls, so the window is never full
    intro durations hroom
    obtain ⟨hpid, hop⟩ := hdrains d List.mem_cons_self
    have hcons : (callBuckets (d :: drains)).length =
        d.callBuckets.length + (callBuckets drains).length := List.length_append
    have hpush := lookup_pushDurations hpid hop durations (by omega)
    have hentries := d.length_entryBuckets_le
    rw [List.foldl_cons, ih (fun x hx => hdrains x (List.mem_cons_of_mem d hx)), hpush,
      List.append_assoc, ← List.map_append]
    · rfl
    · rw [hpush, List.length_append, List.length_map]
      omega

/-- The percentile of a list of buckets, by the index rule of the windows. -/
def p95Bucket (buckets : List ℕ) : ℕ :=
  Quantile.place buckets (min (buckets.length * 95 / 100) (buckets.length - 1)) 0

/-- The bucket of a window's percentile is the percentile of its entries' buckets. -/
theorem profiNcclBucketIdx_p95 (window : List U64) :
    profiNcclBucketIdx (p95 window) = p95Bucket (window.map profiNcclBucketIdx) := by
  have hmono : ∀ a b : U64, a.toNat ≤ b.toNat → profiNcclBucketIdx a ≤ profiNcclBucketIdx b :=
    fun _ _ hab => LatencyHistogram.nccl.profiBucketIdx_mono hab
  unfold p95 p95Bucket Quantile.place
  rw [← KeySort.map_mergeSort hmono, List.length_map]
  dsimp only
  rw [List.length_mergeSort]
  -- an empty window counts as one of zeros on both sides
  exact (List.getD_map _ _ _).symm

theorem map_bucket_entryBuckets (drains : List NcclDrain) :
    ((entryBuckets drains).map midpointNs).map profiNcclBucketIdx = entryBuckets drains := by
  rw [List.map_map]
  refine (List.map_congr_left fun b hb => ?_).trans (List.map_id _)
  obtain ⟨d, -, hd⟩ := List.mem_flatMap.mp hb
  exact profiNcclBucketIdx_midpointNs b (d.lt_of_mem_entryBuckets hd)

/-- The percentile of a window of drained rows is in the bucket of the percentile of the drained
    calls exactly if, for every bucket, the place of the first among the entries is within those up
    to the bucket when the place of the second is within the calls up to it, and only then. -/
theorem p95_bucket_iff (hdrains : ∀ d ∈ drains, d.key.pid = p ∧ d.key.eventType = op)
    (hcalls : (callBuckets drains).length ≤ 100) (hwindow : 10 ≤ (windowOf drains p op).length) :
    profiNcclBucketIdx (p95 (windowOf drains p op)) = p95Bucket (callBuckets drains) ↔
      ∀ b, (entryBuckets drains).length * 95 / 100 < (entryBuckets drains).countP (· ≤ b) ↔
        (callBuckets drains).length * 95 / 100 < (callBuckets drains).countP (· ≤ b) := by
  have hentries := length_entryBuckets_le drains
  rw [windowOf_eq hdrains hcalls, List.length_map] at hwindow
  rw [windowOf_eq hdrains hcalls, profiNcclBucketIdx_p95, map_bucket_entryBuckets]
  unfold p95Bucket
  rw [Nat.min_eq_left (by omega), Nat.min_eq_left (by omega)]
  exact Quantile.place_eq_iff (by omega) (by omega) 0

end Window

/-! ### Two Sequences of Drains -/

/-- A row of all-reduces on one CPU, some of 5 µs and some of 2 s. -/
def reduceDrain (short long : ℕ) : NcclDrain where
  key := ⟨.ncclAllReduce, 1, 0, 0, 0⟩
  perCpu := [List.replicate short ⟨5000, 0⟩ ++ List.replicate long ⟨2000000000, 0⟩]

/-- Ten rows, with a short call and a long one each. -/
theorem p95_bucket_evenDrains :
    profiNcclBucketIdx (p95 (windowOf (List.replicate 10 (reduceDrain 1 1)) 1 .ncclAllReduce)) =
      p95Bucket (callBuckets (List.replicate 10 (reduceDrain 1 1))) := by
  have hdrains : ∀ d ∈ List.replicate 10 (reduceDrain 1 1),
      d.key.pid = 1 ∧ d.key.eventType = .ncclAllReduce := by
    intro d hd
    rw [List.eq_of_mem_replicate hd]
    exact ⟨rfl, rfl⟩
  have hsame : entryBuckets (List.replicate 10 (reduceDrain 1 1)) =
      callBuckets (List.replicate 10 (reduceDrain 1 1)) := by decide +kernel
  have hcalls : (callBuckets (List.replicate 10 (reduceDrain 1 1))).length ≤ 100 := by
    decide +kernel
  have hwindow :
      10 ≤ (windowOf (List.replicate 10 (reduceDrain 1 1)) 1 .ncclAllReduce).length := by
    rw [windowOf_eq hdrains hcalls]
    decide +kernel
  refine (p95_bucket_iff hdrains hcalls hwindow).mpr ?_
  intro b
  rw [hsame]

/-- Six rows with 96 short calls and four long ones, which are in four of the rows. -/
def rareLongCalls : List NcclDrain :=
  List.replicate 4 (reduceDrain 16 1) ++ List.replicate 2 (reduceDrain 16 0)

/-- The percentile of the calls is short, that of the window is long. -/
theorem p95_bucket_rareLongCalls :
    (∀ d ∈ rareLongCalls, d.key.pid = 1 ∧ d.key.eventType = .ncclAllReduce) ∧
      (callBuckets rareLongCalls).length ≤ 100 ∧
      10 ≤ (windowOf rareLongCalls 1 .ncclAllReduce).length ∧
      p95Bucket (callBuckets rareLongCalls) ≤ 0 ∧
      ¬ profiNcclBucketIdx (p95 (windowOf rareLongCalls 1 .ncclAllReduce)) ≤ 0 := by
  have hdrains : ∀ d ∈ rareLongCalls, d.key.pid = 1 ∧ d.key.eventType = .ncclAllReduce := by
    intro d hd
    rcases List.mem_append.mp hd with hd | hd
    · rw [List.eq_of_mem_replicate hd]
      exact ⟨rfl, rfl⟩
    · rw [List.eq_of_mem_replicate hd]
      exact ⟨rfl, rfl⟩
  have hcalls : (callBuckets rareLongCalls).length ≤ 100 := by decide +kernel
  refine ⟨hdrains, hcalls, ?_, ?_, ?_⟩
  · rw [windowOf_eq hdrains hcalls]
    decide +kernel
  · unfold p95Bucket
    rw [Quantile.place_le_iff (by decide +kernel)]
    decide +kernel
  · rw [windowOf_eq hdrains hcalls, profiNcclBucketIdx_p95, map_bucket_entryBuckets]
    unfold p95Bucket
    rw [Quantile.place_le_iff (by decide +kernel)]
    decide +kernel

end Profi
