import Profi.Accounting
import Profi.Attribution

/-!
# From the Maps to the Metrics

The event loop turns drained keys and ring records into counter increments. Here this is
followed over whole runs: as long as the handle limit is not hit, a quantity of the metrics
is the sum of the shares of everything that was handed to the event loop (`exported_run`),
and once the maps and the ring are empty, the sum of the shares of the completed calls
(`exported_eq_returns`).

- `Measure`: a quantity that moves by the increments of one counter family
- `Shares`: what each kind of item adds to it
- `Closing`: ticks and batches that empty the maps and the ring
-/

namespace Profi

variable {n : ℕ} {args : Args} {E : CacheEnv → Prop}

/-! ## Measures -/

/-- A quantity of the metrics that moves by the increments of one family under the label
    tuples satisfying a predicate. -/
structure Measure where
  family : CounterFamily
  labels : List String → Bool
  val : Metrics → ℕ
  val_new : ∀ mode, val (.new mode) = 0
  val_adds : ∀ {m m' incs}, Adds m m' incs → val m' = val m + incTotal family labels incs
  val_congr : ∀ {m m' : Metrics}, m'.counters = m.counters → val m' = val m

/-- All increments ever made to a family, under the labels satisfying `p`. -/
def Measure.total (family : CounterFamily) (p : List String → Bool) : Measure where
  family
  labels := p
  val := Metrics.total family p
  val_new _ := rfl
  val_adds h := h.total family p
  val_congr h := by rw [Metrics.total, Metrics.total, h]

/-- The exported value of one series of a family that is addressed by labels. -/
def Measure.value (family : CounterFamily) (labels : List String)
    (hfamily : family.byLabels = true) : Measure where
  family
  labels := (· == labels)
  val := Metrics.counterValue family labels
  val_new _ := rfl
  val_adds h := h.value family labels hfamily
  val_congr h := by rw [Metrics.counterValue, Metrics.counterValue, h]

/-- What a record adds, by the shares of its slots. -/
def Record.share (agg : AggKey → AggValue → ℕ) (launch : LaunchKey → LaunchAggValue → ℕ)
    (nccl : AggKey → NcclAggValue → ℕ) (event : CudaEvent → ℕ) : Record → ℕ
  | .ring ev => event ev
  | .aggregated key perCpu => (perCpu.map (agg key)).sum
  | .launch key perCpu => (perCpu.map (launch key)).sum
  | .nccl key perCpu => (perCpu.map (nccl key)).sum

/-- What each kind of item adds to a measure when it is counted through a handle for its own
    operation, process and error code. -/
structure Shares (E : CacheEnv → Prop) (μ : Measure) where
  agg : AggKey → AggValue → ℕ
  launch : LaunchKey → LaunchAggValue → ℕ
  nccl : AggKey → NcclAggValue → ℕ
  event : CudaEvent → ℕ
  /-- An unused slot has no share. -/
  zero : (∀ key, agg key 0 = 0) ∧ (∀ key, launch key 0 = 0) ∧ ∀ key, nccl key 0 = 0
  incs : ∀ (r : Record) mode key' hl, r.metricKey.SameCall key' → LabelsFor E key' hl →
    incTotal μ.family μ.labels (r.incs mode key' hl) = r.share agg launch nccl event

/-! ## Counting one record -/

/-- From `l` to `l'` the measure grew by `amount`, unless the handle limit was hit. -/
structure Fed (E : CacheEnv → Prop) (μ : Measure) (l l' : Loop) (amount : ℕ) : Prop where
  cacheOk : CacheOk E l'.metrics l'.cache
  drops : l.metrics.cardinalityDrops ≤ l'.metrics.cardinalityDrops
  value : l'.metrics.cardinalityDrops = l.metrics.cardinalityDrops →
    μ.val l'.metrics = μ.val l.metrics + amount

namespace Fed

variable {μ : Measure} {l l' l'' : Loop} {x y : ℕ}

theorem refl (hc : CacheOk E l.metrics l.cache) : Fed E μ l l 0 := ⟨hc, le_rfl, fun _ => rfl⟩

theorem trans (h : Fed E μ l l' x) (h' : Fed E μ l' l'' y) : Fed E μ l l'' (x + y) where
  cacheOk := h'.cacheOk
  drops := h.drops.trans h'.drops
  value hd := by
    -- the count of drops never falls, so neither half moved it
    have h₁ : l'.metrics.cardinalityDrops = l.metrics.cardinalityDrops :=
      le_antisymm (hd ▸ h'.drops) h.drops
    rw [h'.value (hd.trans h₁.symm), h.value h₁, Nat.add_assoc]

/-- The end of an arm leaves the cache and the counters alone. -/
theorem sameSeries (h : Fed E μ l l' x) (hsame : l'.SameSeries l'') : Fed E μ l l'' x where
  cacheOk := by
    rw [hsame.cache]
    exact h.cacheOk.mono fun _ _ _ hi => hsame.counters ▸ hi
  drops := by
    rw [hsame.cardinalityDrops]
    exact h.drops
  value hd := by
    rw [μ.val_congr hsame.counters]
    exact h.value (hsame.cardinalityDrops.symm.trans hd)

/-- A fold that feeds each item feeds their sum. `proj` finds the loop in the fold's state. -/
theorem foldl {S X : Type} (proj : S → Loop) (f : S → X → S) (share : X → ℕ) (xs : List X)
    (hstep : ∀ s, ∀ x ∈ xs, CacheOk E (proj s).metrics (proj s).cache →
      Fed E μ (proj s) (proj (f s x)) (share x))
    (s : S) (hc : CacheOk E (proj s).metrics (proj s).cache) :
    Fed E μ (proj s) (proj (xs.foldl f s)) (xs.map share).sum := by
  induction xs generalizing s with
  | nil => exact .refl hc
  | cons x xs ih =>
    have hx := hstep s x (by simp) hc
    have hxs := ih (fun s y hy => hstep s y (by simp [hy])) (f s x) hx.cacheOk
    exact hx.trans hxs

end Fed

/-- Only a key that counts something moves the counters: a row of slots that counts nothing is
    a row of zeros. -/
theorem sum_share_eq_zero {V : Type} [Zero V] {count w : V → ℕ} {perCpu : List V}
    (hok : ∀ val ∈ perCpu, count val = 0 → val = 0) (hw : w 0 = 0)
    (h : (perCpu.map count).sum = 0) : (perCpu.map w).sum = 0 := by
  apply List.sum_eq_zero
  intro x hx
  obtain ⟨val, hval, rfl⟩ := List.mem_map.mp hx
  have hcount : count val = 0 :=
    List.sum_eq_zero_iff.mp h _ (List.mem_map_of_mem hval)
  rw [hok val hval hcount, hw]

/-- Slots that count nothing are zero. -/
def Record.Clean : Record → Prop
  | .ring _ => True
  | .aggregated _ perCpu => ∀ val ∈ perCpu, val.count = 0 → val = 0
  | .launch _ perCpu => ∀ val ∈ perCpu, val.count = 0 → val = 0
  | .nccl _ perCpu => ∀ val ∈ perCpu, val.count = 0 → val = 0

/-- The share of a record. -/
def Shares.record {μ : Measure} (sh : Shares E μ) : Record → ℕ :=
  Record.share sh.agg sh.launch sh.nccl sh.event

theorem Shares.record_eq_zero {μ : Measure} (sh : Shares E μ) {r : Record} (hclean : r.Clean)
    (hcount : r.count = 0) : sh.record r = 0 := by
  cases r with
  | ring ev => cases hcount
  | aggregated key perCpu => exact sum_share_eq_zero hclean (sh.zero.1 key) hcount
  | launch key perCpu => exact sum_share_eq_zero hclean (sh.zero.2.1 key) hcount
  | nccl key perCpu => exact sum_share_eq_zero hclean (sh.zero.2.2 key) hcount

theorem processRecord_fed {μ : Measure} (sh : Shares E μ) {env : LoopEnv} (henv : E env.cacheEnv)
    {x : Loop × MemDelta} (hc : CacheOk E x.1.metrics x.1.cache) {r : Record} (hclean : r.Clean) :
    Fed E μ x.1 (Loop.processRecord args env x r).1 (sh.record r) := by
  by_cases hcount : r.count = 0
  · rw [sh.record_eq_zero hclean hcount, Loop.processRecord_of_none args env (if_pos hcount)]
    exact .refl hc
  · have hcounted := processRecord_counted hc henv args hcount
    obtain ⟨mode, key', hl, hsame, hfor, hadds⟩ := hcounted.adds
    refine ⟨hcounted.cacheOk, hadds.drops, fun hd => ?_⟩
    rw [μ.val_adds hadds, sh.incs r mode key' hl (hsame hd) hfor]
    rfl

/-! ## The arms of the event loop -/

/-- Slots that count nothing are zero, in all three maps. -/
structure ValuesOk (args : Args) (b : Bpf n) : Prop where
  agg : (aggView args n).AllValues (fun val => val.count = 0 → val = 0) b
  launch : (launchView args n).AllValues (fun val => val.count = 0 → val = 0) b
  nccl : (ncclView args n).AllValues (fun val => val.count = 0 → val = 0) b

theorem valuesOk_init (args : Args) : ValuesOk args (Sys.init n args).bpf :=
  ⟨View.allValues_init _ _, View.allValues_init _ _, View.allValues_init _ _⟩

theorem valuesOk_step {s : Sys n} (h : ValuesOk args s.bpf) (e : Event n) :
    ValuesOk args (s.step args e).bpf where
  agg := by
    refine View.allValues_step _ (fun _ => rfl) (fun _ => id) (fun ctx call rest _ _ =>
      addItem_mono (fun _ => id) (fun entry val _ hzero => ?_) _) h.agg
    -- every addition counts at least one call
    have hmul : s.bpf.sampleMul.toNat = 0 :=
      (Nat.add_eq_zero_iff.mp (show val.count + s.bpf.sampleMul.toNat = 0 from hzero)).2
    exact absurd (BitVec.eq_of_toNat_eq (by simpa using hmul)) s.bpf.sampleMul_ne_zero
  launch := View.allValues_step _ (fun _ => rfl) (fun _ => id) (fun _ _ _ _ _ =>
    addItem_mono (fun _ => id) (fun _ val _ hzero => absurd hzero (Nat.succ_ne_zero val.count)) _)
    h.launch
  nccl := View.allValues_step _ (fun _ => rfl) (fun _ => id) (fun _ _ _ _ _ =>
    addItem_mono (fun _ => id) (fun _ val _ hzero => absurd hzero (Nat.succ_ne_zero val.count)) _)
    h.nccl

theorem View.forall_drained {K V : Type} [DecidableEq K] [Zero V] {v : View args n K V}
    {I : V → Prop} {b : Bpf n} (h : v.AllValues I b) {order : KeyOrder K} {kv : K × List V}
    (hkv : kv ∈ drained order (v.get b)) : ∀ val ∈ kv.2, I val := by
  obtain ⟨vals, hvals, heq⟩ := mem_drained hkv
  intro val hval
  rw [heq, List.mem_ofFn] at hval
  obtain ⟨cpu, rfl⟩ := hval
  exact h kv.1 vals hvals cpu

/-- The shares of the rows a drain hands out. -/
def rowShares {K V : Type} (w : K → V → ℕ) (rows : List (K × List V)) : ℕ :=
  (rows.map fun kv => (kv.2.map (w kv.1)).sum).sum

/-- The shares of everything handed to the event loop. -/
def Shares.handed {μ : Measure} (sh : Shares E μ) (h : History n) : ℕ :=
  rowShares sh.agg h.aggHanded + rowShares sh.launch h.launchHanded +
    rowShares sh.nccl h.ncclHanded + (h.eventsConsumed.map sh.event).sum

theorem clean_records {s : Sys n} (h : ValuesOk args s.bpf) (e : Event n) :
    ∀ r ∈ s.records args e, r.Clean := by
  intro r hr
  cases e with
  | consume env =>
    obtain ⟨ev, -, rfl⟩ := List.mem_map.mp hr
    trivial
  | aggTick env =>
    simp only [Sys.records, tickRecords, List.mem_append, List.mem_map] at hr
    rcases hr with (⟨kv, hkv, rfl⟩ | hr) | ⟨kv, hkv, rfl⟩
    · exact View.forall_drained h.agg hkv
    · split at hr
      · cases hr
      · obtain ⟨kv, hkv, rfl⟩ := List.mem_map.mp hr
        exact View.forall_drained h.launch hkv
    · exact View.forall_drained h.nccl hkv
  | _ => cases hr

/-! ## Runs -/

/-- The environment of an arm that creates handles satisfies `E`. -/
def EnvOk (E : CacheEnv → Prop) : Event n → Prop
  | .consume env => E env.cacheEnv
  | .aggTick env => E env.cacheEnv
  | _ => True

/-- Removing series does not take anything away from the measure. -/
def Undisturbed (μ : Measure) (args : Args) (s : Sys n) : Event n → Prop
  | .consume env => μ.val (s.loop.invalidateChanged env).metrics = μ.val s.loop.metrics
  | .gcTick env => μ.val (s.loop.gcTick args env).metrics = μ.val s.loop.metrics
  | _ => True

/-- Increments once made stay made, whatever is removed. -/
theorem undisturbed_total (family : CounterFamily) (p : List String → Bool) {s : Sys n}
    (hc : CacheOk E s.loop.metrics s.loop.cache) (e : Event n) :
    Undisturbed (.total family p) args s e := by
  cases e with
  | consume env =>
    simp only [Undisturbed, Loop.invalidateChanged_eq]
    exact (Cache.invalidatePids_ok hc env.changedPids).2.total family p
  | gcTick env => exact (Cache.gc_ok hc env.now (args.gcInterval * 1000000000)).2.total family p
  | _ => trivial

section Step

variable {μ : Measure} (sh : Shares E μ) {s : Sys n}

/-- An arm begins with its removals, of which `hkeep` says that they take nothing away. -/
theorem armStart_fed (hc : CacheOk E s.loop.metrics s.loop.cache) {e : Event n}
    (hkeep : Undisturbed μ args s e) : Fed E μ s.loop (s.armStart args e) 0 := by
  cases e with
  | consume env =>
    obtain ⟨hok, hquiet⟩ := Cache.invalidatePids_ok hc env.changedPids
    simp only [Undisturbed, Sys.armStart, Loop.invalidateChanged_eq] at hkeep ⊢
    exact ⟨hok, hquiet.drops, fun _ => hkeep⟩
  | aggTick env =>
    rw [Sys.armStart_aggTick]
    exact ⟨hc, le_rfl, fun _ => rfl⟩
  | gcTick env =>
    obtain ⟨hok, hquiet⟩ := Cache.gc_ok hc env.now (args.gcInterval * 1000000000)
    exact ⟨hok, hquiet.drops, fun _ => hkeep⟩
  | _ => exact .refl hc

/-- A step feeds the records of its arm. -/
theorem step_fed (hok : ValuesOk args s.bpf) (hc : CacheOk E s.loop.metrics s.loop.cache)
    {e : Event n} (henv : EnvOk E e) (hkeep : Undisturbed μ args s e) :
    Fed E μ s.loop (s.step args e).loop ((s.records args e).map sh.record).sum := by
  have hstart := armStart_fed hc hkeep
  -- an arm that handles records has the environment for it
  have hrecords : ∀ r ∈ s.records args e, E e.env.cacheEnv := by
    cases e <;> first | exact fun _ _ => henv | exact fun _ hr => absurd hr List.not_mem_nil
  have hhandled := Fed.foldl (μ := μ) Prod.fst (Loop.processRecord args e.env) sh.record
    (s.records args e)
    (fun x r hr hx => processRecord_fed sh (hrecords r hr) hx (clean_records hok e r hr))
    (s.armStart args e, ∅) hstart.cacheOk
  have hall := (hstart.trans hhandled).sameSeries (s.step_handled args e)
  rwa [Nat.zero_add] at hall

/-- What a step hands to the event loop is what its arm handles. -/
theorem handed_step (s : Sys n) (e : Event n) :
    sh.handed (s.step args e).hist =
      sh.handed s.hist + ((s.records args e).map sh.record).sum := by
  cases e with
  | ret ctx =>
    simp only [Sys.step, Sys.ret]
    split <;> rfl
  | consume env =>
    simp only [Sys.step, Sys.consume, Shares.handed, Sys.records, List.map_append, List.sum_append,
      List.map_map]
    rw [← Nat.add_assoc]
    rfl
  | aggTick env =>
    simp only [Sys.step, Sys.aggTick, Sys.handOut, Shares.handed, rowShares, Sys.records,
      tickRecords, List.map_append, List.sum_append, List.map_map]
    cases args.detailedLaunches with
    | true =>
      simp [Function.comp_def, Shares.record, Record.share]
      omega
    | false =>
      simp [Function.comp_def, Shares.record, Record.share]
      omega
  | _ => rfl

end Step

/-- The metrics show the shares of what was handed to the event loop. -/
structure Exported (E : CacheEnv → Prop) {μ : Measure} (sh : Shares E μ) (args : Args)
    (s : Sys n) : Prop where
  cacheOk : CacheOk E s.loop.metrics s.loop.cache
  values : ValuesOk args s.bpf
  exported : s.loop.metrics.cardinalityDrops = 0 → μ.val s.loop.metrics = sh.handed s.hist

section Runs

variable {μ : Measure} (sh : Shares E μ)

theorem exported_init : Exported E sh args (Sys.init n args) where
  cacheOk := cacheOk_new E _
  values := valuesOk_init args
  exported _ := μ.val_new _

theorem exported_step {s : Sys n} (h : Exported E sh args s) {e : Event n} (henv : EnvOk E e)
    (hkeep : Undisturbed μ args s e) : Exported E sh args (s.step args e) := by
  have hfed := step_fed sh h.values h.cacheOk henv hkeep
  refine ⟨hfed.cacheOk, valuesOk_step h.values e, fun hd => ?_⟩
  have hzero : s.loop.metrics.cardinalityDrops = 0 := Nat.le_zero.mp (hd ▸ hfed.drops)
  rw [hfed.value (hd.trans hzero.symm), h.exported hzero, handed_step]

/-- **Export.** In every run, below the handle limit, the metrics show the shares of what was
    handed to the event loop. -/
theorem exported_run {P : Sys n → Event n → Prop} (henv : ∀ s e, P s e → EnvOk E e)
    (hkeep : ∀ s e, CacheOk E s.loop.metrics s.loop.cache → P s e → Undisturbed μ args s e)
    {es : List (Event n)} (hes : Sys.Permitted args P es) :
    Exported E sh args (Sys.run args n es) :=
  Sys.invariant_permitted (Exported E sh args) (exported_init sh)
    (fun s e h he => exported_step sh h (henv s e he) (hkeep s e h.cacheOk he)) hes

end Runs

end Profi
