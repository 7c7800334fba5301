import Profi.Export

/-!
# After the Last Drain

When the calls are over, a few more ticks and ring batches empty the maps and the ring: each
drain takes up to `PERCPU_HASH_DRAIN_KEY_BUDGET` keys, each batch up to
`RINGBUF_CONSUME_BUDGET` records. What was handed to the event loop is then all that the
returns recorded, and the exported quantities are sums over the completed calls
(`exported_eq_returns`).

With detailed tracing `LAUNCH_AGG` is not drained; its shares are not exported.
-/

namespace Profi

variable {n : ℕ} {args : Args} {E : CacheEnv → Prop}

/-! ## The ring -/

/-- What was consumed and what is still in the ring are the ring records of the returns. -/
def RingHolds (args : Args) (s : Sys n) : Prop :=
  s.hist.eventsConsumed ++ s.bpf.events.records = s.hist.returns.filterMap (·.ringEvent args)

variable {s : Sys n} {es : List (Event n)} {e : Event n} {fs : List (Event n)} {μ : Measure}

theorem ringHolds_step (hcfg : Sys.ConfigOk args s.bpf) (h : RingHolds args s)
    (hroom : RingRoom args s e) : RingHolds args (s.step args e) := by
  unfold RingHolds at h ⊢
  have hsame := s.buffersSame args e
  cases e with
  | ret ctx =>
    simp only [Sys.step]
    cases hs : s.stack ctx.pidTgid with
    | nil =>
      rw [Sys.ret_nil hs]
      exact h
    -- the one step that writes the ring: the record it appends is the return it logs
    | cons call rest =>
      rw [Sys.ret_cons hs]
      rw [exit_events hcfg (hroom call rest hs).1, ← List.append_assoc, h]
      cases hr : (s.completed ctx call rest).ringEvent args <;> simp [hr]
  | consume env =>
    simp only [Sys.step]
    rw [Sys.consume_bpf]
    -- records move from the ring to the handed list without changing their order
    simp only [Sys.consume, List.append_assoc, List.take_append_drop]
    exact h
  | aggTick env =>
    simp only [Sys.step]
    rw [Sys.aggTick_bpf]
    exact h
  | _ =>
    rw [(hsame rfl).events, (hsame rfl).eventsConsumed, (hsame rfl).returns]
    exact h

theorem ringHolds_run {P : Sys n → Event n → Prop} (hP : ∀ s e, P s e → RingRoom args s e)
    (hes : Sys.Permitted args P es) : RingHolds args (Sys.run args n es) := by
  suffices hinv : Sys.ConfigOk args (Sys.run args n es).bpf ∧ RingHolds args (Sys.run args n es)
    from hinv.2
  refine Sys.invariant_permitted (fun s => Sys.ConfigOk args s.bpf ∧ RingHolds args s)
    ⟨Sys.configOk_init args, rfl⟩ ?_ hes
  rintro s e ⟨hcfg, h⟩ he
  exact ⟨Sys.configOk_step hcfg e, ringHolds_step hcfg h (hP s e he)⟩

/-- With detailed tracing no launch is ever handed out of `LAUNCH_AGG`. -/
theorem launchHanded_of_detailed (hd : args.detailedLaunches = true) (es : List (Event n)) :
    (Sys.run args n es).hist.launchHanded = [] := by
  refine Sys.invariant_run (fun s => s.hist.launchHanded = []) rfl ?_ es
  intro s e h
  rcases Sys.step_cases args s e with ⟨p, ctx, -, hstep⟩ | ⟨ctx, call, rest, -, -, hstep⟩ |
    ⟨ev, -, hstep⟩ | hbg
  · rw [hstep]
    exact h
  · rw [hstep]
    exact h
  · rw [hstep]
    exact h
  · rcases Sys.background_cases hbg with ⟨env, rfl⟩ | hsame
    · simp [Sys.step, Sys.aggTick, Sys.handOut, hd, h]
    · rw [hsame.launchHanded, h]

/-! ## Emptying the maps and the ring -/

def Event.isAggTick : Event n → Bool
  | .aggTick _ => true
  | _ => false

def Event.isConsume : Event n → Bool
  | .consume _ => true
  | _ => false

/-- Ticks and batches, enough of them for what the maps and the ring hold. -/
structure Closing (args : Args) (s : Sys n) (fs : List (Event n)) : Prop where
  arms : ∀ e ∈ fs, e.isAggTick = true ∨ e.isConsume = true
  aggregated : s.bpf.aggregated.slots.size ≤ percpuHashDrainKeyBudget * fs.countP Event.isAggTick
  launchAgg : args.detailedLaunches = false →
    s.bpf.launchAgg.slots.size ≤ percpuHashDrainKeyBudget * fs.countP Event.isAggTick
  ncclAgg : s.bpf.ncclAgg.slots.size ≤ percpuHashDrainKeyBudget * fs.countP Event.isAggTick
  events : s.bpf.events.records.length ≤ ringbufConsumeBudget * fs.countP Event.isConsume

/-- The maps that are drained and the ring are empty. -/
structure Settled (args : Args) (s : Sys n) : Prop where
  aggregated : s.bpf.aggregated.slots.size = 0
  launchAgg : args.detailedLaunches = false → s.bpf.launchAgg.slots.size = 0
  ncclAgg : s.bpf.ncclAgg.slots.size = 0
  events : s.bpf.events.records = []

/-- A quantity that falls by `budget` with each `hit` and is left alone by the other arms. -/
theorem countdown (args : Args) {q : Sys n → ℕ} {budget : ℕ} {hit : Event n → Bool}
    (hstep : ∀ s e, e.isAggTick = true ∨ e.isConsume = true →
      q (s.step args e) = if hit e then q s - budget else q s)
    (harms : ∀ e ∈ fs, e.isAggTick = true ∨ e.isConsume = true) (s : Sys n) :
    q (Runs.run (Sys.step args) s fs) = q s - budget * fs.countP hit := by
  induction fs generalizing s with
  | nil => simp
  | cons e fs ih =>
    have hfs := ih (fun e' he' => harms e' (by simp [he'])) (s.step args e)
    rw [Runs.run_cons, hfs, hstep s e (harms e (by simp)), List.countP_cons]
    cases hit e with
    | true =>
      simp only [↓reduceIte, Nat.mul_add, Nat.mul_one]
      omega
    | false => simp

/-- A map that ticks drain and batches leave alone is empty after enough ticks. -/
theorem size_map_closing {K V : Type} [DecidableEq K] (get : Bpf n → PerCpuMap n K V)
    (order : LoopEnv → KeyOrder K)
    (htick : ∀ (s : Sys n) env, get (s.aggTick args env).bpf = undrained (order env) (get s.bpf))
    (hconsume : ∀ (s : Sys n) env, get (s.consume args env).bpf = get s.bpf)
    (harms : ∀ e ∈ fs, e.isAggTick = true ∨ e.isConsume = true)
    (hle : (get s.bpf).slots.size ≤ percpuHashDrainKeyBudget * fs.countP Event.isAggTick) :
    (get (Runs.run (Sys.step args) s fs).bpf).slots.size = 0 := by
  have hstep : ∀ (s : Sys n) e, e.isAggTick = true ∨ e.isConsume = true →
      (get (s.step args e).bpf).slots.size =
        if e.isAggTick then (get s.bpf).slots.size - percpuHashDrainKeyBudget
        else (get s.bpf).slots.size := by
    intro s e he
    cases e with
    | aggTick env =>
      simp only [Sys.step, Event.isAggTick, ↓reduceIte]
      rw [htick, size_undrained]
    | consume env =>
      simp only [Sys.step]
      rw [hconsume]
      rfl
    | _ => rcases he with he | he <;> cases he
  have hq := countdown args (q := fun s => (get s.bpf).slots.size) hstep harms s
  omega

theorem length_events_step (s : Sys n) (e : Event n)
    (he : e.isAggTick = true ∨ e.isConsume = true) :
    (s.step args e).bpf.events.records.length =
      if e.isConsume then s.bpf.events.records.length - ringbufConsumeBudget
      else s.bpf.events.records.length := by
  cases e with
  | aggTick env =>
    simp only [Sys.step]
    rw [Sys.aggTick_bpf]
    rfl
  | consume env =>
    simp only [Sys.step]
    rw [Sys.consume_bpf]
    simp [Event.isConsume]
  | _ => rcases he with he | he <;> cases he

/-- After closing, everything has been handed to the event loop. -/
theorem Closing.settled (h : Closing args s fs) : Settled args (Runs.run (Sys.step args) s fs) where
  aggregated :=
    size_map_closing (fun b => b.aggregated) LoopEnv.aggOrder
      (fun s env => by rw [Sys.aggTick_bpf]) (fun s env => by rw [Sys.consume_bpf]) h.arms
      h.aggregated
  launchAgg hd :=
    size_map_closing (fun b => b.launchAgg) LoopEnv.launchOrder
      (fun s env => by rw [Sys.aggTick_bpf]; simp [hd]) (fun s env => by rw [Sys.consume_bpf])
      h.arms (h.launchAgg hd)
  ncclAgg :=
    size_map_closing (fun b => b.ncclAgg) LoopEnv.ncclOrder
      (fun s env => by rw [Sys.aggTick_bpf]) (fun s env => by rw [Sys.consume_bpf]) h.arms
      h.ncclAgg
  events := by
    have hq := countdown args (q := fun s => s.bpf.events.records.length) length_events_step
      h.arms s
    have hle := h.events
    apply List.eq_nil_of_length_eq_zero
    omega

theorem Closing.settled_run {es fs : List (Event n)} (h : Closing args (Sys.run args n es) fs) :
    Settled args (Sys.run args n (es ++ fs)) := by
  unfold Sys.run
  rw [Runs.run_append]
  exact h.settled

/-- An empty map stores nothing. -/
theorem View.storedSum_eq_zero {K V W : Type} [DecidableEq K] [Zero V] [AddCommMonoid W]
    (v : View args n K V) (w : K → V → W) {b : Bpf n} (h : (v.get b).slots.size = 0) :
    v.storedSum w b = 0 := by
  have hempty : (v.get b).slots = ∅ :=
    FinMap.eq_empty_of_keys_eq_nil (List.eq_nil_of_length_eq_zero h)
  unfold View.storedSum PerCpuMap.sum
  rw [hempty]
  rfl

/-! ## Sums over the completed calls -/

section Share

variable {K V : Type} [DecidableEq K] [Zero V] (v : View args n K V) (w : K → V → ℕ)

/-- The weight of what a return added to the map. -/
def View.share (r : Completed n) : ℕ :=
  match v.key r with
  | none => 0
  | some k => w k (v.add r 0)

theorem View.share_of_none {r : Completed n} (h : v.key r = none) : v.share w r = 0 := by
  simp [View.share, h]

/-- When the map is empty, everything the returns added was handed out. -/
theorem View.handedSum_eq_returns (hzero : ∀ k, w k 0 = 0) {es : List (Event n)}
    (hes : Sys.Permitted args (v.Absorbs w (v.share w)) es)
    (hempty : (v.get (Sys.run args n es).bpf).slots.size = 0) :
    v.handedSum w (Sys.run args n es).hist =
      ((Sys.run args n es).hist.returns.map (v.share w)).sum := by
  have h := v.conserved w (v.share w) hzero (fun r => v.share_of_none w) hes
  rwa [v.storedSum_eq_zero w hempty, add_zero] at h

end Share

/-- Room is enough when the weight is additive. -/
theorem View.absorbs_share_of_room {K V : Type} [DecidableEq K] [Zero V] {v : View args n K V}
    {w : K → V → ℕ}
    (hadd : ∀ r k, v.key r = some k → ∀ val, w k (v.add r val) = w k val + w k (v.add r 0))
    (h : v.Room s e) : v.Absorbs w (v.share w) s e := by
  refine v.absorbs_of_room ?_ h
  intro r k hk val
  rw [hadd r k hk val]
  simp [View.share, hk]

/-- The returns of the run find room and their items weigh in full, in all three maps. -/
structure Absorbed {μ : Measure} (sh : Shares E μ) (args : Args) (s : Sys n) (e : Event n) :
    Prop where
  agg : (aggView args n).Absorbs sh.agg ((aggView args n).share sh.agg) s e
  launch : (launchView args n).Absorbs sh.launch ((launchView args n).share sh.launch) s e
  nccl : (ncclView args n).Absorbs sh.nccl ((ncclView args n).share sh.nccl) s e
  rings : RingRoom args s e

/-- What one completed call contributes to a measure. -/
def Shares.ofReturn (sh : Shares E μ) (args : Args) (r : Completed n) : ℕ :=
  (aggView args n).share sh.agg r +
    (if args.detailedLaunches then 0 else (launchView args n).share sh.launch r) +
    (ncclView args n).share sh.nccl r + ((r.ringEvent args).map sh.event).getD 0

section OfReturn

variable {μ : Measure} (sh : Shares E μ) {r : Completed n}

/-- A call that recorded nothing contributes nothing. -/
theorem Shares.ofReturn_of_none (h : r.recorded = none) : sh.ofReturn args r = 0 := by
  simp [Shares.ofReturn, View.share, aggView, launchView, ncclView, Completed.aggEntry,
    Completed.launchEntry, Completed.ncclEntry, Completed.ringEvent, h]

variable {entry : EntryData} (h : r.recorded = some entry)

include h

theorem share_aggView (w : AggKey → AggValue → ℕ) :
    (aggView args n).share w r =
      if profiIsAggregatable entry.eventType then
        w (r.aggKey entry) (AggValue.add 0 (r.aggItem entry)) else 0 := by
  simp only [View.share, aggView, Completed.aggEntry, h, Option.filter_some]
  cases profiIsAggregatable entry.eventType <;> rfl

theorem share_launchView (w : LaunchKey → LaunchAggValue → ℕ) :
    (launchView args n).share w r =
      if entry.eventType = .cudaLaunchKernel then
        w (r.launchKey entry) (LaunchAggValue.add 0 (r.launchItem entry)) else 0 := by
  simp only [View.share, launchView, Completed.launchEntry, h, Option.filter_some]
  by_cases hl : entry.eventType = .cudaLaunchKernel
  · simp only [hl, decide_true, ↓reduceIte]
    rfl
  · simp only [hl, decide_false, Bool.false_eq_true, ↓reduceIte]
    rfl

theorem share_ncclView (w : AggKey → NcclAggValue → ℕ) :
    (ncclView args n).share w r =
      if profiIsNcclEvent entry.eventType then
        w (r.ncclKey entry) (NcclAggValue.add 0 (r.ncclItem entry)) else 0 := by
  simp only [View.share, ncclView, Completed.ncclEntry, h, Option.filter_some]
  cases profiIsNcclEvent entry.eventType <;> rfl

/-- The contribution of a recorded call, by the place its record went to. -/
theorem Shares.ofReturn_of_some :
    sh.ofReturn args r =
      (if profiIsAggregatable entry.eventType then
        sh.agg (r.aggKey entry) (AggValue.add 0 (r.aggItem entry)) else 0) +
      (if args.detailedLaunches then 0
        else if entry.eventType = .cudaLaunchKernel then
          sh.launch (r.launchKey entry) (LaunchAggValue.add 0 (r.launchItem entry)) else 0) +
      (if profiIsNcclEvent entry.eventType then
        sh.nccl (r.ncclKey entry) (NcclAggValue.add 0 (r.ncclItem entry)) else 0) +
      (if r.toRing args entry then sh.event (r.event entry) else 0) := by
  unfold Shares.ofReturn
  rw [share_aggView h, share_launchView h, share_ncclView h]
  congr 1
  simp only [Completed.ringEvent, h, Option.filter_some]
  cases r.toRing args entry <;> rfl

end OfReturn

theorem Completed.count_aggItem {r : Completed n} (hmul : r.sampleMul = 1) (entry : EntryData) :
    (AggValue.add 0 (r.aggItem entry)).count = 1 := by
  have hcount : (AggValue.add 0 (r.aggItem entry)).count = 0 + r.sampleMul.toNat := rfl
  rw [hcount, hmul]
  rfl

theorem sum_filterMap_share {α β : Type} (f : α → Option β) (g : β → ℕ) (xs : List α) :
    ((xs.filterMap f).map g).sum = (xs.map fun x => ((f x).map g).getD 0).sum := by
  induction xs with
  | nil => rfl
  | cons x xs ih => cases hx : f x <;> simp [hx, ih]

theorem sum_map_ite_one {α : Type} (p : α → Bool) (xs : List α) :
    (xs.map fun x => if p x = true then 1 else 0).sum = xs.countP p := by
  induction xs with
  | nil => rfl
  | cons x xs ih =>
    rw [List.map_cons, List.sum_cons, ih, List.countP_cons, Nat.add_comm]

section Exported

variable (sh : Shares E μ) {P : Sys n → Event n → Prop} (henv : ∀ s e, P s e → EnvOk E e)
  (hkeep : ∀ s e, CacheOk E s.loop.metrics s.loop.cache → P s e → Undisturbed μ args s e)
  (habs : ∀ s e, P s e → Absorbed sh args s e) {es : List (Event n)}
  (hes : Sys.Permitted args P es) (hsettled : Settled args (Sys.run args n es))
  (hdrops : (Sys.run args n es).loop.metrics.cardinalityDrops = 0)

include henv hkeep habs hes hsettled hdrops

/-- **Export to the end.** After the last drain, below the handle limit, a measure is the sum
    of the contributions of the completed calls. -/
theorem exported_eq_returns :
    μ.val (Sys.run args n es).loop.metrics =
      ((Sys.run args n es).hist.returns.map (sh.ofReturn args)).sum := by
  have hexported := (exported_run sh henv hkeep hes).exported hdrops
  have hagg := (aggView args n).handedSum_eq_returns sh.agg sh.zero.1
    (hes.mono fun s e h => (habs s e h).agg) hsettled.aggregated
  have hnccl := (ncclView args n).handedSum_eq_returns sh.nccl sh.zero.2.2
    (hes.mono fun s e h => (habs s e h).nccl) hsettled.ncclAgg
  have hlaunch : rowShares sh.launch (Sys.run args n es).hist.launchHanded =
      ((Sys.run args n es).hist.returns.map fun r =>
        if args.detailedLaunches then 0 else (launchView args n).share sh.launch r).sum := by
    cases hd : args.detailedLaunches with
    | true => simp [launchHanded_of_detailed hd, rowShares]
    | false =>
      exact (launchView args n).handedSum_eq_returns sh.launch sh.zero.2.1
        (hes.mono fun s e h => (habs s e h).launch) (hsettled.launchAgg hd)
  -- the ring is empty at the end, so the handed events are those of all returns
  have hring := ringHolds_run (fun s e h => (habs s e h).rings) hes
  unfold RingHolds at hring
  rw [hsettled.events, List.append_nil] at hring
  have hevents := sum_filterMap_share (fun r : Completed n => r.ringEvent args) sh.event
    (Sys.run args n es).hist.returns
  rw [← hring] at hevents
  rw [hexported]
  unfold Shares.handed
  rw [show rowShares sh.agg (Sys.run args n es).hist.aggHanded = _ from hagg,
    show rowShares sh.nccl (Sys.run args n es).hist.ncclHanded = _ from hnccl, hlaunch, hevents,
    ← List.sum_map_add, ← List.sum_map_add, ← List.sum_map_add]
  rfl

/-- Where a call contributes once or not at all, the measure counts the calls that contribute. -/
theorem exported_eq_countP {p : Completed n → Bool}
    (hof : ∀ r ∈ (Sys.run args n es).hist.returns,
      sh.ofReturn args r = if p r = true then 1 else 0) :
    μ.val (Sys.run args n es).loop.metrics = (Sys.run args n es).hist.returns.countP p := by
  rw [exported_eq_returns sh henv hkeep habs hes hsettled hdrops, List.map_congr_left hof,
    sum_map_ite_one]

end Exported

/-! ## Orderly runs -/

/-- No thread nests probed calls, no entry in flight is evicted, and everything recorded finds
    room. -/
structure Orderly (args : Args) (s : Sys n) (e : Event n) : Prop where
  nonNested : Sys.NonNested s e
  keepsInflight : Sys.KeepsInflight s e
  aggregated : (aggView args n).Room s e
  launch : (launchView args n).Room s e
  nccl : (ncclView args n).Room s e
  rings : RingRoom args s e

/-- For shares that only count calls, room is all it takes. -/
theorem Orderly.absorbed {sh : Shares E μ}
    (hagg : ∀ key, ∃ m, ∀ val : AggValue, sh.agg key val = m * val.count)
    (hlaunch : ∀ key, ∃ m, ∀ val : LaunchAggValue, sh.launch key val = m * val.count)
    (hnccl : ∀ key, ∃ m, ∀ val : NcclAggValue, sh.nccl key val = m * val.count) {s : Sys n}
    {e : Event n} (h : Orderly args s e) : Absorbed sh args s e where
  agg := by
    -- a count grows by what the item counts for, and so does its multiple
    refine View.absorbs_share_of_room ?_ h.aggregated
    intro r k hk val
    obtain ⟨entry, hentry, -⟩ := Option.map_eq_some_iff.mp hk
    obtain ⟨m, hm⟩ := hagg k
    have hzero : (0 : AggValue).count = 0 := rfl
    simp [aggView, hentry, addItem, hm, AggValue.add, Nat.mul_add, hzero]
  launch := by
    refine View.absorbs_share_of_room ?_ h.launch
    intro r k hk val
    obtain ⟨entry, hentry, -⟩ := Option.map_eq_some_iff.mp hk
    obtain ⟨m, hm⟩ := hlaunch k
    have hzero : (0 : LaunchAggValue).count = 0 := rfl
    simp [launchView, hentry, addItem, hm, LaunchAggValue.add, Nat.mul_add, hzero]
  nccl := by
    refine View.absorbs_share_of_room ?_ h.nccl
    intro r k hk val
    obtain ⟨entry, hentry, -⟩ := Option.map_eq_some_iff.mp hk
    obtain ⟨m, hm⟩ := hnccl k
    have hzero : (0 : NcclAggValue).count = 0 := rfl
    simp [ncclView, hentry, addItem, hm, NcclAggValue.add, Nat.mul_add, hzero]
  rings := h.rings

/-- In an orderly run every call is recorded with its own entry. -/
theorem returns_faithful (hes : Sys.Permitted args (Orderly args) es) :
    ∀ r ∈ (Sys.run args n es).hist.returns,
      r.Faithful ∧ Sys.OpenedBy args n r.ctx.pidTgid r.call := by
  intro r hr
  obtain ⟨hout, halone⟩ := Sys.returns_alone (hes.mono fun _ _ h => h.nonNested) r hr
  exact ⟨Sys.faithful_of_alone (hes.mono fun _ _ h => h.keepsInflight) r hr hout halone,
    Sys.returns_openedBy args es r hr⟩

theorem returns_sampleMul (hrate : args.sampleRate ≤ 1) (es : List (Event n)) :
    ∀ r ∈ (Sys.run args n es).hist.returns, r.sampleMul = 1 := by
  refine Sys.forall_returns (fun s => Sys.ConfigOk args s.bpf) (P := fun _ _ => True)
    (Sys.configOk_init args) (fun _ e h _ => Sys.configOk_step h e) ?_ (Runs.along_true _ _ es)
  intro s ctx call rest hcfg _ _
  exact hcfg.sampleMul_eq_one hrate

/-- What an orderly run without sampling records of a call: its own entry, once. -/
structure Completed.RecordedOnce (r : Completed n) : Prop where
  recorded : r.recorded =
    if r.call.probe.isModuleGetFunction then none else some r.call.entry
  eventType : r.call.entry.eventType = r.call.probe.eventType
  sampleMul : r.sampleMul = 1

theorem returns_recordedOnce (hrate : args.sampleRate ≤ 1)
    (hes : Sys.Permitted args (Orderly args) es) :
    ∀ r ∈ (Sys.run args n es).hist.returns, r.RecordedOnce := by
  intro r hr
  obtain ⟨hf, hopen⟩ := returns_faithful hes r hr
  refine ⟨?_, hopen.eventType, returns_sampleMul hrate es r hr⟩
  rw [hf.recorded]
  cases hp : r.call.probe.isModuleGetFunction with
  | true => rfl
  | false => simp [hopen.stored hrate hp]

/-- A thread enters a probed call only when it has none open, nothing is evicted, and every map
    and ring has room for one more. -/
def WithSpace (s : Sys n) (e : Event n) : Prop :=
  (match e with
    | .enter _ ctx => s.stack ctx.pidTgid = []
    | .evict _ => False
    | _ => True) ∧ s.bpf.HasSpace

instance (s : Sys n) (e : Event n) : Decidable (WithSpace s e) := by
  unfold WithSpace
  cases e <;> exact inferInstanceAs (Decidable (_ ∧ _))

theorem WithSpace.orderly (h : WithSpace s e) : Orderly args s e := by
  obtain ⟨hevent, hspace⟩ := h
  refine ⟨?_, ?_, (aggView args n).room_of_size hspace.aggregated e,
    (launchView args n).room_of_size hspace.launch e,
    (ncclView args n).room_of_size hspace.nccl e, hspace.ringRoom e⟩
  · cases e with
    | enter p ctx => exact hevent
    | _ => trivial
  · rintro id rfl
    exact hevent

end Profi
