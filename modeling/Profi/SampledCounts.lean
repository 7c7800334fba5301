import Profi.Allocations
import Profi.Lib.OneInN

/-!
# Sampled Counts Round Up

With `--sample-rate N` each CPU keeps every `N`-th aggregatable entry and the return of a kept
call counts for `N`. So what is counted does not depend on where a call returns: it is `N`
times the number of entries that were kept, and those are decided CPU by CPU.

- `Sys.Sampled`: the sampling counters follow the entries, and every kept entry is in flight or
  was counted
- `Sys.countedCalls_eq_kept`: the count of a run whose calls are over, in terms of the counters
- `Sys.countedCalls_eq_ceilDiv`: the rounded up estimate

The counters are 64 bits wide. A rate that does not divide `2 ^ 64` is thrown out of step when
one wraps, so the estimate is stated for counts that fit.
-/

namespace Profi

variable {n : ℕ} {args : Args}

/-- An aggregatable call is entered on this CPU. -/
def Event.aggEntryOn (c : Fin n) : Event n → Bool
  | .enter p ctx => profiIsAggregatable p.eventType && decide (ctx.cpu = c)
  | _ => false

/-- How many aggregatable calls the run enters on a CPU. -/
def aggEntries (c : Fin n) (es : List (Event n)) : ℕ := es.countP (·.aggEntryOn c)

theorem aggEntries_concat (c : Fin n) (es : List (Event n)) (e : Event n) :
    aggEntries c (es ++ [e]) = aggEntries c es + if e.aggEntryOn c then 1 else 0 := by
  simp [aggEntries, List.countP_append, List.countP_singleton]

/-- The calls counted under a key of `AGGREGATED`. -/
def countOf (_ : AggKey) (val : AggValue) : ℕ := val.count

/-- One for an entry that will be counted in `AGGREGATED`. -/
def aggUnit (_ : U64) (entry : EntryData) : ℕ :=
  if profiIsAggregatable entry.eventType then 1 else 0

namespace Probe

/-- An entry program that finds its slot free moves the sampling counter. -/
theorem enter_sampleCounter {b : Bpf n} {ctx : Ctx n}
    (hfree : b.inflight.lookup ctx.pidTgid = none) (p : Probe) :
    (p.enter b ctx).sampleCounter = (b.countSample ctx p.eventType).sampleCounter := by
  cases hp : p.isModuleGetFunction with
  | true =>
    have hagg := not_aggregatable_of_moduleGetFunction hp
    have henter : (p.enter b ctx).sampleCounter = b.sampleCounter := by
      cases p with
      | cuModuleGetFunction hfuncPtr namePtr =>
        simp only [enter, Bpf.cuModuleGetFunction]
        split <;> rfl
      | _ => cases hp
    rw [henter]
    simp [Bpf.countSample, hagg]
  | false =>
    rw [enter_eq_saveEntry b ctx hp, prepare_frame]
    simp only [Bpf.saveEntry, hfree]
    split
    · simp only [Bpf.countSample]
      split <;> rfl
    · simp only [Bpf.countSample]
      split <;> rfl

end Probe

namespace Sys

variable {s : Sys n}

/-- No call is nested, no entry is lost from the slots, and `AGGREGATED` has room. -/
structure Sampleable (args : Args) (s : Sys n) (e : Event n) : Prop where
  nonNested : NonNested s e
  keepsInflight : KeepsInflight s e
  room : (aggView args n).Room s e

/-- The calls counted so far, drained or still in `AGGREGATED`. -/
def countedCalls (args : Args) (s : Sys n) : ℕ :=
  (aggView args n).handedSum countOf s.hist + (aggView args n).storedSum countOf s.bpf

/-- The entries kept by the sampling counters of all CPUs. -/
def keptEntries (args : Args) (es : List (Event n)) : ℕ :=
  ∑ c, OneInN.kept 64 args.sampleRate.toNat (aggEntries c es)

/-- The completed calls that were counted. -/
def countedReturns (s : Sys n) : ℕ := s.hist.returns.countP (·.aggEntry.isSome)

/-! ## The sampling counters -/

/-- Where a run with sampling stands: the counters have seen the entries of their CPUs, and
    every kept entry is in flight or was counted. -/
structure Sampled (args : Args) (es : List (Event n)) (s : Sys n) : Prop where
  slots : SlotOk args s
  alone : AloneOk s
  flat : Flat s
  counter : ∀ c, s.bpf.sampleCounter c = BitVec.ofNat 64 (aggEntries c es)
  kept : s.countedReturns + s.bpf.inflight.sum aggUnit = keptEntries args es

theorem sampled_init (n : ℕ) (args : Args) : Sampled args [] (Sys.init n args) where
  slots := slotOk_init n args
  alone := aloneOk_init n args
  flat := fun _ => .inl rfl
  counter := fun _ => rfl
  kept := by simp [countedReturns, keptEntries, aggEntries, Sys.init, Bpf.init]

/-- Only an aggregatable entry moves the number of kept entries, and only if the counter of its
    CPU says so. -/
theorem keptEntries_enter (args : Args) (es : List (Event n)) (p : Probe) (ctx : Ctx n) :
    keptEntries args (es ++ [.enter p ctx]) =
      keptEntries args es +
        if profiIsAggregatable p.eventType = true ∧
            aggEntries ctx.cpu es % 2 ^ 64 % args.sampleRate.toNat = 0 then 1 else 0 := by
  -- each CPU counts for itself, so only the one that runs the entry moves
  have hcpu : ∀ c, OneInN.kept 64 args.sampleRate.toNat (aggEntries c (es ++ [.enter p ctx])) =
      OneInN.kept 64 args.sampleRate.toNat (aggEntries c es) +
        if c = ctx.cpu then
          if profiIsAggregatable p.eventType = true ∧
              aggEntries ctx.cpu es % 2 ^ 64 % args.sampleRate.toNat = 0 then 1 else 0
        else 0 := by
    intro c
    rw [aggEntries_concat]
    by_cases hc : c = ctx.cpu
    · subst hc
      cases hagg : profiIsAggregatable p.eventType with
      | false => simp [Event.aggEntryOn, hagg]
      | true => simp [Event.aggEntryOn, hagg, OneInN.kept_succ]
    · have hc' : ¬ctx.cpu = c := fun h => hc h.symm
      simp [Event.aggEntryOn, hc, hc']
  unfold keptEntries
  rw [Finset.sum_congr rfl fun c _ => hcpu c, Finset.sum_add_distrib, Finset.sum_ite_eq']
  simp

variable {es : List (Event n)}

theorem keptEntries_of_no_entry (args : Args) {e : Event n} (he : ∀ c, e.aggEntryOn c = false) :
    keptEntries args (es ++ [e]) = keptEntries args es := by
  refine Finset.sum_congr rfl fun c _ => ?_
  rw [aggEntries_concat, he c]
  rfl

/-- A kept aggregatable entry is one that finds its counter at a multiple of the rate. -/
theorem aggUnit_stored (hrate : 1 < args.sampleRate) (hcfg : ConfigOk args s.bpf)
    (hcounter : ∀ c, s.bpf.sampleCounter c = BitVec.ofNat 64 (aggEntries c es)) (p : Probe)
    (ctx : Ctx n) :
    (if p.stores s.bpf ctx then aggUnit ctx.pidTgid (p.entryData s.bpf ctx) else 0) =
      if profiIsAggregatable p.eventType = true ∧
          aggEntries ctx.cpu es % 2 ^ 64 % args.sampleRate.toNat = 0 then 1 else 0 := by
  have htype : (p.entryData s.bpf ctx).eventType = p.eventType := rfl
  unfold aggUnit
  rw [htype]
  cases hagg : profiIsAggregatable p.eventType with
  | false => simp
  | true =>
    have hp : p.isModuleGetFunction = false := by
      by_contra hp
      rw [Probe.not_aggregatable_of_moduleGetFunction (by simpa using hp)] at hagg
      cases hagg
    have hrate' : s.bpf.sampleRate = args.sampleRate := by
      rw [hcfg.sampleRate, if_pos hrate]
    -- the counter is the number of entries so far modulo 2^64; the rate fits in it
    have hkeeps : p.stores s.bpf ctx =
        decide (aggEntries ctx.cpu es % 2 ^ 64 % args.sampleRate.toNat = 0) := by
      rw [Probe.stores_eq_keepsSample s.bpf ctx hp, Bpf.keepsSample, hrate', hcounter,
        if_pos ⟨hagg, hrate⟩]
      congr 1
      rw [← BitVec.toNat_inj, BitVec.toNat_umod, BitVec.toNat_ofNat, BitVec.toNat_setWidth,
        Nat.mod_eq_of_lt (a := args.sampleRate.toNat) (by omega)]
      rfl
    simp [hkeeps]

/-- A completed call was counted if its entry was kept and is aggregatable. -/
theorem aggEntry_isSome {ctx : Ctx n} {call : OpenCall}
    (hslot : s.bpf.inflight.lookup ctx.pidTgid = if call.stored then some call.entry else none)
    (htype : call.entry.eventType = call.probe.eventType) (rest : List OpenCall) :
    (if (s.completed ctx call rest).aggEntry.isSome then 1 else 0) =
      if call.stored then aggUnit ctx.pidTgid call.entry else 0 := by
  unfold aggUnit Completed.aggEntry
  simp only [completed, Probe.recorded, hslot]
  cases hp : call.probe.isModuleGetFunction with
  | true =>
    have hagg : profiIsAggregatable call.entry.eventType = false := by
      rw [htype]
      exact Probe.not_aggregatable_of_moduleGetFunction hp
    simp [hagg]
  | false =>
    cases call.stored with
    | false => simp
    | true =>
      cases hagg : profiIsAggregatable call.entry.eventType <;> simp [hagg]

/-- The sampling counters see the entries. -/
theorem counter_enter (hrate : 1 < args.sampleRate) (h : Sampled args es s) {p : Probe}
    {ctx : Ctx n} (hidle : s.stack ctx.pidTgid = []) (c : Fin n) :
    (s.enter p ctx).bpf.sampleCounter c =
      BitVec.ofNat 64 (aggEntries c (es ++ [.enter p ctx])) := by
  have hrate' : s.bpf.sampleRate > 1 := by
    rw [h.slots.config.sampleRate, if_pos hrate]
    exact hrate
  simp only [enter]
  rw [Probe.enter_sampleCounter (h.slots.free hidle) p, Bpf.countSample, aggEntries_concat]
  cases hagg : profiIsAggregatable p.eventType with
  | false =>
    simp only [Bool.false_eq_true, false_and, ↓reduceIte, Event.aggEntryOn, hagg, Bool.false_and,
      add_zero]
    exact h.counter c
  | true =>
    simp only [hrate', and_self, ↓reduceIte, Event.aggEntryOn, hagg, Bool.true_and,
      decide_eq_true_eq]
    by_cases hc : ctx.cpu = c
    · subst hc
      rw [Function.update_self, if_pos rfl, h.counter ctx.cpu, BitVec.ofNat_add]
      rfl
    · rw [Function.update_of_ne (fun hc' => hc hc'.symm), if_neg hc, add_zero]
      exact h.counter c

theorem sampled_step (hrate : 1 < args.sampleRate) (h : Sampled args es s) {e : Event n}
    (he : Sampleable args s e) : Sampled args (es ++ [e]) (s.step args e) := by
  have hslots := slotOk_step h.slots e
  have halone := aloneOk_step h.slots h.alone he.keepsInflight
  have hflat : Flat (s.step args e) := flat_step h.flat he.nonNested
  -- an event that enters no call leaves the counters and the entries alone
  have hquiet : (∀ c, e.aggEntryOn c = false) →
      (s.step args e).bpf.sampleCounter = s.bpf.sampleCounter →
      (s.step args e).countedReturns + (s.step args e).bpf.inflight.sum aggUnit =
        s.countedReturns + s.bpf.inflight.sum aggUnit →
      Sampled args (es ++ [e]) (s.step args e) := by
    intro hno hcounter hkept
    refine ⟨hslots, halone, hflat, fun c => ?_, ?_⟩
    · rw [hcounter, aggEntries_concat, hno c]
      exact h.counter c
    · rw [hkept, keptEntries_of_no_entry args hno]
      exact h.kept
  rcases step_cases args s e with ⟨p, ctx, rfl, hstep⟩ | ⟨ctx, call, rest, rfl, hs, hstep⟩ |
    ⟨ev, rfl, hstep⟩ | hbg
  · have hidle : s.stack ctx.pidTgid = [] := he.nonNested
    have hsum := sum_inflight_enter aggUnit (h.slots.free hidle) p
    refine ⟨hslots, halone, hflat, counter_enter hrate h hidle, ?_⟩
    rw [hstep, keptEntries_enter, ← h.kept,
      ← aggUnit_stored hrate h.slots.config h.counter p ctx, add_assoc, ← hsum]
    rfl
  · obtain ⟨-, hslot⟩ := h.flat.returning h.alone hs
    have hopen := h.slots.opened ctx.pidTgid call (by rw [hs]; simp)
    have hsum := sum_inflight_exit aggUnit hslot hopen
    have hcounted := aggEntry_isSome hslot hopen.eventType rest
    refine hquiet (fun _ => rfl) ?_ ?_
    · rw [hstep]
      rw [Probe.exit_frame]
    · rw [hstep]
      simp only [countedReturns, List.countP_append, List.countP_singleton]
      omega
  · refine hquiet (fun _ => rfl) ?_ ?_
    · rw [hstep]
      cases ev <;> rfl
    · rw [hstep]
      cases ev with
      | inflight id => exact absurd rfl (he.keepsInflight id)
      | _ => rfl
  · refine hquiet (fun c => ?_) ?_ ?_
    · cases e with
      | enter p ctx => exact absurd hbg (s.not_background_enter p ctx)
      | _ => rfl
    · rw [hbg.bpf]
    · rw [countedReturns, hbg.returns, hbg.bpf]
      rfl

theorem sampled_run (hrate : 1 < args.sampleRate) (hes : Permitted args (Sampleable args) es) :
    Sampled args es (run args n es) :=
  Runs.run_invariant_history (I := Sampled args) (fun _ _ _ h he => sampled_step hrate h he)
    (sampled_init n args) hes

/-! ## What is counted -/

/-- With sampling on, the factor of a counted call is the rate. -/
theorem sampleMul_toNat (hrate : 1 < args.sampleRate) :
    args.sampleMul.toNat = args.sampleRate.toNat := by
  unfold Args.sampleMul
  rw [if_pos hrate, BitVec.toNat_setWidth]
  exact Nat.mod_eq_of_lt (by omega)

theorem countOf_add (r : Completed n) (k : AggKey) (hk : (aggView args n).key r = some k)
    (val : AggValue) :
    countOf k ((aggView args n).add r val) =
      countOf k val + countOf k ((aggView args n).add r 0) := by
  obtain ⟨entry, hentry, rfl⟩ := Option.map_eq_some_iff.mp hk
  simp only [countOf, aggView, addItem, hentry, AggValue.add]
  exact congrArg (val.count + ·) (Nat.zero_add _).symm

/-- Every counted call counts for the rate. -/
theorem countedCalls_eq_returns (hrate : 1 < args.sampleRate)
    (hroom : Permitted args (aggView args n).Room es) :
    countedCalls args (run args n es) = args.sampleRate.toNat * (run args n es).countedReturns := by
  have hconserved := (aggView args n).conserved countOf ((aggView args n).share countOf)
    (fun _ => rfl) (fun r => (aggView args n).share_of_none countOf)
    (hroom.mono fun _ _ h => View.absorbs_share_of_room countOf_add h)
  have hmul : ∀ r ∈ (run args n es).hist.returns, r.sampleMul = args.sampleMul :=
    forall_returns (fun s => ConfigOk args s.bpf) (configOk_init args)
      (fun _ e h _ => configOk_step h e) (fun _ _ _ _ hcfg _ _ => hcfg.sampleMul) hroom
  -- each return that reaches the map counts for as many calls as the rate says
  have hshare : ∀ r ∈ (run args n es).hist.returns, (aggView args n).share countOf r =
      args.sampleRate.toNat * if r.aggEntry.isSome = true then 1 else 0 := by
    intro r hr
    simp only [View.share, aggView]
    cases hentry : r.aggEntry with
    | none => rfl
    | some entry =>
      simp only [countOf, addItem, Option.map_some, AggValue.add, Completed.aggItem, hmul r hr,
        sampleMul_toNat hrate, Option.isSome_some, ↓reduceIte, mul_one]
      exact Nat.zero_add _
  rw [countedCalls, hconserved, List.map_congr_left hshare, List.sum_map_mul_left,
    sum_map_ite_one, countedReturns]

/-- When no call is open nothing is in flight. -/
theorem sum_inflight_eq_zero (h : SlotOk args s) (hdone : ∀ id, s.stack id = [])
    (w : U64 → EntryData → ℕ) : s.bpf.inflight.sum w = 0 := by
  apply FinMap.sum_eq_zero
  intro id entry hl
  rw [h.free (hdone id)] at hl
  cases hl

/-- Once the calls are over, what is counted is the rate times what the counters kept. -/
theorem countedCalls_eq_kept (hrate : 1 < args.sampleRate)
    (hes : Permitted args (Sampleable args) es) (hdone : ∀ id, (run args n es).stack id = []) :
    countedCalls args (run args n es) = args.sampleRate.toNat * keptEntries args es := by
  have hsampled := sampled_run hrate hes
  rw [countedCalls_eq_returns hrate (hes.mono fun _ _ h => h.room), ← hsampled.kept,
    sum_inflight_eq_zero hsampled.slots hdone, add_zero]

/-- The rounded up number of calls: on every CPU the entries in steps of the rate. -/
def roundedUp (args : Args) (es : List (Event n)) : ℕ :=
  args.sampleRate.toNat * ∑ c, aggEntries c es ⌈/⌉ args.sampleRate.toNat

theorem le_roundedUp (hrate : 1 < args.sampleRate) (es : List (Event n)) :
    ∑ c, aggEntries c es ≤ roundedUp args es := by
  have hpos : 0 < args.sampleRate.toNat := by bv_omega
  rw [roundedUp, Finset.mul_sum]
  exact Finset.sum_le_sum fun c _ => le_smul_ceilDiv hpos

theorem roundedUp_le (hrate : 1 < args.sampleRate) (es : List (Event n)) :
    roundedUp args es ≤ ∑ c, aggEntries c es + n * (args.sampleRate.toNat - 1) := by
  have hpos : 0 < args.sampleRate.toNat := by bv_omega
  have hconst : n * (args.sampleRate.toNat - 1) =
      ∑ _c : Fin n, (args.sampleRate.toNat - 1) := by simp
  rw [roundedUp, Finset.mul_sum, hconst, ← Finset.sum_add_distrib]
  exact Finset.sum_le_sum fun c _ => OneInN.mul_ceilDiv_le hpos (aggEntries c es)

/-- As long as the rounded up number fits in a counter, no counter has wrapped, and the rate
    times the kept entries is that number. -/
theorem mul_keptEntries (hrate : 1 < args.sampleRate) (hfits : roundedUp args es < 2 ^ 64) :
    args.sampleRate.toNat * keptEntries args es = roundedUp args es := by
  have hpos : 0 < args.sampleRate.toNat := by bv_omega
  congr 1
  refine Finset.sum_congr rfl fun c _ => OneInN.kept_eq_ceilDiv hpos ?_
  calc aggEntries c es ≤ ∑ c, aggEntries c es :=
        Finset.single_le_sum (f := fun c => aggEntries c es) (fun _ _ => Nat.zero_le _)
          (Finset.mem_univ c)
    _ ≤ roundedUp args es := le_roundedUp hrate es
    _ ≤ 2 ^ 64 := hfits.le

/-- **Sampled counts round up.** In every run of calls that are not nested and all return, on
    any CPUs, the count over `AGGREGATED` and its drains is the rounded up number of
    aggregatable calls, as long as that number fits in 64 bits. It is at least the true number
    and less than the rate above it for each CPU. -/
theorem sampled_count_rounds_up (hrate : 1 < args.sampleRate) {es : List (Event n)}
    (hes : Permitted args (Sampleable args) es) (hdone : ∀ id, (run args n es).stack id = [])
    (hfits : args.sampleRate.toNat * ∑ c, aggEntries c es ⌈/⌉ args.sampleRate.toNat < 2 ^ 64) :
    countedCalls args (run args n es) =
        args.sampleRate.toNat * ∑ c, aggEntries c es ⌈/⌉ args.sampleRate.toNat ∧
      ∑ c, aggEntries c es ≤ countedCalls args (run args n es) ∧
      countedCalls args (run args n es) ≤
        ∑ c, aggEntries c es + n * (args.sampleRate.toNat - 1) := by
  have hcounted : countedCalls args (run args n es) = roundedUp args es :=
    (countedCalls_eq_kept hrate hes hdone).trans (mul_keptEntries hrate hfits)
  rw [hcounted]
  exact ⟨rfl, le_roundedUp hrate es, roundedUp_le hrate es⟩

/-- Three calls of a thread that moves between two CPUs: two are entered on the first and
    return on the second. -/
def migratingSyncs : List (Event 2) :=
  let on (cpu : Fin 2) (ktimeNs : U64) : Ctx 2 :=
    ⟨0x700000007, cpu, ktimeNs, 0, 0, [], fun _ => none, fun _ => none⟩
  [.enter (.cudaStreamSync 0) (on 0 1), .ret (on 1 2), .enter (.cudaStreamSync 0) (on 1 3),
    .aggTick .bare, .ret (on 1 4), .enter (.cudaStreamSync 0) (on 0 5), .ret (on 1 6)]

theorem sampled_count_rounds_up_migrating :
    countedCalls { sampleRate := 2 } (run { sampleRate := 2 } 2 migratingSyncs) = 4 ∧
      ∑ c, aggEntries c migratingSyncs = 3 := by
  have hes : Permitted { sampleRate := 2 } WithSpace migratingSyncs := by decide
  have horderly : Permitted { sampleRate := 2 } (Sampleable { sampleRate := 2 }) migratingSyncs :=
    hes.mono fun _ _ h =>
      have horderly : Orderly { sampleRate := 2 } _ _ := h.orderly
      ⟨horderly.nonNested, horderly.keepsInflight, horderly.aggregated⟩
  have hdone : ∀ id, (run { sampleRate := 2 } 2 migratingSyncs).stack id = [] :=
    stack_of_single (by decide : ∀ e ∈ migratingSyncs, e.thread.all (· = 0x700000007)) (by decide)
  have hrounded : (2 : ℕ) * ∑ c, aggEntries c migratingSyncs ⌈/⌉ 2 = 4 := by decide
  refine ⟨?_, by decide⟩
  exact (sampled_count_rounds_up (by decide) horderly hdone (by decide)).1.trans hrounded

/-! ## When a counter wraps -/

/-- One synchronisation, drained at once. -/
def drainedSync : List (Event 1) :=
  [.enter (.cudaStreamSync 0) (bareCtx 0x700000007 1 0), .ret (bareCtx 0x700000007 2 0),
    .aggTick .bare]

/-- A thread that synchronises `m` times. -/
def drainedSyncs : ℕ → List (Event 1)
  | 0 => []
  | m + 1 => drainedSyncs m ++ drainedSync

theorem aggEntries_drainedSyncs (c : Fin 1) (m : ℕ) : aggEntries c (drainedSyncs m) = m := by
  induction m with
  | zero => rfl
  | succ m ih =>
    have hone : drainedSync.countP (·.aggEntryOn c) = 1 := by
      rw [Subsingleton.elim c 0]
      decide
    simp only [aggEntries, drainedSyncs, List.countP_append] at ih ⊢
    rw [ih, hone]

/-- Between two of these calls nothing is open and `AGGREGATED` is empty. -/
structure AtRest (s : Sys n) : Prop where
  idle : ∀ id, s.stack id = []
  empty : s.bpf.aggregated.slots.size = 0
  capacity : 0 < s.bpf.aggregated.maxEntries

theorem atRest_init (hsize : 0 < args.aggregatedSize) : AtRest (Sys.init n args) :=
  ⟨fun _ => rfl, rfl, hsize⟩

theorem atRest_drainedSync {s : Sys 1} (h : AtRest s) :
    Runs.Along (step args) (Sampleable args) s drainedSync ∧
      AtRest (Runs.run (step args) s drainedSync) := by
  let v := aggView args 1
  let p : Probe := .cudaStreamSync 0
  let entered := s.enter p (bareCtx 0x700000007 1 0)
  have hidle : s.stack 0x700000007 = [] := h.idle _
  have hstack : entered.stack 0x700000007 = [s.opened p (bareCtx 0x700000007 1 0)] := by
    have hself := enter_stack_self s p (bareCtx 0x700000007 1 0)
    rwa [show (bareCtx 0x700000007 1 0).pidTgid = 0x700000007 from rfl, hidle] at hself
  have hentered : entered.bpf.aggregated = s.bpf.aggregated := v.get_enter s.bpf _ p
  -- the entered call is the only one and finds `AGGREGATED` empty when it returns
  have hroom : v.Room entered (.ret (bareCtx 0x700000007 2 0)) := by
    apply View.room_of_size
    change entered.bpf.aggregated.slots.size < entered.bpf.aggregated.maxEntries
    rw [hentered, h.empty]
    exact h.capacity
  have hret : entered.ret (bareCtx 0x700000007 2 0) = _ := ret_cons hstack
  refine ⟨⟨⟨hidle, nofun, trivial⟩, ⟨trivial, nofun, hroom⟩,
    ⟨trivial, nofun, trivial⟩, trivial⟩, ?_, ?_, ?_⟩
  · intro id
    change (entered.ret (bareCtx 0x700000007 2 0)).stack id = []
    rw [hret]
    by_cases hid : id = 0x700000007
    · rw [hid]
      rfl
    · have hother : entered.stack id = s.stack id := enter_stack_other s p _ hid
      exact (Function.update_of_ne hid _ _).trans (hother.trans (h.idle id))
  · change
      ((entered.ret (bareCtx 0x700000007 2 0)).aggTick args .bare).bpf.aggregated.slots.size = 0
    have hgrown := v.size_get_exit_le entered (bareCtx 0x700000007 2 0)
      (s.opened p (bareCtx 0x700000007 1 0)) []
    rw [aggTick_bpf, size_undrained, hret]
    change _ ≤ entered.bpf.aggregated.slots.size + 1 at hgrown
    rw [hentered, h.empty] at hgrown
    simp only [percpuHashDrainKeyBudget]
    exact Nat.sub_eq_zero_of_le (hgrown.trans (by omega))
  · have hcap := (v.maxEntries_step (((s.step args (.enter p (bareCtx 0x700000007 1 0))).step args
      (.ret (bareCtx 0x700000007 2 0)))) (.aggTick .bare)).trans
      ((v.maxEntries_step _ _).trans (v.maxEntries_step _ _))
    exact lt_of_lt_of_eq h.capacity hcap.symm

theorem drainedSyncs_sampleable (hsize : 0 < args.aggregatedSize) (m : ℕ) :
    Permitted args (Sampleable args) (drainedSyncs m) ∧
      AtRest (run args 1 (drainedSyncs m)) := by
  induction m with
  | zero => exact ⟨trivial, atRest_init hsize⟩
  | succ m ih =>
    obtain ⟨hes, hrest⟩ := ih
    obtain ⟨hnext, hrest'⟩ := atRest_drainedSync hrest
    refine ⟨Runs.along_append.mpr ⟨hes, hnext⟩, ?_⟩
    rwa [run, drainedSyncs, Runs.run_append]

/-- The first call after the wrap is kept although the one before was kept as well. -/
theorem kept_after_wrap : OneInN.kept 64 3 (2 ^ 64 + 1) = (2 ^ 64 + 1) ⌈/⌉ 3 + 1 := by
  rw [OneInN.kept_succ, OneInN.kept_eq_ceilDiv (by decide) (le_refl _), Nat.mod_self,
    Nat.ceilDiv_eq_add_pred_div, Nat.ceilDiv_eq_add_pred_div]
  norm_num

/-- A thread synchronises `2 ^ 64 + 1` times at a rate of three, and everything is drained at
    once. The estimate is one step too high: it is not the rounded up number of calls. -/
theorem sampled_count_after_wrap :
    ∃ m, m = 2 ^ 64 + 1 ∧
      Permitted { sampleRate := 3 } (Sampleable { sampleRate := 3 }) (drainedSyncs m) ∧
      (∀ id, (run { sampleRate := 3 } 1 (drainedSyncs m)).stack id = []) ∧
      countedCalls { sampleRate := 3 } (run { sampleRate := 3 } 1 (drainedSyncs m)) =
        3 * (∑ c, aggEntries c (drainedSyncs m) ⌈/⌉ 3) + 3 := by
  -- the run is never evaluated, so its length stays a variable
  obtain ⟨m, hm⟩ : ∃ m, m = 2 ^ 64 + 1 := ⟨_, rfl⟩
  have hsize : 0 < ({ sampleRate := 3 } : Args).aggregatedSize := by decide
  obtain ⟨hes, hrest⟩ := drainedSyncs_sampleable hsize m
  refine ⟨m, hm, hes, hrest.idle, ?_⟩
  have hkept : keptEntries { sampleRate := 3 } (drainedSyncs m) = OneInN.kept 64 3 m := by
    simp [keptEntries, aggEntries_drainedSyncs]
  have hcalls : (∑ c, aggEntries c (drainedSyncs m) ⌈/⌉ 3) = m ⌈/⌉ 3 := by
    simp [aggEntries_drainedSyncs]
  rw [countedCalls_eq_kept (by decide) hes hrest.idle, hkept, hcalls, hm, kept_after_wrap]
  exact Nat.mul_add_one 3 _

end Sys

end Profi
