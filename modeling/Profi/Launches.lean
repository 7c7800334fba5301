import Profi.Closing

/-!
# Exported Kernel Launches

A launch is recorded in `LAUNCH_AGG`, and in the ring as well when its process is not in
anonymous mode and detailed tracing is on. The event loop exports one of the two: it drains
`LAUNCH_AGG` unless detailed tracing is on.

The two sides agree unless detailed tracing is on and the process is in anonymous mode: such
a launch is only in `LAUNCH_AGG`, which nobody drains (`launches_exported_iff`).
-/

namespace Profi

variable {n : ℕ} {args : Args} {E : CacheEnv → Prop}

/-! ## Call counters -/

/-- The increments made to the calls counter of an operation of a process. -/
def callsOf (eventType : EventType) (pid : U32) : Measure :=
  .total (callsFamily eventType) fun labels =>
    labels[0]? = some (operationName eventType) ∧ labels[1]? = some (decString pid)

theorem callsFamily_ne {family : CounterFamily} (hcuda : family ≠ .cudaCalls)
    (hnccl : family ≠ .ncclCalls) (eventType : EventType) : callsFamily eventType ≠ family := by
  unfold callsFamily
  split
  · exact hnccl.symm
  · exact hcuda.symm

/-- A handle for this key counts for the operation and the process of the key only. -/
theorem callsOf_labels {key : MetricKey} {hl : HandleLabels} (hfor : LabelsFor E key hl)
    (eventType : EventType) (pid : U32) :
    (callsFamily eventType = callsFamily key.eventType ∧
        decide (hl.callsLabels[0]? = some (operationName eventType) ∧
          hl.callsLabels[1]? = some (decString pid)) = true) ↔
      key.eventType = eventType ∧ key.pid = pid := by
  obtain ⟨hop, hpid⟩ := hfor.calls
  rw [hop, hpid, decide_eq_true_eq, Option.some.injEq, Option.some.injEq]
  constructor
  · rintro ⟨-, hop, hpid⟩
    exact ⟨operationName_injective hop, decString_injective hpid⟩
  · rintro ⟨rfl, rfl⟩
    exact ⟨rfl, rfl, rfl⟩

theorem incTotal_bucketIncs_of_ne {f family : CounterFamily} (h : f ≠ family)
    (p : List String → Bool) (base : List String) (cumulative : ℕ)
    (pairs : List (String × ℕ)) :
    incTotal f p (bucketIncs family base cumulative pairs) = 0 := by
  apply incTotal_eq_zero
  intro i hi
  rw [family_of_mem_bucketIncs hi]
  exact h.symm

/-- Counting a part finds everything iff the part is everything. -/
theorem countP_and_eq_iff {α : Type} (p q : α → Bool) (xs : List α) :
    xs.countP (fun x => p x && q x) = xs.countP p ↔ ∀ x ∈ xs, p x = true → q x = true := by
  induction xs with
  | nil => simp
  | cons x xs ih =>
    have hle : xs.countP (fun x => p x && q x) ≤ xs.countP p :=
      List.countP_mono_left fun x _ h => (Bool.and_eq_true_iff.mp h).1
    rw [List.forall_mem_cons, ← ih, List.countP_cons, List.countP_cons]
    cases hp : p x with
    | false => simp
    | true =>
      cases hq : q x with
      | true => simp
      | false =>
        simp only [Bool.and_false, Bool.false_eq_true, ↓reduceIte]
        constructor
        · intro h
          omega
        · rintro ⟨h, -⟩
          exact absurd h (by simp)

theorem ite_eq_mul {V : Type} (c : Prop) [Decidable c] (count : V → ℕ) :
    ∃ m, ∀ val, (if c then count val else 0) = m * count val := by
  by_cases hc : c
  · exact ⟨1, by simp [hc]⟩
  · exact ⟨0, by simp [hc]⟩

theorem sum_map_ite {V : Type} (c : Prop) [Decidable c] (count : V → ℕ) (vals : List V) :
    (vals.map fun val => if c then count val else 0).sum =
      if c then (vals.map count).sum else 0 := by
  split <;> simp

theorem callsFamily_cases (eventType : EventType) :
    callsFamily eventType = .cudaCalls ∨ callsFamily eventType = .ncclCalls := by
  unfold callsFamily
  split
  · exact .inr rfl
  · exact .inl rfl

section CallsShares

variable {key : MetricKey} {hl : HandleLabels} (hfor : LabelsFor E key hl)
  (eventType : EventType) (pid : U32)

include hfor

/-- Of the increments of a record only those to the calls counter count. -/
theorem incTotal_calls (mode : KernelMode) (r : Record) :
    incTotal (callsOf eventType pid).family (callsOf eventType pid).labels (r.incs mode key hl) =
      if key.eventType = eventType ∧ key.pid = pid then r.count else 0 := by
  have hcalls : incTotal (callsOf eventType pid).family (callsOf eventType pid).labels
      [⟨callsFamily key.eventType, hl.callsLabels, r.count⟩] =
        if key.eventType = eventType ∧ key.pid = pid then r.count else 0 := by
    exact if_congr (callsOf_labels hfor eventType pid) rfl rfl
  rw [← hcalls]
  -- the other increments are to other families
  rcases callsFamily_cases eventType with hf | hf
  all_goals
    cases r with
    | ring ev =>
      simp [Record.incs, Record.count, eventIncs, callsOf, Measure.total, hf, incTotal_optInc]
    | aggregated _ perCpu =>
      simp [Record.incs, Record.count, aggIncs, callsOf, Measure.total, hf, incTotal_optInc,
        incTotal_bucketIncs_of_ne]
    | nccl _ perCpu =>
      simp [Record.incs, Record.count, ncclIncs, callsOf, Measure.total, hf, incTotal_optInc,
        incTotal_bucketIncs_of_ne]
    | launch _ perCpu =>
      unfold Record.incs launchIncs
      cases hl.kernelHistLabels <;> cases mode <;>
        simp [Record.count, launchHistIncs, callsOf, Measure.total, hf, incTotal_optInc,
          incTotal_bucketIncs_of_ne]

end CallsShares

/-- Every item counts for its own operation and process. -/
def callsShares (E : CacheEnv → Prop) (eventType : EventType) (pid : U32) :
    Shares E (callsOf eventType pid) where
  agg key val := if key.eventType = eventType ∧ key.pid = pid then val.count else 0
  launch key val := if .cudaLaunchKernel = eventType ∧ key.pid = pid then val.count else 0
  nccl key val := if key.eventType = eventType ∧ key.pid = pid then val.count else 0
  event ev := if ev.eventType = eventType ∧ ev.pid = pid then 1 else 0
  zero := ⟨fun _ => ite_self _, fun _ => ite_self _, fun _ => ite_self _⟩
  incs r mode key' hl hsame hfor := by
    rw [incTotal_calls hfor, hsame.eventType, hsame.pid]
    cases r with
    | ring ev => rfl
    | _ => simp only [Record.share, sum_map_ite]; rfl

/-! ## Launches -/

/-- A completed kernel launch of the process. -/
def Completed.isLaunchOf (pid : U32) (r : Completed n) : Bool :=
  r.call.probe.eventType = .cudaLaunchKernel ∧ r.ctx.pid = pid

/-- The launch is where the event loop looks for it: in `LAUNCH_AGG` without detailed tracing,
    in the ring with it. -/
def Completed.collected (args : Args) (r : Completed n) : Bool :=
  !args.detailedLaunches || r.mode ≠ 1

/-- A recorded launch counts once, if it is where the event loop looks for it. -/
theorem ofReturn_launch {r : Completed n} {entry : EntryData} (h : r.recorded = some entry)
    (hentry : entry.eventType = .cudaLaunchKernel) (pid : U32) :
    (callsShares E .cudaLaunchKernel pid).ofReturn args r =
      if r.ctx.pid = pid ∧ r.collected args = true then 1 else 0 := by
  have hagg : profiIsAggregatable .cudaLaunchKernel = false := rfl
  have hnccl : profiIsNcclEvent .cudaLaunchKernel = false := rfl
  have hone : (LaunchAggValue.add 0 (r.launchItem entry)).count = 1 := rfl
  rw [Shares.ofReturn_of_some _ h]
  cases hd : args.detailedLaunches with
  | false =>
    simp [hentry, hagg, hnccl, hd, hone, callsShares, Completed.toRing, Bpf.ringBound,
      Completed.collected, Completed.launchKey, Bpf.launchKeyIn]
  | true =>
    by_cases hmode : r.mode = 1#32 <;>
      simp [hentry, hagg, hnccl, hd, hmode, callsShares, Completed.toRing, Bpf.ringBound,
        Completed.collected, Completed.event, Bpf.cudaEventIn]

/-- Other calls do not count as launches. -/
theorem ofReturn_not_launch {r : Completed n} {entry : EntryData} (h : r.recorded = some entry)
    (hentry : entry.eventType ≠ .cudaLaunchKernel) (pid : U32) :
    (callsShares E .cudaLaunchKernel pid).ofReturn args r = 0 := by
  rw [Shares.ofReturn_of_some _ h]
  simp [hentry, callsShares, Completed.event, Bpf.cudaEventIn, Completed.aggKey, Bpf.aggKey,
    Completed.ncclKey, Bpf.ncclKey]

/-- A call of an orderly run counts as a launch if it is one and is collected. -/
theorem ofReturn_launches {r : Completed n} (hf : r.Faithful)
    (hopen : Sys.OpenedBy args n r.ctx.pidTgid r.call) (pid : U32) :
    (callsShares E .cudaLaunchKernel pid).ofReturn args r =
      if r.isLaunchOf pid = true ∧ r.collected args = true then 1 else 0 := by
  have htype := hopen.eventType
  by_cases hlaunch : r.call.probe.eventType = .cudaLaunchKernel
  · -- launches are never sampled out, so the entry is there
    have hmgf : r.call.probe.isModuleGetFunction = false := by
      cases hm : r.call.probe.isModuleGetFunction with
      | false => rfl
      | true =>
        rw [(Probe.eventType_eq_register _).mpr hm] at hlaunch
        cases hlaunch
    have hstored := hopen.stored_of_not_aggregatable (by rw [hlaunch]; rfl) hmgf
    have hrec : r.recorded = some r.call.entry := by
      rw [hf.recorded]
      simp [hmgf, hstored]
    rw [ofReturn_launch hrec (htype.trans hlaunch)]
    simp [Completed.isLaunchOf, hlaunch]
  · have hno : r.isLaunchOf pid = false := by simp [Completed.isLaunchOf, hlaunch]
    simp only [hno, Bool.false_eq_true, false_and, ↓reduceIte]
    cases hrec : r.recorded with
    | none => exact Shares.ofReturn_of_none _ hrec
    | some entry =>
      have hentry : entry = r.call.entry := by
        have := hf.recorded
        rw [hrec] at this
        split at this
        · cases this
        · split at this
          · exact Option.some.inj this
          · cases this
      exact ofReturn_not_launch hrec (by rw [hentry, htype]; exact hlaunch) pid

/-- **Launches.** In every orderly run, in every kernel mode and for any set of upgraded
    processes, after the last batches and ticks and below the handle limit: the launches of a
    process are all exported iff none of them was made in anonymous mode while detailed
    tracing is on. -/
theorem launches_exported_iff (pid : U32) {es fs : List (Event n)}
    (hes : Sys.Permitted args (Orderly args) (es ++ fs))
    (hclose : Closing args (Sys.run args n es) fs)
    (hdrops : (Sys.run args n (es ++ fs)).loop.metrics.cardinalityDrops = 0) :
    (callsOf .cudaLaunchKernel pid).val (Sys.run args n (es ++ fs)).loop.metrics =
        (Sys.run args n (es ++ fs)).hist.returns.countP (·.isLaunchOf pid) ↔
      ∀ r ∈ (Sys.run args n (es ++ fs)).hist.returns, r.isLaunchOf pid = true →
        args.detailedLaunches = false ∨ r.mode ≠ 1 := by
  -- what is exported counts the launches that some drain collects
  have hcount := exported_eq_countP (callsShares (fun _ => True) .cudaLaunchKernel pid)
    (fun _ e _ => by cases e <;> trivial) (fun _ e hc _ => undisturbed_total _ _ hc e)
    (fun _ _ h => h.absorbed (fun _ => ite_eq_mul _ _) (fun _ => ite_eq_mul _ _)
      (fun _ => ite_eq_mul _ _)) hes hclose.settled_run hdrops
    (p := fun r => r.isLaunchOf pid && r.collected args) fun r hr => by
      obtain ⟨hf, hopen⟩ := returns_faithful hes r hr
      rw [ofReturn_launches hf hopen]
      simp only [Bool.and_eq_true]
  rw [hcount, countP_and_eq_iff]
  simp [Completed.collected]

/-- Thread 7 of process 7 launches a kernel. -/
def singleLaunch : List (Event 1) :=
  [.enter (.cudaLaunchKernel 0x401000) (Sys.bareCtx 0x700000007 100 0),
    .ret (Sys.bareCtx 0x700000007 200 0)]

/-- A last ring buffer batch and a last tick. -/
def lastDrain : List (Event 1) := [.consume .bare, .aggTick .bare]

theorem launches_exported_iff_single :
    (callsOf .cudaLaunchKernel 7).val
        (Sys.run {} 1 (singleLaunch ++ lastDrain)).loop.metrics = 1 := by
  have hspace : Sys.Permitted {} WithSpace (singleLaunch ++ lastDrain) := by decide
  refine (launches_exported_iff 7 (hspace.mono fun _ _ h => h.orderly) ?_ (by decide)).mpr ?_
  · exact ⟨by simp [lastDrain, Event.isAggTick, Event.isConsume], by decide, by decide,
      by decide, by decide⟩
  · exact fun _ _ _ => .inl rfl

/-- In anonymous mode, the default, with `--detailed-launches`: the launch is in `LAUNCH_AGG`,
    in no ring, and never exported. -/
theorem detailed_anonymous_launch_lost :
    Sys.Permitted { detailedLaunches := true } WithSpace (singleLaunch ++ lastDrain) ∧
      (Sys.run { detailedLaunches := true } 1 singleLaunch).bpf.events.records = [] ∧
      (Sys.run { detailedLaunches := true } 1
        (singleLaunch ++ lastDrain)).loop.metrics.cardinalityDrops = 0 ∧
      (Sys.run { detailedLaunches := true } 1 (singleLaunch ++ lastDrain)).hist.returns.countP
        (·.isLaunchOf 7) = 1 ∧
      (callsOf .cudaLaunchKernel 7).val
        (Sys.run { detailedLaunches := true } 1 (singleLaunch ++ lastDrain)).loop.metrics = 0 := by
  refine ⟨by decide, rfl, by decide, by decide, by decide⟩

end Profi
