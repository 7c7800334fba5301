import Profi.Launches

/-!
# Exported Errors

The return code of a call takes one of four ways to `profi_cuda_errors_total`: as a component
of an `AGGREGATED` or `NCCL_AGG` key, in a ring record, or not at all. `LaunchKey` has no place
for it, so without detailed tracing a failed launch is counted as a call and not as an error;
a failed `cuModuleGetFunction` is not counted at all (`errors_counted_iff`).
-/

namespace Profi

variable {n : ℕ} {args : Args} {E : CacheEnv → Prop}

/-! ## Error counters -/

/-- The increments made to the errors counter of an operation, a process and a code. -/
def errorsOf (eventType : EventType) (pid code : U32) : Measure :=
  .total .cudaErrors fun labels =>
    labels[0]? = some (operationName eventType) ∧ labels[1]? = some (decString pid) ∧
      labels[8]? = some (decString code)

section ErrorShares

variable {key : MetricKey} {hl : HandleLabels} (hfor : LabelsFor E key hl)
  (eventType : EventType) (pid : U32) {code : U32} (hcode : code ≠ 0)

include hfor hcode

/-- A handle for this key counts for the operation, process and code of the key only. -/
theorem incTotal_errorsCounter (count : ℕ) :
    incTotal .cudaErrors (errorsOf eventType pid code).labels
        (optInc .cudaErrors hl.errorsLabels count) =
      if key.eventType = eventType ∧ key.pid = pid ∧ key.errorCode = code then count else 0 := by
  rw [incTotal_optInc]
  rcases hfor.errors with ⟨hzero, hnone⟩ | ⟨labels, -, hsome, hop, hpid, herr⟩
  · -- a call that succeeded has no errors counter
    have hne : key.errorCode ≠ code := by
      rw [hzero]
      exact hcode.symm
    simp [hnone, hne]
  · refine if_congr ?_ rfl rfl
    rw [hsome]
    simp only [Option.any_some, errorsOf, Measure.total, hop, hpid, herr, decide_eq_true_eq,
      Option.some.injEq, true_and]
    constructor
    · rintro ⟨hop, hpid, herr⟩
      exact ⟨operationName_injective hop, decString_injective hpid, decString_injective herr⟩
    · rintro ⟨rfl, rfl, rfl⟩
      exact ⟨rfl, rfl, rfl⟩

/-- No other increment of a record is to an errors counter, and a drained launch makes none. -/
theorem incTotal_errors (mode : KernelMode) (r : Record) :
    incTotal .cudaErrors (errorsOf eventType pid code).labels (r.incs mode key hl) =
      match r with
      | .launch _ _ => 0
      | _ => if key.eventType = eventType ∧ key.pid = pid ∧ key.errorCode = code then r.count
        else 0 := by
  have herrors := incTotal_errorsCounter hfor eventType pid hcode
  have hcalls : CounterFamily.cudaErrors ≠ callsFamily key.eventType :=
    (callsFamily_ne (by decide) (by decide) key.eventType).symm
  cases r with
  | ring ev =>
    rw [← herrors]
    simp [Record.incs, Record.count, eventIncs, hcalls, incTotal_optInc]
  | aggregated _ perCpu =>
    rw [← herrors]
    simp [Record.incs, Record.count, aggIncs, hcalls, incTotal_optInc, incTotal_bucketIncs_of_ne]
  | nccl _ perCpu =>
    rw [← herrors]
    simp [Record.incs, Record.count, ncclIncs, hcalls, incTotal_optInc, incTotal_bucketIncs_of_ne]
  | launch _ perCpu =>
    unfold Record.incs launchIncs
    cases hl.kernelHistLabels <;> cases mode <;>
      simp [launchHistIncs, hcalls, incTotal_optInc, incTotal_bucketIncs_of_ne]

end ErrorShares

/-- Every item but a drained launch counts for its own operation, process and code. -/
def errorShares (E : CacheEnv → Prop) (eventType : EventType) (pid : U32) {code : U32}
    (hcode : code ≠ 0) : Shares E (errorsOf eventType pid code) where
  agg key val :=
    if key.eventType = eventType ∧ key.pid = pid ∧ key.errorCode = code then val.count else 0
  launch _ _ := 0
  nccl key val :=
    if key.eventType = eventType ∧ key.pid = pid ∧ key.errorCode = code then val.count else 0
  event ev :=
    if ev.eventType = eventType ∧ ev.pid = pid ∧ ev.errorCode = code then 1 else 0
  zero := ⟨fun _ => ite_self _, fun _ => rfl, fun _ => ite_self _⟩
  incs r mode key' hl hsame hfor := by
    refine (incTotal_errors hfor eventType pid hcode mode r).trans ?_
    rw [hsame.eventType, hsame.pid, hsame.errorCode]
    cases r with
    | ring ev => rfl
    | launch key perCpu => simp [Record.share]
    | _ => simp only [Record.share, sum_map_ite]; rfl

/-! ## Failed calls -/

/-- A completed call of the operation and the process that returned the code. -/
def Completed.failedWith (eventType : EventType) (pid code : U32) (r : Completed n) : Bool :=
  r.call.probe.eventType = eventType ∧ r.ctx.pid = pid ∧ r.ctx.returnCode = code

/-- The record of the call has room for a return code. -/
def Completed.keepsCode (r : Completed n) : Bool :=
  r.call.probe.eventType ≠ .cudaLaunchKernel ∧ r.call.probe.isModuleGetFunction = false

/-- Without detailed tracing a launch never counts as an error. -/
theorem ofReturn_errors_launch (hd : args.detailedLaunches = false) {r : Completed n}
    {entry : EntryData} (h : r.recorded = some entry)
    (hentry : entry.eventType = .cudaLaunchKernel) (eventType : EventType) (pid : U32) {code : U32}
    (hcode : code ≠ 0) : (errorShares E eventType pid hcode).ofReturn args r = 0 := by
  have hagg : profiIsAggregatable .cudaLaunchKernel = false := rfl
  have hnccl : profiIsNcclEvent .cudaLaunchKernel = false := rfl
  rw [Shares.ofReturn_of_some _ h]
  simp [hentry, hagg, hnccl, hd, errorShares, Completed.toRing, Bpf.ringBound]

/-- Any other recorded call counts for its own operation, process and code, whichever way its
    record takes. -/
theorem ofReturn_errors_other {r : Completed n} {entry : EntryData} (h : r.recorded = some entry)
    (hentry : entry.eventType ≠ .cudaLaunchKernel) (hmul : r.sampleMul = 1)
    (eventType : EventType) (pid : U32) {code : U32} (hcode : code ≠ 0) :
    (errorShares E eventType pid hcode).ofReturn args r =
      if entry.eventType = eventType ∧ r.ctx.pid = pid ∧ r.ctx.returnCode = code then 1 else 0 := by
  have hone := Completed.count_aggItem hmul entry
  have hone' : (NcclAggValue.add 0 (r.ncclItem entry)).count = 1 := rfl
  rw [Shares.ofReturn_of_some _ h]
  -- three ways out of `emit_exit` keep the return code; `LAUNCH_AGG` is the fourth
  cases hagg : profiIsAggregatable entry.eventType with
  | true =>
    simp [hagg, not_nccl_of_aggregatable hagg, hentry, hone, errorShares, Completed.toRing,
      Bpf.ringBound, Completed.aggKey, Bpf.aggKey]
  | false =>
    cases hnccl : profiIsNcclEvent entry.eventType with
    | true =>
      simp [hagg, hnccl, hentry, hone', errorShares, Completed.toRing, Bpf.ringBound,
        Completed.ncclKey, Bpf.ncclKey]
    | false =>
      simp [hagg, hnccl, hentry, errorShares, Completed.toRing, Bpf.ringBound, Completed.event,
        Bpf.cudaEventIn]

theorem ofReturn_errors (hd : args.detailedLaunches = false) {r : Completed n}
    (hr : r.RecordedOnce) (eventType : EventType) (pid : U32) {code : U32} (hcode : code ≠ 0) :
    (errorShares E eventType pid hcode).ofReturn args r =
      if r.failedWith eventType pid code = true ∧ r.keepsCode = true then 1 else 0 := by
  have hrec := hr.recorded
  cases hmgf : r.call.probe.isModuleGetFunction with
  | true =>
    rw [hmgf, if_pos rfl] at hrec
    rw [Shares.ofReturn_of_none _ hrec]
    simp [Completed.keepsCode, hmgf]
  | false =>
    rw [hmgf, if_neg (by simp)] at hrec
    by_cases hlaunch : r.call.probe.eventType = .cudaLaunchKernel
    · rw [ofReturn_errors_launch hd hrec (hr.eventType.trans hlaunch)]
      simp [Completed.keepsCode, hlaunch]
    · rw [ofReturn_errors_other hrec (by rw [hr.eventType]; exact hlaunch) hr.sampleMul,
        hr.eventType]
      simp [Completed.failedWith, Completed.keepsCode, hmgf, hlaunch]

/-- **Errors.** In every orderly run without sampling and detailed tracing, after the last
    batches and ticks and below the handle limit: the failures of an operation of a process
    with a code are all counted iff none of them is a kernel launch or a
    `cuModuleGetFunction`. -/
theorem errors_counted_iff (hrate : args.sampleRate ≤ 1) (hd : args.detailedLaunches = false)
    (eventType : EventType) (pid : U32) {code : U32} (hcode : code ≠ 0) {es fs : List (Event n)}
    (hes : Sys.Permitted args (Orderly args) (es ++ fs))
    (hclose : Closing args (Sys.run args n es) fs)
    (hdrops : (Sys.run args n (es ++ fs)).loop.metrics.cardinalityDrops = 0) :
    (errorsOf eventType pid code).val (Sys.run args n (es ++ fs)).loop.metrics =
        (Sys.run args n (es ++ fs)).hist.returns.countP (·.failedWith eventType pid code) ↔
      ∀ r ∈ (Sys.run args n (es ++ fs)).hist.returns, r.failedWith eventType pid code = true →
        r.call.probe.eventType ≠ .cudaLaunchKernel ∧
          r.call.probe.isModuleGetFunction = false := by
  -- what is exported counts the failed calls whose record has a return code
  have hcount := exported_eq_countP (errorShares (fun _ => True) eventType pid hcode)
    (fun _ e _ => by cases e <;> trivial) (fun _ e hc _ => undisturbed_total _ _ hc e)
    (fun _ _ h => h.absorbed (fun _ => ite_eq_mul _ _)
      (fun _ => ⟨0, fun _ => (Nat.zero_mul _).symm⟩) (fun _ => ite_eq_mul _ _))
    hes hclose.settled_run hdrops
    (p := fun r => r.failedWith eventType pid code && r.keepsCode) fun r hr => by
      rw [ofReturn_errors hd (returns_recordedOnce hrate hes r hr)]
      simp only [Bool.and_eq_true]
  rw [hcount, countP_and_eq_iff]
  simp [Completed.keepsCode]

/-- Thread 7 of process 7 fails to copy 64 bytes to the device. -/
def failedCopy : List (Event 1) :=
  [.enter (.cudaMemcpy 64 1) (Sys.bareCtx 0x700000007 100 0),
    .ret (Sys.bareCtx 0x700000007 200 2)]

theorem errors_counted_iff_copy :
    (errorsOf .cudaMemcpy 7 2).val
        (Sys.run {} 1 (failedCopy ++ lastDrain)).loop.metrics = 1 := by
  have hspace : Sys.Permitted {} WithSpace (failedCopy ++ lastDrain) := by decide
  refine (errors_counted_iff (by decide) rfl .cudaMemcpy 7 (by decide)
    (hspace.mono fun _ _ h => h.orderly) ?_ (by decide)).mpr ?_
  · exact ⟨by simp [lastDrain, Event.isAggTick, Event.isConsume], by decide, by decide,
      by decide, by decide⟩
  · decide

/-- Thread 7 of process 7 fails to launch a kernel. -/
def failedLaunch : List (Event 1) :=
  [.enter (.cudaLaunchKernel 0x401000) (Sys.bareCtx 0x700000007 100 0),
    .ret (Sys.bareCtx 0x700000007 200 98)]

/-- The failed launch is exported as a call and as no error. -/
theorem failed_launch_not_counted :
    Sys.Permitted {} WithSpace (failedLaunch ++ lastDrain) ∧
      (Sys.run {} 1 (failedLaunch ++ lastDrain)).loop.metrics.cardinalityDrops = 0 ∧
      (Sys.run {} 1 (failedLaunch ++ lastDrain)).hist.returns.countP
        (·.failedWith .cudaLaunchKernel 7 98) = 1 ∧
      (callsOf .cudaLaunchKernel 7).val
        (Sys.run {} 1 (failedLaunch ++ lastDrain)).loop.metrics = 1 ∧
      (errorsOf .cudaLaunchKernel 7 98).val
        (Sys.run {} 1 (failedLaunch ++ lastDrain)).loop.metrics = 0 := by
  refine ⟨by decide, by decide, by decide, by decide, by decide⟩

end Profi
