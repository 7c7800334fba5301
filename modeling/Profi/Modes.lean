import Profi.Ledger
import Profi.LoopCache
import Profi.Requests

/-!
# Kernel Modes

What `--kernel-mode` decides when the probes are attached, and what it does not decide when the
launches are counted. `Sys.step` runs the programs of every function; `Sys.stepProbed` only those
that `main` attaches in the mode of the arguments.

`cudaLaunchKernel` is attached in every mode, its return program always counts in `LAUNCH_AGG`,
and a tick drains that map whatever the mode is. So launches are exported in mode `off` as well,
unless they find the table of handles full (`launches_unexported_iff`).
-/

namespace Profi

variable {n : ℕ}

/-! ## Attached probes -/

/-- Whether `main` attaches the probes of a function. The profile decides about some of the
    others; none of them is a launch. -/
def Probe.attached (kernelMode : KernelMode) : Probe → Bool
  | .cuModuleGetFunction _ _ => kernelMode = .full
  | .cuLaunchKernel _ | .cuLaunchKernelEx _ | .cuLaunchCooperativeKernel _ | .cuGraphLaunch _ _
  | .cuModuleLoadData => kernelMode ≠ .off
  | _ => true

namespace Sys

/-- A thread enters a function without probes. -/
def pass (s : Sys n) (p : Probe) (ctx : Ctx n) : Sys n :=
  { s with stack := Function.update s.stack ctx.pidTgid (s.opened p ctx :: s.stack ctx.pidTgid) }

/-- A thread returns from a function without probes. -/
def passRet (s : Sys n) (ctx : Ctx n) : Sys n :=
  { s with stack := Function.update s.stack ctx.pidTgid (s.stack ctx.pidTgid).tail }

/-- A step of the profiler with the probes of the mode. -/
def stepProbed (args : Args) (s : Sys n) : Event n → Sys n
  | .enter p ctx =>
    if p.attached args.kernelMode then s.step args (.enter p ctx) else s.pass p ctx
  | .ret ctx =>
    if (s.stack ctx.pidTgid).head?.all (·.probe.attached args.kernelMode) then
      s.step args (.ret ctx)
    else s.passRet ctx
  -- registrations are probed and symbols resolved in full mode only
  | .registerFunction ctx hostFun devName =>
    if args.kernelMode = .full then s.step args (.registerFunction ctx hostFun devName) else s
  | .nameKernel pid addr name =>
    if args.kernelMode = .full then s.step args (.nameKernel pid addr name) else s
  | e => s.step args e

/-- The state reached by a run from the start. -/
def runProbed (args : Args) (n : ℕ) (es : List (Event n)) : Sys n :=
  Runs.run (stepProbed args) (Sys.init n args) es

variable {args : Args}

/-- A step runs as if all probes were attached, or only moves a thread. -/
theorem stepProbed_cases (args : Args) (s : Sys n) (e : Event n) :
    s.stepProbed args e = s.step args e ∨
      (∃ stack, s.stepProbed args e = { s with stack }) ∧ s.handled args e = (s.loop, ∅) ∧
        s.records args e = [] := by
  cases e with
  | enter p ctx =>
    unfold stepProbed
    simp only
    split
    · exact .inl rfl
    · exact .inr ⟨⟨_, rfl⟩, rfl, rfl⟩
  | ret ctx =>
    unfold stepProbed
    simp only
    split
    · exact .inl rfl
    · exact .inr ⟨⟨_, rfl⟩, rfl, rfl⟩
  | registerFunction ctx hostFun devName =>
    unfold stepProbed
    simp only
    split
    · exact .inl rfl
    · exact .inr ⟨⟨s.stack, rfl⟩, rfl, rfl⟩
  | nameKernel pid addr name =>
    unfold stepProbed
    simp only
    split
    · exact .inl rfl
    · exact .inr ⟨⟨s.stack, rfl⟩, rfl, rfl⟩
  | _ => exact .inl rfl

/-- What every step keeps, and the stack does not matter for, is kept with any set of probes. -/
theorem stepProbed_invariant {I : Sys n → Prop} (hstep : ∀ s e, I s → I (s.step args e))
    (hstack : ∀ s stack, I s → I { s with stack }) {s : Sys n} (h : I s) (e : Event n) :
    I (s.stepProbed args e) := by
  rcases stepProbed_cases args s e with heq | ⟨⟨stack, heq⟩, -, -⟩
  · rw [heq]
    exact hstep s e h
  · rw [heq]
    exact hstack s stack h

theorem stepProbed_handled (args : Args) (s : Sys n) (e : Event n) :
    (s.handled args e).1.SameSeries (s.stepProbed args e).loop := by
  rcases stepProbed_cases args s e with heq | ⟨⟨stack, heq⟩, hhandled, -⟩
  · rw [heq]
    exact s.step_handled args e
  · rw [heq, hhandled]
    exact .refl _

end Sys

/-! ## Handles for launches -/

namespace Loop

variable {args : Args} {env : LoopEnv}

/-- No cached handle is for a launch. -/
def LaunchFree (l : Loop) : Prop := ∀ k ∈ l.cache.handles, k.eventType ≠ .cudaLaunchKernel

/-- A launch is counted through a handle that is there already. -/
def FallsBack (args : Args) (env : LoopEnv) (x : Loop × MemDelta) (r : Record) : Prop :=
  r.metricKey.eventType = .cudaLaunchKernel → r.count ≠ 0 →
    (x.1.cache.handleFor env.cacheEnv args.limits r.metricKey).2 = false

instance (args : Args) (env : LoopEnv) (x : Loop × MemDelta) (r : Record) :
    Decidable (FallsBack args env x r) :=
  inferInstanceAs (Decidable (_ → _))

theorem launchFree_processRecord {x : Loop × MemDelta} (hx : x.1.LaunchFree) (r : Record) :
    (processRecord args env x r).1.LaunchFree ↔ FallsBack args env x r := by
  cases hrequest : r.request with
  | none =>
    rw [processRecord_of_none args env hrequest]
    refine iff_of_true hx fun _ hcount => ?_
    exact absurd (Record.request_eq_some.mpr ⟨hcount, rfl⟩) (by simp [hrequest])
  | some key =>
    obtain ⟨hcount, rfl⟩ := Record.request_eq_some.mp hrequest
    unfold LaunchFree FallsBack
    rw [processRecord_handles hrequest]
    cases hmade : (x.1.cache.handleFor env.cacheEnv args.limits r.metricKey).2 with
    | false =>
      simp only [Bool.false_eq_true, ↓reduceIte, implies_true, iff_true]
      exact hx
    | true =>
      -- the handle that is made is of the kind that is asked for
      have htype : (x.1.cache.handleFor env.cacheEnv args.limits r.metricKey).1.eventType =
          r.metricKey.eventType := by
        rw [Cache.handleFor_made _ _ _ _ hmade]
        rfl
      simp only [↓reduceIte, AList.mem_insert, forall_eq_or_imp, htype, Bool.true_eq_false,
        imp_false, not_not]
      constructor
      · intro hall hlaunch
        exact absurd hlaunch hall.1
      · intro hnot
        exact ⟨fun hlaunch => hcount (hnot hlaunch), hx⟩

/-- Records leave the table without handles for launches if each launch falls back. -/
theorem launchFree_foldl {x : Loop × MemDelta} (hx : x.1.LaunchFree) (records : List Record) :
    (records.foldl (processRecord args env) x).1.LaunchFree ↔
      Runs.Along (processRecord args env) (FallsBack args env) x records := by
  induction records generalizing x with
  | nil => exact iff_of_true hx trivial
  | cons r records ih =>
    rw [List.foldl_cons, Runs.along_cons]
    by_cases hfree : (processRecord args env x r).1.LaunchFree
    · rw [ih hfree, ← launchFree_processRecord hx]
      exact (and_iff_right hfree).symm
    · -- a handle for a launch is not dropped by the records that follow
      refine iff_of_false (fun hend => hfree fun k hk => hend k ?_) fun h =>
        hfree ((launchFree_processRecord hx r).mpr h.1)
      exact Runs.run_invariant_of_step (I := fun x : Loop × MemDelta => k ∈ x.1.cache.handles)
        (fun _ _ => mem_processRecord) hk records

end Loop

namespace Sys

variable {args : Args} {s : Sys n} {e : Event n}

/-- No launch of the arm gets a handle of its own. -/
def NoLaunchHandle (args : Args) (s : Sys n) (e : Event n) : Prop :=
  Runs.Along (Loop.processRecord args e.env) (Loop.FallsBack args e.env) (s.armStart args e, ∅)
    (s.records args e)

instance (args : Args) (s : Sys n) (e : Event n) : Decidable (NoLaunchHandle args s e) :=
  Runs.Along.decidable _ _ _ _

/-- What an arm does before its records only evicts handles. -/
theorem armStart_evicts (args : Args) (s : Sys n) (e : Event n) :
    ∃ P, Evicts P (s.loop.metrics, s.loop.cache)
      ((s.armStart args e).metrics, (s.armStart args e).cache) := by
  cases e with
  | consume env =>
    show ∃ P, Evicts P _ ((s.loop.invalidateChanged env).metrics,
      (s.loop.invalidateChanged env).cache)
    rw [Loop.invalidateChanged_eq]
    exact ⟨_, .invalidatePids s.loop.cache env.changedPids s.loop.metrics⟩
  | aggTick env =>
    rw [armStart_aggTick]
    exact ⟨_, .refl _⟩
  | gcTick env => exact ⟨_, .gc s.loop.cache s.loop.metrics env.now _⟩
  | _ => exact ⟨_, .refl _⟩

theorem mem_of_armStart {k : MetricKey} (hk : k ∈ (s.armStart args e).cache.handles) :
    k ∈ s.loop.cache.handles := by
  obtain ⟨P, hevicts⟩ := s.armStart_evicts args e
  obtain ⟨h, hlookup⟩ := FinMap.mem_iff_lookup.mp hk
  exact FinMap.mem_iff_lookup.mpr ⟨h, ((hevicts.handles k h).mp hlookup).2⟩

theorem launchFree_step (h : s.loop.LaunchFree) :
    (s.stepProbed args e).loop.LaunchFree ↔ s.NoLaunchHandle args e := by
  have hstart : (s.armStart args e).LaunchFree := fun k hk => h k (mem_of_armStart hk)
  unfold NoLaunchHandle
  rw [← Loop.launchFree_foldl (x := (s.armStart args e, ∅)) hstart]
  unfold Loop.LaunchFree
  rw [(s.stepProbed_handled args e).cache]
  rfl

/-! ## Exported launches -/

theorem stepProbed_reaches (s : Sys n) (e : Event n) :
    s.loop.cacheState.Reaches args.limits (s.stepProbed args e).loop.cacheState := by
  rcases stepProbed_cases args s e with heq | ⟨⟨stack, heq⟩, -, -⟩
  · rw [heq]
    exact s.step_reaches e
  · rw [heq]
    exact .refl _

/-- Handles for launches are the ones with a launch counter. -/
theorem kernelCounterLabels_isSome {mode : KernelMode} {env : CacheEnv} {kernelNames : KernelNames}
    {key : MetricKey} {event : CudaEvent} :
    (handleLabels mode env kernelNames key event).kernelCounterLabels.isSome = true ↔
      key.eventType = .cudaLaunchKernel := by
  unfold handleLabels
  simp only
  split
  next hnccl => simpa using ne_launch_of_nccl hnccl
  · by_cases hlaunch : key.eventType = .cudaLaunchKernel <;> simp [hlaunch]

/-- Launches are exported exactly if there is a handle for one. -/
theorem exported_launches_iff (h : s.loop.cacheState.Owned) :
    s.loop.metrics.exported .cudaKernelLaunches = ∅ ↔ s.loop.LaunchFree := by
  rw [Set.eq_empty_iff_forall_notMem]
  constructor
  · -- a handle for a launch holds a launch counter, and held counters are exported
    intro hnone k hk hlaunch
    obtain ⟨handle, hlookup⟩ := FinMap.mem_iff_lookup.mp hk
    obtain ⟨mode, env, kernelNames, event, -, -, hlabels⟩ := (h.labels k handle hlookup).labels
    obtain ⟨labels, hsome⟩ := Option.isSome_iff_exists.mp (kernelCounterLabels_isSome.mpr hlaunch)
    rw [← hlabels] at hsome
    have howned : (CounterFamily.cudaKernelLaunches, labels) ∈
        ownedSeries k.eventType handle.labels :=
      mem_ownedSeries.mpr (.inr (.inr (.inr (.inr (.inl ⟨labels, hsome, rfl⟩)))))
    obtain ⟨c, hc⟩ := mem_ownedSeries_iff_held.mp howned
    exact hnone labels (Metrics.mem_exported.mpr (h.attached k handle hlookup _ hc).exported)
  · -- an exported launch counter is owned by a handle, which is then for a launch
    intro hfree labels hexported
    obtain ⟨i, hi⟩ := Metrics.mem_exported.mp hexported
    obtain ⟨k, handle, hlookup, howned⟩ := h.owner (.cudaKernelLaunches, labels) i rfl hi
    obtain ⟨mode, env, kernelNames, event, -, -, hlabels⟩ := (h.labels k handle hlookup).labels
    have hsome : handle.labels.kernelCounterLabels = some labels := by
      have hfamily : callsFamily k.eventType ≠ .cudaKernelLaunches := by
        unfold callsFamily
        split <;> simp
      simpa [mem_ownedSeries, hfamily.symm] using howned
    refine hfree k (FinMap.mem_iff_lookup.mpr ⟨handle, hlookup⟩) ?_
    rw [hlabels] at hsome
    exact kernelCounterLabels_isSome.mp (Option.isSome_iff_exists.mpr ⟨labels, hsome⟩)

end Sys

/-! ## What the maps are for -/

/-- The aggregate maps hold calls of the kinds they are for, and the ring such as `ring` says. -/
structure Bpf.SortedFor (ring : EventType → Prop) (b : Bpf n) : Prop where
  aggregated : ∀ k ∈ b.aggregated.slots, profiIsAggregatable k.eventType = true
  nccl : ∀ k ∈ b.ncclAgg.slots, profiIsNcclEvent k.eventType = true
  ring : ∀ event ∈ b.events.records, ring event.eventType

/-- Launches are neither in `AGGREGATED` nor in `NCCL_AGG` nor in the ring. -/
abbrev Bpf.Sorted (b : Bpf n) : Prop := b.SortedFor (· ≠ .cudaLaunchKernel)

namespace Bpf.SortedFor

variable {ring : EventType → Prop} {b : Bpf n}

theorem init (n : ℕ) (args : Args) : (Bpf.init n args).SortedFor ring where
  aggregated k hk := absurd hk (AList.notMem_empty k)
  nccl k hk := absurd hk (AList.notMem_empty k)
  ring event hevent := by cases hevent

/-- A record goes where its kind belongs. -/
theorem record (h : b.SortedFor ring) (ctx : Ctx n) (entry : EntryData)
    (hring : b.toRing ctx entry = true → ring entry.eventType) :
    (b.record ctx entry).SortedFor ring where
  aggregated := by
    rw [Bpf.record_aggregated]
    split
    next hkind =>
      rw [Bpf.recordAggregated_eq]
      exact PerCpuMap.forall_mem_accumulate hkind h.aggregated
    · exact h.aggregated
  nccl := by
    rw [Bpf.record_ncclAgg]
    split
    next hkind =>
      rw [Bpf.recordNccl_eq]
      exact PerCpuMap.forall_mem_accumulate hkind h.nccl
    · exact h.nccl
  ring := by
    rw [Bpf.record_events]
    split
    next htoRing =>
      unfold Bpf.submitEvent RingBuf.submit
      split
      next events hsubmit =>
        split at hsubmit
        · cases hsubmit
          intro event hevent
          rcases List.mem_append.mp hevent with hold | hnew
          · exact h.ring event hold
          · rw [List.mem_singleton.mp hnew]
            exact hring htoRing
        · cases hsubmit
      · exact h.ring
    · exact h.ring

end Bpf.SortedFor

namespace Sys

variable {args : Args}

/-- If only the kinds `ring` go to the ring, each buffer keeps to its kinds. -/
theorem sortedFor_step {ring : EventType → Prop} {s : Sys n}
    (hring : ∀ ctx entry, s.bpf.toRing ctx entry = true → ring entry.eventType)
    (h : s.bpf.SortedFor ring) (e : Event n) : (s.step args e).bpf.SortedFor ring := by
  have hsame := s.buffersSame args e
  cases e with
  | ret ctx =>
    simp only [step]
    cases hs : s.stack ctx.pidTgid with
    | nil =>
      rw [ret_nil hs]
      exact h
    | cons call rest =>
      have hrecord : (s.bpf.recordOpt ctx (call.probe.recorded s.bpf ctx)).SortedFor ring := by
        cases call.probe.recorded s.bpf ctx with
        | none => exact h
        | some entry => exact h.record ctx entry (hring ctx entry)
      rw [ret_cons hs]
      rw [Probe.exit_eq]
      exact ⟨hrecord.aggregated, hrecord.nccl, hrecord.ring⟩
  -- a batch and a drain only take away
  | consume env =>
    simp only [step]
    rw [consume_bpf]
    exact ⟨h.aggregated, h.nccl, fun event hevent => h.ring event (List.mem_of_mem_drop hevent)⟩
  | aggTick env =>
    simp only [step]
    rw [aggTick_bpf]
    exact ⟨fun k hk => h.aggregated k (mem_of_mem_undrained hk),
      fun k hk => h.nccl k (mem_of_mem_undrained hk), h.ring⟩
  | _ =>
    have hsame := hsame rfl
    exact ⟨hsame.aggregated ▸ h.aggregated, hsame.ncclAgg ▸ h.nccl, hsame.events ▸ h.ring⟩

theorem sorted_step (hdetailed : args.detailedLaunches = false) {s : Sys n}
    (hconfig : ConfigOk args s.bpf) (h : s.bpf.Sorted) (e : Event n) :
    (s.step args e).bpf.Sorted := by
  refine sortedFor_step ?_ h e
  intro ctx entry htoRing hlaunch
  -- launches are submitted with detailed tracing only
  simp [Bpf.toRing, Bpf.ringBound, hlaunch, Bpf.launchToRing, hconfig.detailedLaunches, hdetailed]
    at htoRing

/-! ## Launches without a series -/

/-- The loop when a tick has handled the rows of `AGGREGATED`. -/
def afterAggregated (args : Args) (s : Sys n) (env : LoopEnv) : Loop × MemDelta :=
  ((drained env.aggOrder s.bpf.aggregated).map fun kv => Record.aggregated kv.1 kv.2).foldl
    (Loop.processRecord args env) (s.armStart args (.aggTick env), ∅)

/-- A tick that finds launches in `LAUNCH_AGG` has no room for another handle, and has one of
    their processes already. -/
def LaunchesAbsorbed (args : Args) (s : Sys n) : Event n → Prop
  | .aggTick env =>
    let handles := (s.afterAggregated args env).1.cache.handles
    ∀ kv ∈ drained env.launchOrder s.bpf.launchAgg, (kv.2.map (·.count)).sum ≠ 0 →
      args.maxTimeSeries ≤ handles.size ∧ ∃ k ∈ handles, k.pid = kv.1.pid
  | _ => True

end Sys

namespace Loop

variable {args : Args} {env : LoopEnv}

/-- Records of other kinds say nothing about launches. -/
theorem along_fallsBack_of_ne {records : List Record}
    (h : ∀ r ∈ records, r.metricKey.eventType ≠ .cudaLaunchKernel) (x : Loop × MemDelta) :
    Runs.Along (processRecord args env) (FallsBack args env) x records :=
  (Runs.along_of_forall h x).mono fun _ _ hne hlaunch => absurd hlaunch hne

/-- The rows of `LAUNCH_AGG` all fall back if the table they find first lets them. -/
theorem along_fallsBack_launch {x : Loop × MemDelta} (hx : x.1.LaunchFree)
    (rows : List (LaunchKey × List LaunchAggValue)) :
    Runs.Along (processRecord args env) (FallsBack args env) x
        (rows.map fun kv => .launch kv.1 kv.2) ↔
      ∀ kv ∈ rows, (kv.2.map (·.count)).sum ≠ 0 →
        args.maxTimeSeries ≤ x.1.cache.handles.size ∧
          ∃ k ∈ x.1.cache.handles, k.pid = kv.1.pid := by
  induction rows generalizing x with
  | nil => simp
  | cons kv rows ih =>
    have hfresh : (x.1.cache.collapseKey args.limits kv.1.metricKey).1 ∉ x.1.cache.handles :=
      fun hmem => hx _ hmem rfl
    have hhead : FallsBack args env x (.launch kv.1 kv.2) ↔
        ((kv.2.map (·.count)).sum ≠ 0 → args.maxTimeSeries ≤ x.1.cache.handles.size ∧
          ∃ k ∈ x.1.cache.handles, k.pid = kv.1.pid) :=
      (forall_prop_of_true rfl).trans
        (imp_congr_right fun _ => x.1.cache.handleFor_notMade_iff env.cacheEnv _ _ hfresh)
    rw [List.map_cons, Runs.along_cons, List.forall_mem_cons, ← hhead]
    refine and_congr_right fun hfalls => ?_
    -- a launch that falls back leaves the table as it is
    have hsame : (processRecord args env x (.launch kv.1 kv.2)).1.cache.handles =
        x.1.cache.handles := by
      cases hrequest : (Record.launch kv.1 kv.2).request with
      | none => rw [processRecord_of_none args env hrequest]
      | some key =>
        obtain ⟨hcount, rfl⟩ := Record.request_eq_some.mp hrequest
        rw [processRecord_handles hrequest, hfalls rfl hcount]
        rfl
    rw [ih ((launchFree_processRecord hx _).mpr hfalls), hsame]

end Loop

namespace Sys

variable {args : Args}

/-- Without detailed tracing, launches only come from `LAUNCH_AGG`. -/
theorem noLaunchHandle_iff (hdetailed : args.detailedLaunches = false) {s : Sys n}
    (hsorted : s.bpf.Sorted) (hfree : s.loop.LaunchFree) (e : Event n) :
    s.NoLaunchHandle args e ↔ s.LaunchesAbsorbed args e := by
  have hstart : (s.armStart args e).LaunchFree := fun k hk => hfree k (mem_of_armStart hk)
  cases e with
  | consume env =>
    refine iff_of_true (Loop.along_fallsBack_of_ne (fun r hr => ?_) _) trivial
    obtain ⟨event, hevent, rfl⟩ := List.mem_map.mp hr
    exact hsorted.ring event (List.mem_of_mem_take hevent)
  | aggTick env =>
    -- of the three maps a tick drains, only `LAUNCH_AGG` has launches
    have hagg : ∀ r ∈ (drained env.aggOrder s.bpf.aggregated).map
        (fun kv => Record.aggregated kv.1 kv.2), r.metricKey.eventType ≠ .cudaLaunchKernel := by
      intro r hr
      obtain ⟨kv, hkv, rfl⟩ := List.mem_map.mp hr
      obtain ⟨vals, hvals, -⟩ := mem_drained hkv
      exact ne_launch_of_aggregatable
        (hsorted.aggregated kv.1 (FinMap.mem_iff_lookup.mpr ⟨vals, hvals⟩))
    have hnccl : ∀ r ∈ (drained env.ncclOrder s.bpf.ncclAgg).map
        (fun kv => Record.nccl kv.1 kv.2), r.metricKey.eventType ≠ .cudaLaunchKernel := by
      intro r hr
      obtain ⟨kv, hkv, rfl⟩ := List.mem_map.mp hr
      obtain ⟨vals, hvals, -⟩ := mem_drained hkv
      exact ne_launch_of_nccl (hsorted.nccl kv.1 (FinMap.mem_iff_lookup.mpr ⟨vals, hvals⟩))
    have hbefore : Runs.Along (Loop.processRecord args env) (Loop.FallsBack args env)
        (s.armStart args (.aggTick env), ∅) _ := Loop.along_fallsBack_of_ne hagg _
    have hmid : (s.afterAggregated args env).1.LaunchFree :=
      (Loop.launchFree_foldl hstart _).mpr hbefore
    unfold NoLaunchHandle records tickRecords
    simp only [hdetailed, Bool.false_eq_true, ↓reduceIte, Event.env]
    rw [Runs.along_append, Runs.along_append, and_iff_left (Loop.along_fallsBack_of_ne hnccl _),
      and_iff_right hbefore]
    exact Loop.along_fallsBack_launch hmid _
  | _ => exact iff_of_true trivial trivial

/-- Without detailed tracing, no launch is ever exported exactly if every tick that drains
    launches is out of room for handles and has one of their processes. -/
theorem launches_unexported_iff (args : Args) (hdetailed : args.detailedLaunches = false)
    (es : List (Event n)) :
    (∀ k, (runProbed args n (es.take k)).loop.metrics.exported .cudaKernelLaunches = ∅) ↔
      Runs.Along (stepProbed args) (LaunchesAbsorbed args) (Sys.init n args) es := by
  -- what says which launches are exported and where they come from is kept by every step
  have hinv : ∀ (s : Sys n) e, (s.loop.cacheState.Owned ∧ ConfigOk args s.bpf ∧ s.bpf.Sorted) →
      (s.stepProbed args e).loop.cacheState.Owned ∧ ConfigOk args (s.stepProbed args e).bpf ∧
        (s.stepProbed args e).bpf.Sorted := by
    rintro s e ⟨howned, hbpf⟩
    refine ⟨(s.stepProbed_reaches e).owned howned, ?_⟩
    refine stepProbed_invariant (I := fun s : Sys n => ConfigOk args s.bpf ∧ s.bpf.Sorted) ?_
      (fun _ _ h => h) hbpf e
    rintro s e ⟨hconfig, hsorted⟩
    exact ⟨configOk_step hconfig e, sorted_step hdetailed hconfig hsorted e⟩
  have howned : (Sys.init n args).loop.cacheState.Owned := CacheState.owned_init args.kernelMode
  refine Runs.forall_take_iff_along (P := fun _ _ => True)
    (J := fun s => s.loop.metrics.exported .cudaKernelLaunches = ∅)
    (fun s e h _ => hinv s e h) ?_ ⟨howned, configOk_init args, .init n args⟩ ?_
    (Runs.along_true _ _ _)
  · rintro s e h - hnone
    have hfree := (exported_launches_iff h.1).mp hnone
    rw [exported_launches_iff (hinv s e h).1, launchFree_step hfree,
      noLaunchHandle_iff hdetailed h.2.2 hfree]
  · rw [exported_launches_iff howned]
    exact fun k hk => absurd hk (AList.notMem_empty k)

/-- A copy exports no launch. -/
theorem launches_unexported_copy :
    let args : Args := { kernelMode := .off }
    let es : List (Event 1) :=
      [.enter (.cudaMemcpy 64 1) (bareCtx 0x700000007 100 0), .ret (bareCtx 0x700000007 200 0),
        .aggTick .bare]
    args.detailedLaunches = false ∧
      ∀ k, (runProbed args 1 (es.take k)).loop.metrics.exported .cudaKernelLaunches = ∅ := by
  intro args es
  refine ⟨rfl, (launches_unexported_iff args rfl es).mpr ⟨trivial, trivial, ?_, trivial⟩⟩
  intro kv hkv
  cases hkv

/-- A launch in mode `off`: its probe is attached, and the next tick exports it. -/
theorem launch_exported_in_off :
    let args : Args := { kernelMode := .off }
    let es : List (Event 1) :=
      [.enter (.cudaLaunchKernel 0x401000) (bareCtx 0x700000007 100 0),
        .ret (bareCtx 0x700000007 200 0), .aggTick .bare]
    let s := runProbed args 1 es
    args.detailedLaunches = false ∧ s.bpf.upgradedPids.keys = [] ∧
      s.loop.metrics.counterAt (.cudaKernelLaunches,
        ["unknown_0x401000", "7", "unknown", "", "", "", "", "", "other", ""]) = some 1 := by
  decide +kernel

end Sys

end Profi
