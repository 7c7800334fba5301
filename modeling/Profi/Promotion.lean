import Profi.Modes

/-!
# Promotion is not Full Mode

The kernel duration families are created, the registrations are probed and the symbols are
resolved by the mode of the cluster. A promoted process only has its launches counted by address.
So under `anonymous` a promoted process never gets a kernel duration series, while in full mode
every handle for a launch comes with one: the two configurations export the same launches and
durations exactly as long as neither makes a handle for a launch (`promotion_iff`).
-/

namespace Profi

variable {n : ℕ}

/-! ## Kernel durations -/

/-- The counters that go with the kernel duration histogram. -/
def kernelDurationFamilies : List CounterFamily :=
  [.cudaKernelDurationBucketTotal, .cudaKernelDurationSumSecondsTotal,
    .cudaKernelDurationCountTotal]

namespace Metrics

/-- No kernel durations are exported. -/
structure NoDurations (m : Metrics) : Prop where
  counters : ∀ family ∈ kernelDurationFamilies, ∀ labels, m.counterIndex (family, labels) = none
  histograms : ∀ labels, m.histogramIndex (.cudaKernelDuration, labels) = none

theorem NoDurations.drops {C : Set (CounterFamily × List String)}
    {H : Set (HistogramFamily × List String)} {m m' : Metrics} (h : m.NoDurations)
    (hdrops : Drops C H m m') : m'.NoDurations where
  counters family hfamily labels := by
    by_cases hx : (family, labels) ∈ C
    · exact hdrops.lostCounters _ hx
    · exact (hdrops.keptCounters _ hx).trans (h.counters family hfamily labels)
  histograms labels := by
    by_cases hx : (HistogramFamily.cudaKernelDuration, labels) ∈ H
    · exact hdrops.lostHistograms _ hx
    · exact (hdrops.keptHistograms _ hx).trans (h.histograms labels)

/-- The duration counters of an operation are none of the kernel durations. -/
theorem durationSeries_other {eventType : EventType} {l : HandleLabels}
    {x : CounterFamily × List String} (hx : x ∈ durationSeries eventType l) :
    x.1 ∉ kernelDurationFamilies := by
  have hother : ∀ {bucket sum count : CounterFamily} {leValues labels : List String},
      bucket ∉ kernelDurationFamilies → sum ∉ kernelDurationFamilies →
      count ∉ kernelDurationFamilies →
      x ∈ durationCounters bucket sum count leValues labels → x.1 ∉ kernelDurationFamilies := by
    intro bucket sum count leValues labels hbucket hsum hcount hx
    simp only [durationCounters, List.mem_append, List.mem_map, List.mem_cons, List.not_mem_nil,
      or_false] at hx
    rcases hx with ⟨le, -, rfl⟩ | rfl | rfl
    · exact hbucket
    · exact hsum
    · exact hcount
  unfold durationSeries at hx
  split at hx
  · exact hother (by decide) (by decide) (by decide) hx
  · exact hother (by decide) (by decide) (by decide) hx

/-- The same kernel durations are exported. -/
structure SameDurations (m m' : Metrics) : Prop where
  kernelMode : m'.kernelMode = m.kernelMode
  counters : ∀ family ∈ kernelDurationFamilies, ∀ labels,
    m'.counterIndex (family, labels) = m.counterIndex (family, labels)
  histograms : ∀ labels,
    m'.histogramIndex (.cudaKernelDuration, labels) = m.histogramIndex (.cudaKernelDuration, labels)

namespace SameDurations

variable {m m' m'' : Metrics}

theorem refl (m : Metrics) : m.SameDurations m := ⟨rfl, fun _ _ _ => rfl, fun _ => rfl⟩

theorem trans (h : m.SameDurations m') (h' : m'.SameDurations m'') : m.SameDurations m'' where
  kernelMode := h'.kernelMode.trans h.kernelMode
  counters family hfamily labels :=
    (h'.counters family hfamily labels).trans (h.counters family hfamily labels)
  histograms labels := (h'.histograms labels).trans (h.histograms labels)

theorem noDurations (h : m.SameDurations m') (hm : m.NoDurations) : m'.NoDurations where
  counters family hfamily labels :=
    (h.counters family hfamily labels).trans (hm.counters family hfamily labels)
  histograms labels := (h.histograms labels).trans (hm.histograms labels)

theorem of_eq (hmode : m'.kernelMode = m.kernelMode) (hcounters : m'.counters = m.counters)
    (hhistograms : m'.histograms = m.histograms) : m.SameDurations m' where
  kernelMode := hmode
  counters family _ labels := by rw [counterIndex, hcounters, counterIndex]
  histograms labels := by rw [histogramIndex, hhistograms, histogramIndex]

/-- Increments through a held counter change no series. -/
theorem incBy (h : m.SameDurations m') (c : CounterRef) (x : ℕ) :
    m.SameDurations (m'.incBy c x) :=
  h.trans ⟨rfl, fun _ _ _ => m'.counterIndex_incBy c x _, fun _ => rfl⟩

theorem observe (h : m.SameDurations m') (r : HistogramRef) (durationNs : U64) :
    m.SameDurations (m'.observe r durationNs) :=
  h.trans ⟨rfl, fun _ _ _ => rfl, fun _ => m'.histogramIndex_observe r durationNs _⟩

section Other

variable {family : CounterFamily} (hother : family ∉ kernelDurationFamilies)

include hother

/-- A counter of another family is none of the kernel durations. -/
theorem counter (h : m.SameDurations m') (labels : List String) :
    m.SameDurations (m'.counter family labels).2 := by
  refine h.trans ⟨rfl, fun family' hfamily' l => ?_, fun _ => rfl⟩
  have hne : family' ≠ family := by
    rintro rfl
    exact hother hfamily'
  simp only [counterIndex, Metrics.counter, Function.update_of_ne hne]

theorem counterOpt (h : m.SameDurations m') (labels : Option (List String)) :
    m.SameDurations (m'.counterOpt family labels).2 := by
  cases labels with
  | none => exact h
  | some labels => exact counter hother h labels

theorem incLabels (h : m.SameDurations m') (labels : List String) (x : ℕ) :
    m.SameDurations (m'.incLabels family labels x) :=
  (counter hother h labels).incBy _ x

end Other

theorem histogram (h : m.SameDurations m') {family : HistogramFamily}
    (hother : family ≠ .cudaKernelDuration) (labels : List String) :
    m.SameDurations (m'.histogram family labels).2 := by
  refine h.trans ⟨rfl, fun _ _ _ => rfl, fun l => ?_⟩
  simp only [histogramIndex, Metrics.histogram, Function.update_of_ne hother.symm]

/-- What is counted for a record is no kernel duration, unless it is counted in full mode through
    a handle that has the labels. -/
theorem write (m : Metrics) (h : CachedHandles) (r : Record)
    (hnone : h.labels.kernelHistLabels = none ∨ m.kernelMode ≠ .full) :
    m.SameDurations (r.write m h) := by
  have hkernel : kernelSeries m.kernelMode h.labels = [] := by
    unfold kernelSeries
    rcases hnone with hnone | hmode
    · rw [hnone]
      exact ite_self _
    · exact if_neg hmode
  refine r.write_invariant (I := m.SameDurations) ?_ (refl m)
  intro m' w hm' hcounts
  cases w with
  | incBy c x => exact hm'.incBy c x
  | observe r durationNs => exact hm'.observe r durationNs
  | incLabels family hfamily labels x =>
    refine incLabels ?_ hm' labels x
    rcases hcounts with ⟨eventType, hseries⟩ | hseries
    · exact durationSeries_other hseries
    · rw [hkernel] at hseries
      cases hseries
  | setTrackedPids x => exact hcounts.elim
  | setActiveMemory labels bytes => exact hcounts.elim

/-- A handle without labels for kernel durations is made without their series. -/
theorem createHandles (m : Metrics) (eventType : EventType) {l : HandleLabels}
    (hnone : l.kernelHistLabels = none) : m.SameDurations (createHandles m eventType l).2 := by
  have hcalls : callsFamily eventType ∉ kernelDurationFamilies := by
    unfold callsFamily
    split <;> decide
  have hduration : durationFamily eventType ≠ .cudaKernelDuration := by
    unfold durationFamily
    split <;> decide
  have h₁ := (counter hcalls (refl m) l.callsLabels).histogram hduration l.histLabels
  have h₂ := @counterOpt _ _ .ncclBytes (by decide) h₁ l.ncclBytesLabels
  have h₃ := @counterOpt _ _ .cudaMemcpyBytes (by decide) h₂ l.memcpyLabels
  have h₄ := @counterOpt _ _ .cudaMallocBytes (by decide) h₃ l.mallocLabels
  have h₅ := @counterOpt _ _ .cudaKernelLaunches (by decide) h₄ l.kernelCounterLabels
  have h₆ := @counterOpt _ _ .cudaErrors (by decide) h₅ l.errorsLabels
  unfold Profi.createHandles
  rw [hnone]
  exact h₆

end SameDurations

/-- Some kernel duration histogram is exported. -/
def HasDurations (m : Metrics) : Prop :=
  ∃ labels i, m.histogramIndex (.cudaKernelDuration, labels) = some i

theorem HasDurations.grown {C : Set (CounterFamily × List String)}
    {H : Set (HistogramFamily × List String)} {m m' : Metrics} (h : m.HasDurations)
    (hgrown : Grown C H m m') : m'.HasDurations := by
  obtain ⟨labels, i, hi⟩ := h
  exact ⟨labels, i, hgrown.histograms _ _ hi⟩

theorem HasDurations.writes {m m' : Metrics} (h : m.HasDurations) (hwrites : m.Writes m') :
    m'.HasDurations := by
  obtain ⟨ws, rfl⟩ := hwrites
  exact Runs.run_invariant_of_step (I := HasDurations) (fun m w h => h.grown (w.grown m)) h ws

end Metrics

/-- Handles for launches that are made in full mode are the ones with a kernel duration. -/
theorem kernelHistLabels_isSome {mode : KernelMode} {env : CacheEnv} {kernelNames : KernelNames}
    {key : MetricKey} {event : CudaEvent} :
    (handleLabels mode env kernelNames key event).kernelHistLabels.isSome = true ↔
      key.eventType = .cudaLaunchKernel ∧ mode = .full := by
  unfold handleLabels
  simp only
  split
  next hnccl => simpa using fun hlaunch => absurd hlaunch (ne_launch_of_nccl hnccl)
  · by_cases h : key.eventType = .cudaLaunchKernel ∧ mode = .full <;> simp [h]

/-! ## The records of an arm -/

namespace Loop

open Metrics (SameDurations)

variable {args : Args} {env : LoopEnv}

theorem touchPid_writes (l : Loop) (env : LoopEnv) (pid : U32) :
    l.metrics.Writes (l.touchPid env pid).metrics := by
  rw [touchPid_frame]
  exact .single l.metrics (.setTrackedPids _)

theorem touchPid_sameDurations (l : Loop) (env : LoopEnv) (pid : U32) :
    l.metrics.SameDurations (l.touchPid env pid).metrics := by
  rw [touchPid_frame]
  exact .of_eq rfl rfl rfl

/-- A record writes through its handle, and touches its process. -/
theorem processRecord_writes {r : Record} {key : MetricKey} (h : r.request = some key)
    (x : Loop × MemDelta) :
    let answer := x.1.getHandle args env key r.event
    ∃ l : Loop, l.metrics = r.write answer.2.metrics answer.1 ∧
      (processRecord args env x r).1 = l.touchPid env r.pid :=
  ⟨_, rfl, processRecord_of_some args env h x⟩

/-- Outside of full mode, or for another call than a launch, a request is answered without a new
    kernel duration. -/
theorem sameDurations_getHandle {l : Loop} {key : MetricKey} {event : CudaEvent}
    (hlabels : l.cacheState.LabelsOk)
    (h : l.metrics.kernelMode ≠ .full ∨ l.LaunchFree ∧ (key.eventType = .cudaLaunchKernel →
      (l.cache.handleFor env.cacheEnv args.limits key).2 = false)) :
    let r := l.getHandle args env key event
    l.metrics.SameDurations r.2.metrics ∧
      (r.1.labels.kernelHistLabels = none ∨ l.metrics.kernelMode ≠ .full) := by
  have hdrops : ∀ drops, l.metrics.SameDurations { l.metrics with cardinalityDrops := drops } :=
    fun _ => .of_eq rfl rfl rfl
  obtain ⟨drops, ⟨hmade, handle, hlookup, heq⟩ | ⟨hmade, heq⟩⟩ :=
    l.cache.getOrCreate_eq env.cacheEnv args.limits key l.metrics event l.kernelNames
  · simp only [getHandle, heq]
    refine ⟨hdrops drops, ?_⟩
    rcases h with hmode | ⟨hfree, -⟩
    · exact .inr hmode
    · -- a cached handle that is not for a launch has no labels for a kernel duration
      obtain ⟨mode, cacheEnv, names, event', -, -, hl⟩ := (hlabels _ handle hlookup).labels
      have hother := hfree _ (FinMap.mem_iff_lookup.mpr ⟨handle, hlookup⟩)
      left
      rw [hl, ← Option.not_isSome_iff_eq_none, kernelHistLabels_isSome]
      exact fun hsome => hother hsome.1
  · -- a new handle has no duration labels, by the mode or by the operation
    have hnone : (handleLabels l.metrics.kernelMode env.cacheEnv l.kernelNames
        (l.cache.handleFor env.cacheEnv args.limits key).1 event).kernelHistLabels = none := by
      rw [← Option.not_isSome_iff_eq_none, kernelHistLabels_isSome,
        Cache.handleFor_made _ _ _ _ hmade]
      rintro ⟨hlaunch, hfull⟩
      rcases h with hmode | ⟨-, hfalls⟩
      · exact hmode hfull
      · rw [hfalls hlaunch] at hmade
        cases hmade
    simp only [getHandle, heq, Cache.createHandle]
    exact ⟨(hdrops drops).trans (.createHandles _ _ hnone), .inl hnone⟩

theorem sameDurations_processRecord {x : Loop × MemDelta} {r : Record}
    (hlabels : x.1.cacheState.LabelsOk)
    (h : x.1.metrics.kernelMode ≠ .full ∨ x.1.LaunchFree ∧ FallsBack args env x r) :
    x.1.metrics.SameDurations (processRecord args env x r).1.metrics := by
  cases hrequest : r.request with
  | none =>
    rw [processRecord_of_none args env hrequest]
    exact .refl _
  | some key =>
    obtain ⟨hcount, rfl⟩ := Record.request_eq_some.mp hrequest
    obtain ⟨hget, hnone⟩ := @sameDurations_getHandle args env x.1 r.metricKey r.event hlabels
      (h.imp_right fun h => ⟨h.1, fun hlaunch => h.2 hlaunch hcount⟩)
    obtain ⟨l, hwritten, heq⟩ := @processRecord_writes args env _ _ hrequest x
    rw [heq]
    refine .trans ?_ (touchPid_sameDurations l env r.pid)
    rw [hwritten]
    rw [← hget.kernelMode] at hnone
    exact hget.trans (.write _ _ r hnone)

/-- In full mode a handle for a launch comes with a kernel duration. -/
theorem hasDurations_getHandle {l : Loop} {key : MetricKey} {event : CudaEvent}
    (hmode : l.metrics.kernelMode = .full)
    (h : l.metrics.HasDurations ∨ key.eventType = .cudaLaunchKernel ∧
      (l.cache.handleFor env.cacheEnv args.limits key).2 = true) :
    (l.getHandle args env key event).2.metrics.HasDurations := by
  obtain ⟨drops, ⟨hmade, handle, hlookup, heq⟩ | ⟨hmade, heq⟩⟩ :=
    l.cache.getOrCreate_eq env.cacheEnv args.limits key l.metrics event l.kernelNames
  · -- a hit or a fallback leaves the series alone
    simp only [getHandle, heq]
    rcases h with hold | ⟨-, hnew⟩
    · exact hold
    · rw [hmade] at hnew
      cases hnew
  · simp only [getHandle, heq, Cache.createHandle]
    have hgrown := (createHandles_grown { l.metrics with cardinalityDrops := drops }
      (l.cache.handleFor env.cacheEnv args.limits key).1.eventType
      (handleLabels l.metrics.kernelMode env.cacheEnv l.kernelNames
        (l.cache.handleFor env.cacheEnv args.limits key).1 event)).1
    -- creation removes no histogram, and makes the one of the labels
    rcases h with ⟨labels, i, hi⟩ | ⟨hlaunch, -⟩
    · exact ⟨labels, i, hgrown.histograms _ _ hi⟩
    · have htype : (l.cache.handleFor env.cacheEnv args.limits key).1.eventType =
          .cudaLaunchKernel := by
        rw [Cache.handleFor_made _ _ _ _ hmade]
        exact hlaunch
      have hmadeLabels : (handleLabels l.metrics.kernelMode env.cacheEnv l.kernelNames
          (l.cache.handleFor env.cacheEnv args.limits key).1 event).kernelHistLabels.isSome =
            true :=
        kernelHistLabels_isSome.mpr ⟨htype, hmode⟩
      obtain ⟨labels, hsome⟩ := Option.isSome_iff_exists.mp hmadeLabels
      obtain ⟨i, hi⟩ := hgrown.madeHistograms (.cudaKernelDuration, labels)
        (by simp [recordedHistograms, hsome])
      exact ⟨labels, i, hi⟩

/-- The records that follow do not remove it. -/
theorem hasDurations_processRecord {x : Loop × MemDelta} (hmode : x.1.metrics.kernelMode = .full)
    (h : x.1.LaunchFree ∨ x.1.metrics.HasDurations) (r : Record) :
    (processRecord args env x r).1.LaunchFree ∨
      (processRecord args env x r).1.metrics.HasDurations := by
  cases hrequest : r.request with
  | none =>
    rw [processRecord_of_none args env hrequest]
    exact h
  | some key =>
    obtain ⟨hcount, rfl⟩ := Record.request_eq_some.mp hrequest
    -- the writes of the record keep what its handle has
    have hserved : x.1.metrics.HasDurations ∨ r.metricKey.eventType = .cudaLaunchKernel ∧
        (x.1.cache.handleFor env.cacheEnv args.limits r.metricKey).2 = true →
        (processRecord args env x r).1.metrics.HasDurations := by
      intro hget
      have hhandle := @hasDurations_getHandle args env x.1 r.metricKey r.event hmode hget
      obtain ⟨l, hwritten, heq⟩ := @processRecord_writes args env _ _ hrequest x
      rw [heq]
      refine Metrics.HasDurations.writes ?_ (touchPid_writes l env r.pid)
      rw [hwritten]
      exact hhandle.writes (.record _ _ r)
    rcases h with hfree | hhas
    · -- a launch that does not fall back has its handle made
      by_cases hfalls : FallsBack args env x r
      · exact .inl ((launchFree_processRecord hfree r).mpr hfalls)
      · refine .inr (hserved (.inr ?_))
        by_contra hnot
        refine hfalls fun hlaunch _ => ?_
        simpa using fun hmade => hnot ⟨hlaunch, hmade⟩
    · exact .inr (hserved (.inl hhas))

end Loop

/-! ## A step -/

namespace Sys

variable {args : Args} {s : Sys n} {e : Event n}

theorem noDurations_armStart (h : s.loop.metrics.NoDurations) :
    (s.armStart args e).metrics.NoDurations := by
  obtain ⟨P, hevicts⟩ := s.armStart_evicts args e
  exact h.drops hevicts.series

/-- A step exports no kernel duration outside of full mode, and in full mode as long as no launch
    gets a handle. -/
theorem noDurations_step (hlabels : s.loop.cacheState.LabelsOk) (hno : s.loop.metrics.NoDurations)
    (h : s.loop.metrics.kernelMode ≠ .full ∨ s.loop.LaunchFree ∧ s.NoLaunchHandle args e) :
    (s.stepProbed args e).loop.metrics.NoDurations := by
  have hstart : s.loop.cacheState.Reaches args.limits (s.armStart args e).cacheState :=
    s.armStart_reaches e
  -- the condition holds of every record of the arm
  have halong : Runs.Along (Loop.processRecord args e.env)
      (fun x r => x.1.metrics.kernelMode ≠ .full ∨
        x.1.LaunchFree ∧ Loop.FallsBack args e.env x r)
      (s.armStart args e, ∅) (s.records args e) := by
    rcases h with hmode | ⟨hfree, hfalls⟩
    · have hinv := (Runs.along_true (Loop.processRecord args e.env) (s.armStart args e, ∅)
        (s.records args e)).and_invariant (I := fun x => x.1.metrics.kernelMode ≠ .full)
        (fun x r hx _ => (Loop.processRecord_reaches args e.env x r).kernelMode.trans_ne hx)
        (hstart.kernelMode.trans_ne hmode)
      exact hinv.mono fun _ _ h => .inl h.2
    · have hinv := Runs.Along.and_invariant (I := fun x : Loop × MemDelta => x.1.LaunchFree)
        (fun x r hx hr => (Loop.launchFree_processRecord hx r).mpr hr)
        (fun k hk => hfree k (mem_of_armStart hk)) hfalls
      exact hinv.mono fun _ _ h => .inr ⟨h.2, h.1⟩
  have hend := Runs.run_invariant (I := fun x : Loop × MemDelta =>
      x.1.cacheState.LabelsOk ∧ x.1.metrics.NoDurations)
    (fun x r hx hr => ⟨(Loop.processRecord_reaches args e.env x r).invariant
        (fun _ _ h hop => CacheState.labelsOk_step h hop.ofProcess) hx.1,
      (Loop.sameDurations_processRecord hx.1 hr).noDurations hx.2⟩)
    ⟨hstart.invariant (fun _ _ h hop => CacheState.labelsOk_step h hop.ofProcess) hlabels,
      noDurations_armStart hno⟩ halong
  have hsame := s.stepProbed_handled args e
  exact (Metrics.SameDurations.of_eq hsame.kernelMode hsame.counters
    hsame.histograms).noDurations hend.2

/-- In full mode a launch that gets a handle is exported with a kernel duration. -/
theorem hasDurations_step (hmode : s.loop.metrics.kernelMode = .full) (hfree : s.loop.LaunchFree) :
    (s.stepProbed args e).loop.LaunchFree ∨ (s.stepProbed args e).loop.metrics.HasDurations := by
  have hstart : (s.armStart args e).metrics.kernelMode = .full :=
    (s.armStart_reaches e).kernelMode.trans hmode
  have hend : (s.handled args e).1.metrics.kernelMode = .full ∧
      ((s.handled args e).1.LaunchFree ∨ (s.handled args e).1.metrics.HasDurations) :=
    Runs.run_invariant_of_step (I := fun x : Loop × MemDelta => x.1.metrics.kernelMode = .full ∧
        (x.1.LaunchFree ∨ x.1.metrics.HasDurations))
      (fun x r hx => ⟨(Loop.processRecord_reaches args e.env x r).kernelMode.trans hx.1,
        Loop.hasDurations_processRecord hx.1 hx.2 r⟩)
      ⟨hstart, .inl fun k hk => hfree k (mem_of_armStart hk)⟩ (s.records args e)
  have hsame := s.stepProbed_handled args e
  unfold Loop.LaunchFree Metrics.HasDurations Metrics.histogramIndex
  rw [hsame.cache, hsame.histograms]
  exact hend.2

/-! ## Both configurations -/

/-- Nothing of a launch has been exported in this mode. -/
structure Unlaunched (mode : KernelMode) (s : Sys n) : Prop where
  owned : s.loop.cacheState.Owned
  kernelMode : s.loop.metrics.kernelMode = mode
  launchFree : s.loop.LaunchFree
  noDurations : s.loop.metrics.NoDurations

theorem unlaunched_init (args : Args) : (Sys.init n args).Unlaunched args.kernelMode where
  owned := CacheState.owned_init args.kernelMode
  kernelMode := rfl
  launchFree k hk := absurd hk (AList.notMem_empty k)
  noDurations := ⟨fun _ _ _ => rfl, fun _ => rfl⟩

theorem unlaunched_step (h : s.Unlaunched args.kernelMode) (e : Event n) :
    (s.stepProbed args e).Unlaunched args.kernelMode ↔ s.NoLaunchHandle args e := by
  constructor
  · intro hnext
    exact (launchFree_step h.launchFree).mp hnext.launchFree
  · intro hnone
    exact {
      owned := (s.stepProbed_reaches e).owned h.owned
      kernelMode := (s.stepProbed_reaches e).kernelMode.trans h.kernelMode
      launchFree := (launchFree_step h.launchFree).mpr hnone
      noDurations := noDurations_step h.owned.labels h.noDurations (.inr ⟨h.launchFree, hnone⟩) }

end Sys

/-- The same launches and kernel durations are exported, with the same values. -/
structure Metrics.SameLaunches (m m' : Metrics) : Prop where
  counters : ∀ family ∈ CounterFamily.cudaKernelLaunches :: kernelDurationFamilies, ∀ labels,
    m'.counterAt (family, labels) = m.counterAt (family, labels)
  histograms : ∀ labels,
    m'.histogramAt (.cudaKernelDuration, labels) = m.histogramAt (.cudaKernelDuration, labels)

namespace Sys

variable {args : Args} {s t : Sys n}

/-- The start with processes in `UPGRADED_PIDS`. -/
def promote (s : Sys n) (upgradedPids : FinMap U32 U8) : Sys n :=
  { s with bpf := { s.bpf with upgradedPids } }

theorem Unlaunched.counterAt {mode : KernelMode} (h : s.Unlaunched mode) {family : CounterFamily}
    (hfamily : family ∈ CounterFamily.cudaKernelLaunches :: kernelDurationFamilies)
    (labels : List String) : s.loop.metrics.counterAt (family, labels) = none := by
  refine MetricVec.value_eq_none_iff.mpr ?_
  rcases List.mem_cons.mp hfamily with rfl | hduration
  · have hnone := (exported_launches_iff h.owned).mpr h.launchFree
    exact AList.lookup_eq_none.mpr fun hmem => (Set.eq_empty_iff_forall_notMem.mp hnone) labels hmem
  · exact h.noDurations.counters family hduration labels

theorem Unlaunched.sameLaunches {mode mode' : KernelMode} (hs : s.Unlaunched mode)
    (ht : t.Unlaunched mode') : s.loop.metrics.SameLaunches t.loop.metrics where
  counters family hfamily labels := by
    rw [hs.counterAt hfamily labels, ht.counterAt hfamily labels]
  histograms labels := by
    rw [Metrics.histogramAt, MetricVec.value_eq_none_iff.mpr (ht.noDurations.histograms labels),
      Metrics.histogramAt, MetricVec.value_eq_none_iff.mpr (hs.noDurations.histograms labels)]

/-- A step leaves the same launches exported exactly if neither configuration makes a handle for
    one: in full mode the handle would show a kernel duration, which the other cannot have. -/
theorem sameLaunches_step {full anonymous : Args} (hfull : full.kernelMode = .full)
    (hanonymous : anonymous.kernelMode = .anonymous) (hs : s.Unlaunched full.kernelMode)
    (ht : t.Unlaunched anonymous.kernelMode) (e : Event n) :
    (s.stepProbed full e).loop.metrics.SameLaunches (t.stepProbed anonymous e).loop.metrics ↔
      s.NoLaunchHandle full e ∧ t.NoLaunchHandle anonymous e := by
  constructor
  · intro hsame
    have hother : t.loop.metrics.kernelMode ≠ .full := by
      rw [ht.kernelMode, hanonymous]
      decide
    have hno : (t.stepProbed anonymous e).loop.metrics.NoDurations :=
      noDurations_step ht.owned.labels ht.noDurations (.inl hother)
    have hfree : (s.stepProbed full e).loop.LaunchFree := by
      refine (hasDurations_step (hs.kernelMode.trans hfull) hs.launchFree).resolve_right ?_
      rintro ⟨labels, i, hi⟩
      have hnone := MetricVec.value_eq_none_iff.mpr (hno.histograms labels)
      have hlookup := MetricVec.value_eq_none_iff.mp ((hsame.histograms labels).symm.trans hnone)
      exact absurd (hlookup.symm.trans hi) (by simp)
    have hs' : s.NoLaunchHandle full e := (launchFree_step hs.launchFree).mp hfree
    refine ⟨hs', (launchFree_step ht.launchFree).mp ?_⟩
    -- without launches on one side there are none on the other
    have hempty := ((unlaunched_step hs e).mpr hs').counterAt List.mem_cons_self
    rw [← exported_launches_iff ((t.stepProbed_reaches e).owned ht.owned),
      Set.eq_empty_iff_forall_notMem]
    intro labels hmem
    have hlookup := MetricVec.value_eq_none_iff.mp
      ((hsame.counters _ List.mem_cons_self labels).trans (hempty labels))
    exact AList.lookup_eq_none.mp hlookup hmem
  · rintro ⟨hs', ht'⟩
    exact ((unlaunched_step hs e).mpr hs').sameLaunches ((unlaunched_step ht e).mpr ht')

/-- Full mode and promotion under `anonymous` export the same launches and kernel durations
    throughout a run exactly if neither ever makes a handle for a launch. -/
theorem promotion_iff (args : Args) (upgradedPids : FinMap U32 U8) (es : List (Event n)) :
    let full := { args with kernelMode := .full }
    let anonymous := { args with kernelMode := .anonymous }
    let promoted := (Sys.init n anonymous).promote upgradedPids
    (∀ k, (runProbed full n (es.take k)).loop.metrics.SameLaunches
        (Runs.run (stepProbed anonymous) promoted (es.take k)).loop.metrics) ↔
      Runs.Along (stepProbed full) (NoLaunchHandle full) (Sys.init n full) es ∧
        Runs.Along (stepProbed anonymous) (NoLaunchHandle anonymous) promoted es := by
  intro full anonymous promoted
  have hpromoted : promoted.Unlaunched .anonymous := by
    have hinit := @unlaunched_init n anonymous
    exact ⟨hinit.owned, hinit.kernelMode, hinit.launchFree, hinit.noDurations⟩
  -- the two runs side by side
  rw [← Runs.along_both, ← Runs.forall_take_iff_along_of_shows (P := fun _ _ => True)
    (I := fun x => x.1.Unlaunched .full ∧ x.2.Unlaunched .anonymous)
    (J := fun x => x.1.loop.metrics.SameLaunches x.2.loop.metrics)
    (fun x hx => hx.1.sameLaunches hx.2)
    (fun x e hx _ => sameLaunches_step rfl rfl hx.1 hx.2 e)
    (fun x e hx _ hq => ⟨(unlaunched_step hx.1 e).mpr hq.1, (unlaunched_step hx.2 e).mpr hq.2⟩)
    ⟨unlaunched_init full, hpromoted⟩ (Runs.along_true _ _ _)]
  simp only [Runs.run_both]
  rfl

/-- A launch of a promoted process: it is counted under its address in both configurations, and
    has a duration in full mode only. -/
theorem promoted_without_durations :
    let es : List (Event 1) :=
      [.enter (.cudaLaunchKernel 0x401000) (bareCtx 0x700000007 100 0),
        .ret (bareCtx 0x700000007 200 0), .aggTick .bare]
    let promoted : Sys 1 :=
      (Sys.init 1 { kernelMode := .anonymous }).promote ((∅ : FinMap U32 U8).insert 7 1)
    let full := (runProbed { kernelMode := .full } 1 es).loop.metrics
    let anonymous := Runs.run (stepProbed { kernelMode := .anonymous }) promoted es
    let duration : CounterFamily × List String :=
      (.cudaKernelDurationCountTotal, ["unknown_0x401000", "", "", "", "other", ""])
    (∀ k ∈ List.range 4, (Runs.run (stepProbed { kernelMode := .anonymous }) promoted
        (es.take k)).bpf.upgradedPids.lookup 7 = some 1) ∧
      full.counterAt duration = some 1 ∧ anonymous.loop.metrics.counterAt duration = none := by
  decide +kernel

end Sys

end Profi
