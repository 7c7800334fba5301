import Profi.LoopCache

/-!
# The Counters of the Registry

What the event loop does to the counters, in terms of the registry alone.

- `Metrics.Fits`: every exported label tuple has a value for each label name of its family, so
  `with_label_values` never panics because of their number
- `Metrics.Climbs`: a counter that was once made keeps its labels, and its value never falls; a
  series goes back only by pointing at a new counter
-/

namespace Profi

variable {n : ℕ}

/-! ## Arity -/

/-- The tuple has a value for each label name of the family. -/
def HasArity (x : CounterFamily × List String) : Prop := x.2.length = x.1.labelNames.length

/-- All exported tuples have. -/
def Metrics.Fits (m : Metrics) : Prop := ∀ x i, m.counterIndex x = some i → HasArity x

namespace Metrics.Fits

variable {m m' : Metrics} {C : Set (CounterFamily × List String)}
  {H : Set (HistogramFamily × List String)}

theorem new (kernelMode : KernelMode) : (Metrics.new kernelMode).Fits := by
  intro x i hi
  simp [Metrics.new, Metrics.counterIndex, MetricVec.empty] at hi

theorem grown (h : m.Fits) (hgrown : Grown C H m m') (hC : ∀ x ∈ C, HasArity x) : m'.Fits := by
  intro x i hi
  rcases hgrown.newCounters x i hi with hold | hnew
  · exact h x i hold
  · exact hC x hnew

theorem drops (h : m.Fits) (hdrops : Drops C H m m') : m'.Fits := by
  intro x i hi
  by_cases hx : x ∈ C
  · rw [hdrops.lostCounters x hx] at hi
    cases hi
  · exact h x i ((hdrops.keptCounters x hx).symm.trans hi)

theorem of_counters_eq (h : m.Fits) (heq : m'.counters = m.counters) : m'.Fits := by
  intro x i hi
  rw [Metrics.counterIndex, heq] at hi
  exact h x i hi

end Metrics.Fits

/-- The labels of a handle that was made for a key. -/
def HandleLabels.Made (l : HandleLabels) (key : MetricKey) : Prop :=
  ∃ mode env kernelNames event, l = handleLabels mode env kernelNames key event

namespace HandleLabels.Made

variable {l : HandleLabels} {key : MetricKey}

theorem owned (h : l.Made key) : ∀ x ∈ ownedSeries key.eventType l, HasArity x := by
  obtain ⟨mode, env, kernelNames, event, rfl⟩ := h
  intro x hx
  exact (ownedSeries_shape hx).2.2

theorem histLabels_length (h : l.Made key) : l.histLabels.length = 4 := by
  obtain ⟨mode, env, kernelNames, event, rfl⟩ := h
  unfold handleLabels
  simp only
  split <;> rfl

theorem kernelHistLabels_length (h : l.Made key) {labels : List String}
    (hlabels : l.kernelHistLabels = some labels) : labels.length = 6 := by
  obtain ⟨mode, env, kernelNames, event, rfl⟩ := h
  unfold handleLabels at hlabels
  simp only at hlabels
  split at hlabels
  · cases hlabels
  · simp only [Option.ite_none_right_eq_some, Option.some.injEq] at hlabels
    obtain ⟨-, rfl⟩ := hlabels
    rfl

/-- The duration counters of fitting labels: one label more for the buckets. -/
theorem hasArity_durationCounters {bucket sum count : CounterFamily} {leValues labels : List String}
    (hbucket : bucket.labelNames.length = labels.length + 1)
    (hsum : sum.labelNames.length = labels.length)
    (hcount : count.labelNames.length = labels.length) {x : CounterFamily × List String}
    (hx : x ∈ durationCounters bucket sum count leValues labels) : HasArity x := by
  simp only [durationCounters, List.mem_append, List.mem_map, List.mem_cons, List.not_mem_nil,
    or_false] at hx
  rcases hx with ⟨le, -, rfl⟩ | rfl | rfl
  · simp [HasArity, hbucket]
  · exact hsum.symm
  · exact hcount.symm

/-- Everything that is counted in the labels of a handle has its arity. -/
theorem hasArity_counts (h : l.Made key) {mode : KernelMode} {family : CounterFamily}
    {hfamily : family.byLabels = true} {labels : List String} {x : ℕ}
    (hcounts : (MetricWrite.incLabels family hfamily labels x).Counts mode l) :
    HasArity (family, labels) := by
  have hhist := h.histLabels_length
  rcases hcounts with ⟨eventType, hseries⟩ | hseries
  · unfold durationSeries at hseries
    split at hseries
    · exact hasArity_durationCounters (by rw [hhist]; rfl) (by rw [hhist]; rfl)
        (by rw [hhist]; rfl) hseries
    · exact hasArity_durationCounters (by rw [hhist]; rfl) (by rw [hhist]; rfl)
        (by rw [hhist]; rfl) hseries
  · unfold kernelSeries at hseries
    split at hseries
    · obtain ⟨kernelLabels, hlabels, hmem⟩ := List.mem_flatMap.mp hseries
      have hlength := h.kernelHistLabels_length (Option.mem_toList.mp hlabels)
      exact hasArity_durationCounters (by rw [hlength]; rfl) (by rw [hlength]; rfl)
        (by rw [hlength]; rfl) hmem
    · cases hseries

end HandleLabels.Made

namespace Loop

variable {args : Args} {env : LoopEnv}

/-- A request is answered with a handle that was made for a key, and exports its tuples at most. -/
theorem fits_getHandle {l : Loop} (hlabels : l.cacheState.LabelsOk) (h : l.metrics.Fits)
    (key : MetricKey) (event : CudaEvent) :
    (l.getHandle args env key event).2.metrics.Fits ∧
      ∃ key', (l.getHandle args env key event).1.labels.Made key' := by
  have hdrops : ∀ drops, Metrics.Fits { l.metrics with cardinalityDrops := drops } :=
    fun _ => h.of_counters_eq rfl
  obtain ⟨drops, ⟨-, handle, hlookup, heq⟩ | ⟨-, heq⟩⟩ :=
    l.cache.getOrCreate_eq env.cacheEnv args.limits key l.metrics event l.kernelNames
  · simp only [getHandle, heq]
    obtain ⟨mode, cacheEnv, names, event', -, -, hl⟩ := (hlabels _ handle hlookup).labels
    exact ⟨hdrops drops, _, mode, cacheEnv, names, event', hl⟩
  · simp only [getHandle, heq, Cache.createHandle]
    have hmade : (handleLabels l.metrics.kernelMode env.cacheEnv l.kernelNames
        (l.cache.handleFor env.cacheEnv args.limits key).1 event).Made
          (l.cache.handleFor env.cacheEnv args.limits key).1 := ⟨_, _, _, _, rfl⟩
    exact ⟨(hdrops drops).grown (createHandles_grown _ _ _).1 hmade.owned, _, hmade⟩

theorem fits_processRecord {x : Loop × MemDelta} (hlabels : x.1.cacheState.LabelsOk)
    (h : x.1.metrics.Fits) (r : Record) : (processRecord args env x r).1.metrics.Fits := by
  cases hrequest : r.request with
  | none =>
    rw [processRecord_of_none args env hrequest]
    exact h
  | some key =>
    rw [processRecord_of_some args env hrequest]
    obtain ⟨hget, key', hmade⟩ := @fits_getHandle args env x.1 hlabels h key r.event
    have hwrite : (r.write (x.1.getHandle args env key r.event).2.metrics
        (x.1.getHandle args env key r.event).1).Fits := by
      refine r.write_invariant (I := Metrics.Fits) ?_ hget
      intro m w hm hcounts
      refine hm.grown (w.grown_of_counts hcounts m) ?_
      rintro y ⟨hfamily, x, hy⟩
      exact hmade.hasArity_counts hy
    -- the touch only sets a gauge
    rw [touchPid_frame]
    exact hwrite.of_counters_eq rfl

end Loop

namespace Sys

variable {args : Args}

theorem fits_armStart {s : Sys n} (h : s.loop.metrics.Fits) (e : Event n) :
    (s.armStart args e).metrics.Fits := by
  cases e with
  | consume env =>
    show (s.loop.invalidateChanged env).metrics.Fits
    rw [Loop.invalidateChanged_eq]
    exact h.drops (Evicts.invalidatePids s.loop.cache env.changedPids s.loop.metrics).series
  | aggTick env =>
    rw [armStart_aggTick]
    exact h
  | gcTick env => exact h.drops (Evicts.gc s.loop.cache s.loop.metrics env.now _).series
  | _ => exact h

/-- The series of a step have the arity of their family. -/
theorem fits_step {s : Sys n} (howned : s.loop.cacheState.Owned) (h : s.loop.metrics.Fits)
    (e : Event n) : (s.step args e).loop.metrics.Fits := by
  have hstart : (s.armStart args e).cacheState.LabelsOk :=
    ((s.armStart_reaches e).owned howned).labels
  have hrecord : ∀ (x : Loop × MemDelta) (r : Record),
      x.1.cacheState.LabelsOk ∧ x.1.metrics.Fits →
        (Loop.processRecord args e.env x r).1.cacheState.LabelsOk ∧
          (Loop.processRecord args e.env x r).1.metrics.Fits := by
    rintro x r ⟨hlabels, hfits⟩
    exact ⟨(Loop.processRecord_reaches args e.env x r).invariant
      (fun _ _ hs hop => CacheState.labelsOk_step hs hop.ofProcess) hlabels,
      Loop.fits_processRecord hlabels hfits r⟩
  have hhandled : (s.handled args e).1.metrics.Fits :=
    (Runs.run_invariant_of_step
      (I := fun x : Loop × MemDelta => x.1.cacheState.LabelsOk ∧ x.1.metrics.Fits) hrecord
      (s := (s.armStart args e, ∅)) ⟨hstart, fits_armStart h e⟩ (s.records args e)).2
  exact hhandled.of_counters_eq (s.step_handled args e).counters

end Sys

/-! ## Values -/

/-- Every counter is still there, with its labels and at least its value. -/
structure Metrics.Climbs (m m' : Metrics) : Prop where
  counters : ∀ family, (m.counters family).Climbs (m'.counters family)
  cardinalityDrops : m.cardinalityDrops ≤ m'.cardinalityDrops

namespace Metrics.Climbs

variable {m m' m'' : Metrics}

theorem of_eq (hcounters : m'.counters = m.counters)
    (hdrops : m.cardinalityDrops ≤ m'.cardinalityDrops) : m.Climbs m' where
  counters family := .of_children_eq (by rw [hcounters])
  cardinalityDrops := hdrops

theorem refl (m : Metrics) : m.Climbs m := of_eq rfl le_rfl

theorem trans (h : m.Climbs m') (h' : m'.Climbs m'') : m.Climbs m'' where
  counters family := (h.counters family).trans (h'.counters family)
  cardinalityDrops := h.cardinalityDrops.trans h'.cardinalityDrops

/-- A change of one family. -/
theorem update (m : Metrics) {family : CounterFamily} {vec : MetricVec ℕ}
    (h : (m.counters family).Climbs vec) :
    m.Climbs { m with counters := Function.update m.counters family vec } where
  counters f := by
    by_cases hf : f = family
    · subst hf
      simpa using h
    · simp only [Function.update_of_ne hf]
      exact .refl _
  cardinalityDrops := le_rfl

theorem counter (h : m.Climbs m') (family : CounterFamily) (labels : List String) :
    m.Climbs (m'.counter family labels).2 :=
  h.trans (update m' (MetricVec.climbs_withLabelValues _ 0 labels))

theorem counterOpt (h : m.Climbs m') (family : CounterFamily) (labels : Option (List String)) :
    m.Climbs (m'.counterOpt family labels).2 := by
  cases labels with
  | none => exact h
  | some labels => exact h.counter family labels

theorem histogram (h : m.Climbs m') (family : HistogramFamily) (labels : List String) :
    m.Climbs (m'.histogram family labels).2 :=
  h.trans (of_eq rfl le_rfl)

theorem histogramOpt (h : m.Climbs m') (family : HistogramFamily)
    (labels : Option (List String)) : m.Climbs (m'.histogramOpt family labels).2 := by
  cases labels with
  | none => exact h
  | some labels => exact h.histogram family labels

theorem incBy (h : m.Climbs m') (c : CounterRef) (x : ℕ) : m.Climbs (m'.incBy c x) :=
  h.trans (update m' (MetricVec.climbs_modify _ c.index fun v => Nat.le_add_right v x))

theorem write (m : Metrics) (w : MetricWrite) : m.Climbs (w.apply m) := by
  cases w with
  | incBy c x => exact (refl m).incBy c x
  | incLabels family hfamily labels x => exact ((refl m).counter family labels).incBy _ x
  | observe h durationNs => exact of_eq rfl le_rfl
  | setTrackedPids x => exact of_eq rfl le_rfl
  | setActiveMemory labels bytes => exact of_eq rfl le_rfl

theorem createHandles (h : m.Climbs m') (eventType : EventType) (l : HandleLabels) :
    m.Climbs (createHandles m' eventType l).2 := by
  unfold Profi.createHandles
  apply Climbs.counterOpt
  apply Climbs.histogramOpt
  apply Climbs.counterOpt
  apply Climbs.counterOpt
  apply Climbs.counterOpt
  apply Climbs.counterOpt
  apply Climbs.histogram
  apply Climbs.counter
  exact h

/-- A removal takes series out, not counters. -/
theorem drops {C : Set (CounterFamily × List String)} {H : Set (HistogramFamily × List String)}
    (h : Drops C H m m') (hquiet : Quiet m m') : m.Climbs m' where
  counters family := .of_children_eq (h.counterChildren family)
  cardinalityDrops := hquiet.drops

end Metrics.Climbs

namespace CacheState

variable {limits : CardinalityLimits} {s s' : CacheState}

/-- No operation on the cache lets a counter fall. -/
theorem climbs_step (hs : s.LabelsOk) (op : CacheOp) :
    s.metrics.Climbs (s.step limits op).metrics := by
  cases op with
  | getOrCreate r =>
    have hdrop : s.metrics.Climbs
        { s.metrics with cardinalityDrops := s.metrics.cardinalityDrops + 1 } :=
      .of_eq rfl (Nat.le_succ _)
    rcases s.cache.getOrCreate_cases r.key s.metrics r.env r.event s.kernelNames limits with
      ⟨h, -, heq⟩ | ⟨k, h, -, -, -, -, heq⟩ | ⟨m₁, -, hwhy, heq⟩
    · simp only [step, serve, heq]
      exact .refl _
    · simp only [step, serve, heq]
      exact hdrop
    · simp only [step, serve, heq, Cache.createHandle]
      have hm₁ : s.metrics.Climbs m₁ := by
        rcases hwhy with ⟨-, rfl⟩ | ⟨-, rfl⟩
        · exact .refl _
        · exact hdrop
      exact hm₁.createHandles _ _
  | touch now pid => exact .refl _
  | invalidatePids pids =>
    exact .drops (Evicts.invalidatePids s.cache pids s.metrics).series
      (Cache.invalidatePids_ok hs pids).2
  | gc now staleAfter =>
    exact .drops (Evicts.gc s.cache s.metrics now staleAfter).series
      (Cache.gc_ok hs now staleAfter).2
  | nameKernel pid addr name => exact .refl _
  | write w => exact .write s.metrics w

theorem Reaches.climbs (h : s.Reaches limits s') (hs : s.LabelsOk) :
    s.metrics.Climbs s'.metrics :=
  (h.invariant (I := fun s' => s'.LabelsOk ∧ s.metrics.Climbs s'.metrics)
    (fun _ op h hop => ⟨labelsOk_step h.1 hop.ofProcess, h.2.trans (climbs_step h.1 op)⟩)
    ⟨hs, .refl _⟩).2

end CacheState

/-! ## Runs -/

namespace Sys

variable {args : Args}

/-- No step makes a counter fall. -/
theorem climbs_step {s : Sys n} (howned : s.loop.cacheState.Owned) (e : Event n) :
    s.loop.metrics.Climbs (s.step args e).loop.metrics :=
  (s.step_reaches e).climbs howned.labels

/-- From any state of a run to any later one: the exported label tuples have the arity of their
    family, and neither a series that has not been made again in between nor the count of refused
    events falls. -/
theorem counters_run (args : Args) (n : ℕ) (es fs : List (Event n)) :
    let m := (run args n es).loop.metrics
    let m' := (run args n (es ++ fs)).loop.metrics
    (∀ x i, m'.counterIndex x = some i → HasArity x) ∧
      (∀ x i v w, m.counterIndex x = some i → m'.counterIndex x = some i →
        m.counterAt x = some v → m'.counterAt x = some w → v ≤ w) ∧
      m.cardinalityDrops ≤ m'.cardinalityDrops := by
  intro m m'
  have hstart : (run args n es).loop.cacheState.Owned ∧ m.Fits := by
    apply invariant_run fun s : Sys n => s.loop.cacheState.Owned ∧ s.loop.metrics.Fits
    · exact ⟨CacheState.owned_init args.kernelMode, .new args.kernelMode⟩
    · exact fun s e h => ⟨(s.step_reaches e).owned h.1, fits_step h.1 h.2 e⟩
  -- from the first of the two states on the registry climbs
  have hlater : (run args n (es ++ fs)).loop.cacheState.Owned ∧ m'.Fits ∧ m.Climbs m' := by
    simp only [m', run, Runs.run_append]
    apply Runs.run_invariant_of_step (I := fun s : Sys n =>
      s.loop.cacheState.Owned ∧ s.loop.metrics.Fits ∧ m.Climbs s.loop.metrics)
    · exact fun s e h => ⟨(s.step_reaches e).owned h.1, fits_step h.1 h.2.1 e,
        h.2.2.trans (climbs_step h.1 e)⟩
    · exact ⟨hstart.1, hstart.2, .refl m⟩
  obtain ⟨-, hfits, hclimbs⟩ := hlater
  exact ⟨hfits, fun x i v w hi hi' hv hw => (hclimbs.counters x.1).value_le hi hi' hv hw,
    hclimbs.cardinalityDrops⟩

end Sys

end Profi
