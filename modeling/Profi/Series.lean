import Profi.CacheRuns

/-!
# Which Series a Handle Keeps Exported

A handle is created together with its series and takes them out of the registry when it is
removed. This file says which series these are (`ownedSeries`, `durationSeries`, `kernelSeries`,
`histogramSeries`) and what the operations of the cache do to the exported part of the registry:

- `Grown`: requests and writes leave every exported series where it is, and may add some
- `Drops`: a removal takes out the series of the removed handles and no others

The counters reached through handles carry the process (`ownedSeries_pid`). The duration series
do not: all processes of a pod on one device share them.
-/

namespace Profi

/-! ## Exported series -/

/-- The counters of a handle, with the family and the labels they belong to. -/
def CachedHandles.held (h : CachedHandles) (eventType : EventType) :
    List (CounterFamily × Option CounterRef × Option (List String)) :=
  [(callsFamily eventType, some h.calls, some h.labels.callsLabels),
    (.cudaMemcpyBytes, h.memcpyBytes, h.labels.memcpyLabels),
    (.cudaMallocBytes, h.mallocBytes, h.labels.mallocLabels),
    (.ncclBytes, h.ncclBytes, h.labels.ncclBytesLabels),
    (.cudaKernelLaunches, h.kernelCounter, h.labels.kernelCounterLabels),
    (.cudaErrors, h.errorsCounter, h.labels.errorsLabels)]

theorem recorded_of_mem_histogramSeries {kernelMode : KernelMode} {eventType : EventType}
    {l : HandleLabels} {x : HistogramFamily × List String}
    (hx : x ∈ histogramSeries kernelMode eventType l) : x ∈ recordedHistograms eventType l := by
  rcases List.mem_cons.mp hx with rfl | hx
  · exact List.mem_cons_self
  · split at hx
    · exact List.mem_cons_of_mem _ hx
    · cases hx

namespace Metrics

/-- The child a label tuple of a counter family points at, if it is exported. -/
def counterIndex (m : Metrics) (x : CounterFamily × List String) : Option ℕ :=
  (m.counters x.1).series.lookup x.2

def histogramIndex (m : Metrics) (x : HistogramFamily × List String) : Option ℕ :=
  (m.histograms x.1).series.lookup x.2

/-- The exported value of a counter series. -/
def counterAt (m : Metrics) (x : CounterFamily × List String) : Option ℕ :=
  (m.counters x.1).value x.2

def histogramAt (m : Metrics) (x : HistogramFamily × List String) : Option (List U64) :=
  (m.histograms x.1).value x.2

end Metrics

/-! ## Removal -/

/-- From `m` to `m'` the series in `C` and `H` were taken out of the registry. -/
structure Drops (C : Set (CounterFamily × List String)) (H : Set (HistogramFamily × List String))
    (m m' : Metrics) : Prop where
  kernelMode : m'.kernelMode = m.kernelMode
  lostCounters : ∀ x ∈ C, m'.counterIndex x = none
  keptCounters : ∀ x ∉ C, m'.counterIndex x = m.counterIndex x
  counterChildren : ∀ f, (m'.counters f).children = (m.counters f).children
  lostHistograms : ∀ x ∈ H, m'.histogramIndex x = none
  keptHistograms : ∀ x ∉ H, m'.histogramIndex x = m.histogramIndex x
  histogramChildren : ∀ f, (m'.histograms f).children = (m.histograms f).children

namespace Drops

variable {C C' : Set (CounterFamily × List String)} {H H' : Set (HistogramFamily × List String)}
  {m m' m'' : Metrics}

theorem refl (m : Metrics) : Drops ∅ ∅ m m where
  kernelMode := rfl
  lostCounters := nofun
  keptCounters := fun _ _ => rfl
  counterChildren := fun _ => rfl
  lostHistograms := nofun
  keptHistograms := fun _ _ => rfl
  histogramChildren := fun _ => rfl

/-- Two removals one after the other. -/
theorem trans (h : Drops C H m m') (h' : Drops C' H' m' m'') : Drops (C ∪ C') (H ∪ H') m m'' where
  kernelMode := h'.kernelMode.trans h.kernelMode
  lostCounters := by
    intro x hx
    by_cases hx' : x ∈ C'
    · exact h'.lostCounters x hx'
    · rw [h'.keptCounters x hx']
      exact h.lostCounters x (hx.resolve_right hx')
  keptCounters := by
    intro x hx
    rw [Set.mem_union, not_or] at hx
    rw [h'.keptCounters x hx.2, h.keptCounters x hx.1]
  counterChildren := fun f => (h'.counterChildren f).trans (h.counterChildren f)
  lostHistograms := by
    intro x hx
    by_cases hx' : x ∈ H'
    · exact h'.lostHistograms x hx'
    · rw [h'.keptHistograms x hx']
      exact h.lostHistograms x (hx.resolve_right hx')
  keptHistograms := by
    intro x hx
    rw [Set.mem_union, not_or] at hx
    rw [h'.keptHistograms x hx.2, h.keptHistograms x hx.1]
  histogramChildren := fun f => (h'.histogramChildren f).trans (h.histogramChildren f)

theorem congr (h : Drops C H m m') (hC : C' = C) (hH : H' = H) : Drops C' H' m m' := by
  rw [hC, hH]
  exact h

theorem counterAt (h : Drops C H m m') {x : CounterFamily × List String} (hx : x ∉ C) :
    m'.counterAt x = m.counterAt x :=
  MetricVec.value_congr (h.keptCounters x hx) (h.counterChildren x.1)

theorem histogramAt (h : Drops C H m m') {x : HistogramFamily × List String} (hx : x ∉ H) :
    m'.histogramAt x = m.histogramAt x :=
  MetricVec.value_congr (h.keptHistograms x hx) (h.histogramChildren x.1)

theorem removeCounter (m : Metrics) (family : CounterFamily) (labels : List String) :
    Drops {(family, labels)} ∅ m (m.removeCounter family labels) where
  kernelMode := rfl
  lostCounters x hx := by
    rw [Set.mem_singleton_iff.mp hx]
    exact (MetricVec.lookup_update_removeLabelValues m.counters family labels _).trans (if_pos rfl)
  keptCounters x hx :=
    (MetricVec.lookup_update_removeLabelValues m.counters family labels x).trans (if_neg hx)
  counterChildren := MetricVec.children_update_removeLabelValues m.counters family labels
  lostHistograms := nofun
  keptHistograms := fun _ _ => rfl
  histogramChildren := fun _ => rfl

theorem removeHistogram (m : Metrics) (family : HistogramFamily) (labels : List String) :
    Drops ∅ {(family, labels)} m (m.removeHistogram family labels) where
  kernelMode := rfl
  lostCounters := nofun
  keptCounters := fun _ _ => rfl
  counterChildren := fun _ => rfl
  lostHistograms x hx := by
    rw [Set.mem_singleton_iff.mp hx]
    exact (MetricVec.lookup_update_removeLabelValues m.histograms family labels _).trans
      (if_pos rfl)
  keptHistograms x hx :=
    (MetricVec.lookup_update_removeLabelValues m.histograms family labels x).trans (if_neg hx)
  histogramChildren := MetricVec.children_update_removeLabelValues m.histograms family labels

theorem foldl_remove (xs : List Series) (m : Metrics) :
    Drops {x | .inl x ∈ xs} {x | .inr x ∈ xs} m (xs.foldl Metrics.remove m) := by
  induction xs generalizing m with
  | nil => exact (refl m).congr (by simp) (by simp)
  | cons x xs ih =>
    rcases x with ⟨family, labels⟩ | ⟨family, labels⟩
    · exact ((removeCounter m family labels).trans (ih _)).congr (by ext; simp) (by ext; simp)
    · exact ((removeHistogram m family labels).trans (ih _)).congr (by ext; simp) (by ext; simp)

/-- `remove_handle_metrics` takes out exactly the series of the handle. -/
theorem removeHandleMetrics (m : Metrics) (eventType : EventType) (h : CachedHandles) :
    Drops {x | x ∈ counterSeries m.kernelMode eventType h.labels}
      {x | x ∈ histogramSeries m.kernelMode eventType h.labels} m
      (removeHandleMetrics m eventType h) := by
  rw [removeHandleMetrics_eq]
  refine (foldl_remove _ m).congr ?_ ?_
  · ext x
    simp only [counterSeries, ownedSeries, removedSeries, callsRemoved, kernelRemoved, optSeries]
    by_cases hfull : m.kernelMode = .full <;> simp [hfull, kernelSeries, eq_comm] <;>
      grind
  · ext x
    simp only [histogramSeries, removedSeries, callsRemoved, kernelRemoved, optSeries]
    by_cases hfull : m.kernelMode = .full <;> simp [hfull, eq_comm]

end Drops

/-! ## Removal of handles -/

namespace Cache

variable {α : Type} {cache cache' : Cache} {P Q : MetricKey → Prop}

/-- The series of the handles whose keys satisfy `P`. -/
def seriesOf (cache : Cache) (series : MetricKey → CachedHandles → List α) (P : MetricKey → Prop) :
    Set α :=
  {x | ∃ k h, P k ∧ cache.handles.lookup k = some h ∧ x ∈ series k h}

theorem seriesOf_congr (series : MetricKey → CachedHandles → List α)
    (hPQ : ∀ k ∈ cache.handles, Q k ↔ P k) : cache.seriesOf series Q = cache.seriesOf series P := by
  ext x
  constructor
  · rintro ⟨k, h, hQ, hlookup, hx⟩
    exact ⟨k, h, (hPQ k (FinMap.mem_iff_lookup.mpr ⟨h, hlookup⟩)).mp hQ, hlookup, hx⟩
  · rintro ⟨k, h, hP, hlookup, hx⟩
    exact ⟨k, h, (hPQ k (FinMap.mem_iff_lookup.mpr ⟨h, hlookup⟩)).mpr hP, hlookup, hx⟩

/-- Removing some handles and then others removes the series of both. -/
theorem seriesOf_or (series : MetricKey → CachedHandles → List α)
    (hkept : ∀ k h, cache'.handles.lookup k = some h ↔ ¬P k ∧ cache.handles.lookup k = some h) :
    cache.seriesOf series (fun k => P k ∨ Q k) =
      cache.seriesOf series P ∪ cache'.seriesOf series Q := by
  ext x
  constructor
  · rintro ⟨k, h, hPQ, hlookup, hx⟩
    by_cases hP : P k
    · exact .inl ⟨k, h, hP, hlookup, hx⟩
    · exact .inr ⟨k, h, hPQ.resolve_left hP, (hkept k h).mpr ⟨hP, hlookup⟩, hx⟩
  · rintro (⟨k, h, hP, hlookup, hx⟩ | ⟨k, h, hQ, hlookup, hx⟩)
    · exact ⟨k, h, .inl hP, hlookup, hx⟩
    · exact ⟨k, h, .inr hQ, ((hkept k h).mp hlookup).2, hx⟩

/-- The counters of the handles whose keys satisfy `P`. -/
def countersOf (cache : Cache) (kernelMode : KernelMode) :
    (MetricKey → Prop) → Set (CounterFamily × List String) :=
  cache.seriesOf fun k h => counterSeries kernelMode k.eventType h.labels

/-- The histograms of the handles whose keys satisfy `P`. -/
def histogramsOf (cache : Cache) (kernelMode : KernelMode) :
    (MetricKey → Prop) → Set (HistogramFamily × List String) :=
  cache.seriesOf fun k h => histogramSeries kernelMode k.eventType h.labels

end Cache

/-- The handles whose keys satisfy `P` were removed, and their series with them. -/
structure Evicts (P : MetricKey → Prop) (s s' : Metrics × Cache) : Prop where
  handles : ∀ k h, s'.2.handles.lookup k = some h ↔ ¬P k ∧ s.2.handles.lookup k = some h
  series : Drops (s.2.countersOf s.1.kernelMode P) (s.2.histogramsOf s.1.kernelMode P) s.1 s'.1

namespace Evicts

variable {P Q : MetricKey → Prop} {s s' s'' : Metrics × Cache}

theorem refl (s : Metrics × Cache) : Evicts (fun _ => False) s s where
  handles := by simp
  series := (Drops.refl s.1).congr (by ext; simp [Cache.countersOf, Cache.seriesOf])
    (by ext; simp [Cache.histogramsOf, Cache.seriesOf])

theorem trans (h : Evicts P s s') (h' : Evicts Q s' s'') :
    Evicts (fun k => P k ∨ Q k) s s'' where
  handles := by
    intro k hk
    rw [h'.handles, h.handles]
    tauto
  series := by
    have h'series := h'.series
    rw [h.series.kernelMode] at h'series
    exact (h.series.trans h'series).congr (Cache.seriesOf_or _ h.handles)
      (Cache.seriesOf_or _ h.handles)

/-- Only the keys that are in the table matter. -/
theorem congr (h : Evicts P s s') (hPQ : ∀ k ∈ s.2.handles, Q k ↔ P k) : Evicts Q s s' where
  handles := by
    intro k hk
    rw [h.handles]
    refine and_congr_left fun hlookup => not_congr ?_
    exact (hPQ k (FinMap.mem_iff_lookup.mpr ⟨hk, hlookup⟩)).symm
  series := h.series.congr (Cache.seriesOf_congr _ hPQ) (Cache.seriesOf_congr _ hPQ)

theorem removeKey (s : Metrics × Cache) (key : MetricKey) :
    Evicts (· = key) s (Cache.removeKey s key) where
  handles := by
    intro k h
    rw [Cache.lookup_removeKey]
    by_cases hk : k = key <;> simp [hk]
  series := by
    unfold Cache.removeKey
    cases hlookup : s.2.handles.lookup key with
    | none =>
      refine (Drops.refl s.1).congr ?_ ?_
      · ext x
        simp [Cache.countersOf, Cache.seriesOf, hlookup]
      · ext x
        simp [Cache.histogramsOf, Cache.seriesOf, hlookup]
    | some h =>
      refine (Drops.removeHandleMetrics s.1 key.eventType h).congr ?_ ?_
      · ext x
        simp [Cache.countersOf, Cache.seriesOf, hlookup]
      · ext x
        simp [Cache.histogramsOf, Cache.seriesOf, hlookup]

theorem foldl_removeKey (keys : List MetricKey) (s : Metrics × Cache) :
    Evicts (· ∈ keys) s (keys.foldl Cache.removeKey s) := by
  induction keys generalizing s with
  | nil => exact (refl s).congr (by simp)
  | cons key keys ih => exact ((removeKey s key).trans (ih _)).congr (by simp)

/-- `invalidate_pids` takes the handles of these processes out, with their series. -/
theorem invalidatePids (cache : Cache) (pids : List U32) (m : Metrics) :
    Evicts (·.pid ∈ pids) (m, cache) (cache.invalidatePids pids m) :=
  (foldl_removeKey _ (m, cache)).congr fun k hk => by
    have hmem : k ∈ cache.handles.keys := hk
    simp [hmem]

theorem foldl_evictPid (pids : List U32) (s : Metrics × Cache) :
    Evicts (·.pid ∈ pids) s (pids.foldl Cache.evictPid s) := by
  induction pids generalizing s with
  | nil => exact (refl s).congr (by simp)
  | cons pid pids ih =>
    have hone : Evicts (·.pid ∈ [pid]) s (Cache.evictPid s pid) := by
      obtain ⟨hhandles, hseries⟩ := invalidatePids s.2 [pid] s.1
      exact ⟨hhandles, hseries⟩
    exact (hone.trans (ih _)).congr (by simp)

/-- `gc` takes the handles of the stale processes out, with their series. -/
theorem gc (cache : Cache) (m : Metrics) (now staleAfter : ℕ) :
    Evicts (·.pid ∈ cache.stalePids now staleAfter) (m, cache) (cache.gc m now staleAfter).2 := by
  obtain ⟨hhandles, hseries⟩ := foldl_evictPid (cache.stalePids now staleAfter) (m, cache)
  rw [Cache.gc_frame]
  exact ⟨hhandles, ⟨hseries.kernelMode, hseries.lostCounters, hseries.keptCounters,
    hseries.counterChildren, hseries.lostHistograms, hseries.keptHistograms,
    hseries.histogramChildren⟩⟩

end Evicts

/-! ## Creation -/

/-- From `m` to `m'` every exported series stayed where it is. What counters there are besides
    is in `C`, and the histograms in `H` are there. -/
structure Grown (C : Set (CounterFamily × List String)) (H : Set (HistogramFamily × List String))
    (m m' : Metrics) : Prop where
  kernelMode : m'.kernelMode = m.kernelMode
  counters : ∀ x i, m.counterIndex x = some i → m'.counterIndex x = some i
  newCounters : ∀ x i, m'.counterIndex x = some i → m.counterIndex x = some i ∨ x ∈ C
  histograms : ∀ x i, m.histogramIndex x = some i → m'.histogramIndex x = some i
  madeHistograms : ∀ x ∈ H, ∃ i, m'.histogramIndex x = some i

namespace Grown

variable {C C' : Set (CounterFamily × List String)} {H H' : Set (HistogramFamily × List String)}
  {m m' m'' : Metrics}

/-- A registry that exports the same has grown by nothing. -/
theorem of_same (hmode : m'.kernelMode = m.kernelMode)
    (hcounters : ∀ x, m'.counterIndex x = m.counterIndex x)
    (hhistograms : ∀ x, m'.histogramIndex x = m.histogramIndex x) : Grown ∅ ∅ m m' where
  kernelMode := hmode
  counters := fun x _ h => (hcounters x).trans h
  newCounters := fun x _ h => .inl ((hcounters x).symm.trans h)
  histograms := fun x _ h => (hhistograms x).trans h
  madeHistograms := nofun

theorem refl (m : Metrics) : Grown ∅ ∅ m m := of_same rfl (fun _ => rfl) (fun _ => rfl)

theorem trans (h : Grown C H m m') (h' : Grown C' H' m' m'') : Grown (C ∪ C') (H ∪ H') m m'' where
  kernelMode := h'.kernelMode.trans h.kernelMode
  counters := fun x i hx => h'.counters x i (h.counters x i hx)
  newCounters := by
    intro x i hx
    rcases h'.newCounters x i hx with hx | hx
    · rcases h.newCounters x i hx with hx | hx
      · exact .inl hx
      · exact .inr (.inl hx)
    · exact .inr (.inr hx)
  histograms := fun x i hx => h'.histograms x i (h.histograms x i hx)
  madeHistograms := by
    rintro x (hx | hx)
    · obtain ⟨i, hi⟩ := h.madeHistograms x hx
      exact ⟨i, h'.histograms x i hi⟩
    · exact h'.madeHistograms x hx

theorem mono (h : Grown C H m m') (hC : C ⊆ C') (hH : H' ⊆ H) : Grown C' H' m m' where
  kernelMode := h.kernelMode
  counters := h.counters
  newCounters := fun x i hx => (h.newCounters x i hx).imp_right fun hx => hC hx
  histograms := h.histograms
  madeHistograms := fun x hx => h.madeHistograms x (hH hx)

theorem counter (m : Metrics) (family : CounterFamily) (labels : List String) :
    Grown {(family, labels)} ∅ m (m.counter family labels).2 where
  kernelMode := rfl
  counters x _ hx :=
    MetricVec.lookup_update_withLabelValues_of_lookup m.counters family hx 0 labels
  newCounters x i hx := by
    have hlookup :=
      (MetricVec.lookup_update_withLabelValues m.counters family 0 labels x).symm.trans hx
    split at hlookup
    next hnew => exact .inr hnew
    · exact .inl hlookup
  histograms := fun _ _ hx => hx
  madeHistograms := nofun

theorem histogram (m : Metrics) (family : HistogramFamily) (labels : List String) :
    Grown ∅ {(family, labels)} m (m.histogram family labels).2 where
  kernelMode := rfl
  counters := fun _ _ hx => hx
  newCounters := fun _ _ hx => .inl hx
  histograms x _ hx :=
    MetricVec.lookup_update_withLabelValues_of_lookup m.histograms family hx [] labels
  madeHistograms x hx := by
    rw [Set.mem_singleton_iff.mp hx]
    exact ⟨_, (MetricVec.lookup_update_withLabelValues m.histograms family [] labels _).trans
      (if_pos rfl)⟩

theorem counterOpt (m : Metrics) (family : CounterFamily) (labels : Option (List String)) :
    Grown {x | labels.map (family, ·) = some x} ∅ m (m.counterOpt family labels).2 := by
  cases labels with
  | none => exact (refl m).mono (Set.empty_subset _) (Set.empty_subset _)
  | some labels =>
    refine (counter m family labels).mono ?_ (Set.empty_subset _)
    rintro x rfl
    rfl

theorem histogramOpt (m : Metrics) (family : HistogramFamily) (labels : Option (List String)) :
    Grown ∅ {x | labels.map (family, ·) = some x} m (m.histogramOpt family labels).2 := by
  cases labels with
  | none => exact (refl m).mono (Set.empty_subset _) nofun
  | some labels =>
    refine (histogram m family labels).mono (Set.empty_subset _) ?_
    rintro x hx
    exact (Option.some.inj hx).symm

end Grown

/-! ## Attached counters -/

/-- A counter of a handle is the child its labels point at. -/
def Attached (m : Metrics) (x : CounterFamily × Option CounterRef × Option (List String)) : Prop :=
  match x.2.1, x.2.2 with
  | some c, some labels => c.family = x.1 ∧ m.counterIndex (x.1, labels) = some c.index
  | none, none => True
  | _, _ => False

theorem Attached.mono {m m' : Metrics} {f : CounterFamily} {c : Option CounterRef}
    {labels : Option (List String)} (h : Attached m (f, c, labels))
    (hkept : ∀ l ∈ labels, ∀ i, m.counterIndex (f, l) = some i → m'.counterIndex (f, l) = some i) :
    Attached m' (f, c, labels) := by
  cases c with
  | none => cases labels <;> exact h
  | some c =>
    cases labels with
    | none => exact h
    | some l => exact ⟨h.1, hkept l rfl _ h.2⟩

theorem attached_counter (m : Metrics) (family : CounterFamily) (labels : List String) :
    Attached (m.counter family labels).2
      (family, some (m.counter family labels).1, some labels) := by
  refine ⟨rfl, ?_⟩
  simp only [Metrics.counterIndex, Metrics.counter, Function.update_self]
  exact MetricVec.lookup_withLabelValues_self _ _ _

theorem attached_counterOpt (m : Metrics) (family : CounterFamily)
    (labels : Option (List String)) :
    Attached (m.counterOpt family labels).2 (family, (m.counterOpt family labels).1, labels) := by
  cases labels with
  | none => trivial
  | some labels => exact attached_counter m family labels

theorem Attached.grown {C : Set (CounterFamily × List String)}
    {H : Set (HistogramFamily × List String)} {m m' : Metrics}
    {x : CounterFamily × Option CounterRef × Option (List String)} (h : Attached m x)
    (hgrown : Grown C H m m') : Attached m' x :=
  Attached.mono h fun _ _ _ hi => hgrown.counters _ _ hi

/-- Creating a handle exports its series, and attaches its counters to them. -/
theorem createHandles_grown (m : Metrics) (eventType : EventType) (l : HandleLabels) :
    let r := createHandles m eventType l
    Grown {x | x ∈ ownedSeries eventType l} {x | x ∈ recordedHistograms eventType l} m r.2 ∧
      ∀ x ∈ r.1.held eventType, Attached r.2 x := by
  -- the registry after each of the eight requests, and how it grows from one to the next
  let m₁ := (m.counter (callsFamily eventType) l.callsLabels).2
  let m₂ := (m₁.histogram (durationFamily eventType) l.histLabels).2
  let m₃ := (m₂.counterOpt .ncclBytes l.ncclBytesLabels).2
  let m₄ := (m₃.counterOpt .cudaMemcpyBytes l.memcpyLabels).2
  let m₅ := (m₄.counterOpt .cudaMallocBytes l.mallocLabels).2
  let m₆ := (m₅.counterOpt .cudaKernelLaunches l.kernelCounterLabels).2
  let m₇ := (m₆.histogramOpt .cudaKernelDuration l.kernelHistLabels).2
  have h₁ := Grown.counter m (callsFamily eventType) l.callsLabels
  have h₂ := Grown.histogram m₁ (durationFamily eventType) l.histLabels
  have h₃ := Grown.counterOpt m₂ .ncclBytes l.ncclBytesLabels
  have h₄ := Grown.counterOpt m₃ .cudaMemcpyBytes l.memcpyLabels
  have h₅ := Grown.counterOpt m₄ .cudaMallocBytes l.mallocLabels
  have h₆ := Grown.counterOpt m₅ .cudaKernelLaunches l.kernelCounterLabels
  have h₇ := Grown.histogramOpt m₆ .cudaKernelDuration l.kernelHistLabels
  have h₈ := Grown.counterOpt m₇ .cudaErrors l.errorsLabels
  have h₆₈ := h₇.trans h₈
  have h₅₈ := h₆.trans h₆₈
  have h₄₈ := h₅.trans h₅₈
  have h₃₈ := h₄.trans h₄₈
  have h₁₈ := h₂.trans (h₃.trans h₃₈)
  refine ⟨(h₁.trans h₁₈).mono ?_ ?_, ?_⟩
  · intro x hx
    simp only [Set.mem_union, Set.mem_ofPred_eq, Set.mem_singleton_iff, Set.mem_empty_iff_false,
      false_or] at hx
    simp only [ownedSeries, Set.mem_ofPred_eq, List.mem_filterMap, List.mem_cons, List.not_mem_nil,
      or_false, exists_eq_or_imp, exists_eq_left, Option.map_some, Option.some.injEq]
    tauto
  · intro x hx
    simp only [recordedHistograms, Set.mem_ofPred_eq, List.mem_cons, List.mem_map,
      Option.mem_toList] at hx
    rcases hx with hx | ⟨labels, hlabels, rfl⟩
    · exact .inr (.inl hx)
    · have hmem : (HistogramFamily.cudaKernelDuration, labels) ∈
          {x | l.kernelHistLabels.map (HistogramFamily.cudaKernelDuration, ·) = some x} := by
        rw [Set.mem_ofPred_eq, hlabels]
        rfl
      exact .inr (.inr (.inr (.inr (.inr (.inr (.inl hmem))))))
  · intro x hx
    simp only [CachedHandles.held, List.mem_cons, List.not_mem_nil, or_false] at hx
    rcases hx with rfl | rfl | rfl | rfl | rfl | rfl
    · exact (attached_counter m (callsFamily eventType) l.callsLabels).grown h₁₈
    · exact (attached_counterOpt m₃ .cudaMemcpyBytes l.memcpyLabels).grown h₄₈
    · exact (attached_counterOpt m₄ .cudaMallocBytes l.mallocLabels).grown h₅₈
    · exact (attached_counterOpt m₂ .ncclBytes l.ncclBytesLabels).grown h₃₈
    · exact (attached_counterOpt m₅ .cudaKernelLaunches l.kernelCounterLabels).grown h₆₈
    · exact attached_counterOpt m₇ .cudaErrors l.errorsLabels

/-! ## What an operation does to the registry -/

/-- An increment through a held counter changes no series. -/
theorem Metrics.counterIndex_incBy (m : Metrics) (c : CounterRef) (x : ℕ)
    (y : CounterFamily × List String) : (m.incBy c x).counterIndex y = m.counterIndex y :=
  MetricVec.lookup_update_modify m.counters c.family c.index (· + x) y

theorem Metrics.histogramIndex_observe (m : Metrics) (h : HistogramRef) (durationNs : U64)
    (y : HistogramFamily × List String) :
    (m.observe h durationNs).histogramIndex y = m.histogramIndex y :=
  MetricVec.lookup_update_modify m.histograms h.family h.index (· ++ [durationNs]) y

theorem incBy_grown (m : Metrics) (c : CounterRef) (x : ℕ) : Grown ∅ ∅ m (m.incBy c x) :=
  Grown.of_same rfl (m.counterIndex_incBy c x) fun _ => rfl

/-- A write adds at most a duration series. -/
theorem MetricWrite.grown (m : Metrics) (w : MetricWrite) :
    Grown {x | x.1.byLabels = true} ∅ m (w.apply m) := by
  cases w with
  | incBy c x => exact (incBy_grown m c x).mono (Set.empty_subset _) subset_rfl
  -- the one write that may make a series
  | incLabels family hfamily labels x =>
    refine ((Grown.counter m family labels).trans (incBy_grown _ _ x)).mono ?_
      (Set.empty_subset _)
    rintro y (rfl | hy)
    · exact hfamily
    · exact hy.elim
  | observe h durationNs =>
    have hsame : Grown ∅ ∅ m (m.observe h durationNs) :=
      Grown.of_same rfl (fun _ => rfl) (m.histogramIndex_observe h durationNs)
    exact hsame.mono (Set.empty_subset _) subset_rfl
  | setTrackedPids x =>
    have hsame : Grown ∅ ∅ m { m with trackedPids := x } :=
      Grown.of_same rfl (fun _ => rfl) fun _ => rfl
    exact hsame.mono (Set.empty_subset _) subset_rfl
  | setActiveMemory labels bytes =>
    have hsame : Grown ∅ ∅ m (m.setActiveMemory labels bytes) :=
      Grown.of_same rfl (fun _ => rfl) fun _ => rfl
    exact hsame.mono (Set.empty_subset _) subset_rfl

/-- A handle was created for a key that had none: its series are exported, its counters
    attached. -/
structure Created (key : MetricKey) (h : CachedHandles) (s s' : CacheState) : Prop where
  fresh : key ∉ s.cache.handles
  handles : s'.cache.handles = s.cache.handles.insert key h
  series : Grown {x | x ∈ ownedSeries key.eventType h.labels}
    {x | x ∈ recordedHistograms key.eventType h.labels} s.metrics s'.metrics
  attached : ∀ x ∈ h.held key.eventType, Attached s'.metrics x

namespace CacheState

variable {limits : CardinalityLimits} {s : CacheState}

/-- A removal is an eviction of the handles of its processes. -/
theorem evicts_of_isRemoval (limits : CardinalityLimits) (s : CacheState) {op : CacheOp}
    (hop : op.IsRemoval) :
    Evicts (·.pid ∈ op.removes s) (s.metrics, s.cache)
      ((s.step limits op).metrics, (s.step limits op).cache) := by
  cases op with
  | invalidatePids pids => exact Evicts.invalidatePids s.cache pids s.metrics
  | gc now staleAfter => exact Evicts.gc s.cache s.metrics now staleAfter
  | _ => exact hop.elim

/-- Three things can happen to the series: a handle is created with its own, duration series are
    added by a write, or the handles of some processes are removed with theirs. -/
theorem step_series (limits : CardinalityLimits) (s : CacheState) (op : CacheOp) :
    (∃ r, op = .getOrCreate r ∧
      Created (s.cache.collapseKey limits r.key).1 (s.serve limits r).1 s (s.step limits op)) ∨
    ((s.step limits op).cache.handles = s.cache.handles ∧
      Grown {x | x.1.byLabels = true} ∅ s.metrics (s.step limits op).metrics) ∨
    Evicts (·.pid ∈ op.removes s) (s.metrics, s.cache)
      ((s.step limits op).metrics, (s.step limits op).cache) := by
  have hsame : Grown {x | x.1.byLabels = true} ∅ s.metrics s.metrics :=
    (Grown.refl s.metrics).mono (Set.empty_subset _) subset_rfl
  cases op with
  | getOrCreate r =>
    have hhandles : (s.cache.collapseKey limits r.key).2.handles = s.cache.handles :=
      (s.cache.collapseKey_frame limits r.key).1
    have hdrop : ∀ x, Grown ∅ ∅ s.metrics { s.metrics with cardinalityDrops := x } :=
      fun x => Grown.of_same rfl (fun _ => rfl) fun _ => rfl
    -- hit, fallback and creation: only the last writes handles
    rcases s.cache.getOrCreate_cases r.key s.metrics r.env r.event s.kernelNames limits with
      ⟨h, -, heq⟩ | ⟨k, h, -, -, -, -, heq⟩ | ⟨m₁, hnone, hwhy, heq⟩
    · right; left
      simp only [step, serve, heq]
      exact ⟨hhandles, hsame⟩
    · right; left
      simp only [step, serve, heq]
      exact ⟨hhandles, (hdrop _).mono (Set.empty_subset _) subset_rfl⟩
    · left
      refine ⟨r, rfl, AList.lookup_eq_none.mp hnone, ?_, ?_, ?_⟩
      · simp only [step, serve, heq, Cache.createHandle, hhandles]
      · have hm₁ : Grown ∅ ∅ s.metrics m₁ := by
          rcases hwhy with ⟨-, rfl⟩ | ⟨-, rfl⟩
          · exact .refl _
          · exact hdrop _
        have hcreated := (createHandles_grown m₁ (s.cache.collapseKey limits r.key).1.eventType
          (handleLabels m₁.kernelMode r.env s.kernelNames (s.cache.collapseKey limits r.key).1
            r.event)).1
        rw [hm₁.kernelMode] at hcreated
        simp only [step, serve, heq, Cache.createHandle]
        rw [hm₁.kernelMode]
        exact (hm₁.trans hcreated).mono (fun _ hx => hx.resolve_left (Set.notMem_empty _))
          fun _ hx => .inr hx
      · simp only [step, serve, heq, Cache.createHandle]
        exact (createHandles_grown m₁ _ _).2
  | touch now pid => exact .inr (.inl ⟨rfl, hsame⟩)
  | nameKernel pid addr name => exact .inr (.inl ⟨rfl, hsame⟩)
  | write w => exact .inr (.inl ⟨rfl, w.grown s.metrics⟩)
  | invalidatePids pids => exact .inr (.inr (evicts_of_isRemoval limits s trivial))
  | gc now staleAfter => exact .inr (.inr (evicts_of_isRemoval limits s trivial))

end CacheState

end Profi
