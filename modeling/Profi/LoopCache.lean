import Profi.CacheLimits
import Profi.Ownership
import Profi.Writes

/-!
# The Event Loop as a User of the Cache

Every arm of the event loop works on the cache, the registry and the kernel names through the
operations of `CacheOp`, and makes its requests for events of the requested key. So the states
the profiler reaches are states of cache runs (`Sys.loop_reaches`), and what holds of all cache
runs holds of the profiler (`Sys.cache_sound`).
-/

namespace Profi

variable {n : ℕ}

/-! ## Writes -/

/-- From `m` to `m'` by writes to the registry. -/
def Metrics.Writes (m m' : Metrics) : Prop :=
  ∃ ws : List MetricWrite, ws.foldl MetricWrite.apply m = m'

namespace Metrics.Writes

theorem single (m : Metrics) (w : MetricWrite) : m.Writes (w.apply m) := ⟨[w], rfl⟩

/-- What is counted for a record is written. -/
theorem record (m : Metrics) (h : CachedHandles) (r : Record) : m.Writes (r.write m h) :=
  ⟨r.writes m.kernelMode h, (r.write_eq m h).symm⟩

end Metrics.Writes

/-! ## Cache runs -/

/-- From `s` to `s'` by operations whose requests are made for events of their keys. -/
def CacheState.Reaches (limits : CardinalityLimits) (s s' : CacheState) : Prop :=
  ∃ ops : List CacheOp, (∀ op ∈ ops, op.Matched) ∧ Runs.run (step limits) s ops = s'

namespace CacheState.Reaches

variable {limits : CardinalityLimits} {s s' s'' : CacheState}

theorem refl (s : CacheState) : s.Reaches limits s := ⟨[], by simp, rfl⟩

theorem trans (h : s.Reaches limits s') (h' : s'.Reaches limits s'') : s.Reaches limits s'' := by
  obtain ⟨ops, hops, rfl⟩ := h
  obtain ⟨ops', hops', rfl⟩ := h'
  refine ⟨ops ++ ops', ?_, Runs.run_append _ _ _ _⟩
  intro op hop
  rcases List.mem_append.mp hop with hop | hop
  · exact hops op hop
  · exact hops' op hop

theorem step (s : CacheState) (op : CacheOp) (hop : op.Matched) :
    s.Reaches limits (s.step limits op) :=
  ⟨[op], by simpa using hop, rfl⟩

theorem writes {m : Metrics} (h : s.metrics.Writes m) :
    s.Reaches limits { s with metrics := m } := by
  obtain ⟨ws, rfl⟩ := h
  induction ws generalizing s with
  | nil => exact refl s
  | cons w ws ih =>
    have hhead : s.Reaches limits (s.step limits (.write w)) := step s _ trivial
    exact hhead.trans ih

/-- What the operations keep holds of everything that is reached. -/
theorem invariant {I : CacheState → Prop}
    (hstep : ∀ s op, I s → op.Matched → I (s.step limits op)) (h : s.Reaches limits s')
    (hs : I s) : I s' := by
  obtain ⟨ops, hops, rfl⟩ := h
  exact Runs.run_invariant hstep hs (Runs.along_of_forall hops s)

theorem owned (h : s.Reaches limits s') (hs : s.Owned) : s'.Owned :=
  h.invariant (fun _ _ h hop => owned_step h hop.ofProcess) hs

theorem kernelMode (h : s.Reaches limits s') : s'.metrics.kernelMode = s.metrics.kernelMode := by
  refine h.invariant (I := fun s' => s'.metrics.kernelMode = s.metrics.kernelMode) ?_ rfl
  intro s₁ op heq _
  rcases step_series limits s₁ op with ⟨r, -, hcreated⟩ | ⟨-, hgrown⟩ | hevicts
  · exact hcreated.series.kernelMode.trans heq
  · exact hgrown.kernelMode.trans heq
  · exact hevicts.series.kernelMode.trans heq

/-- A loop reaches what its rounds reach. -/
theorem foldl {T α : Type} {f : T → α → T} {g : T → CacheState}
    (hf : ∀ t a, (g t).Reaches limits (g (f t a))) (t : T) (xs : List α) :
    (g t).Reaches limits (g (xs.foldl f t)) := by
  induction xs generalizing t with
  | nil => exact refl _
  | cons a xs ih => exact (hf t a).trans (ih (f t a))

end CacheState.Reaches

/-! ## The arms -/

namespace Loop

/-- The part of the loop's state the cache works on. -/
def cacheState (l : Loop) : CacheState := ⟨l.metrics, l.cache, l.kernelNames⟩

open CacheState (Reaches)

variable (args : Args) (env : LoopEnv)

theorem getHandle_reaches (l : Loop) {key : MetricKey} {event : CudaEvent}
    (hpid : event.pid = key.pid) (htype : event.eventType = key.eventType) :
    l.cacheState.Reaches args.limits (l.getHandle args env key event).2.cacheState :=
  Reaches.step l.cacheState (.getOrCreate ⟨key, env.cacheEnv, event⟩) ⟨hpid, htype⟩

theorem touchPid_reaches (l : Loop) (pid : U32) :
    l.cacheState.Reaches args.limits (l.touchPid env pid).cacheState := by
  have htouch : ∀ s : CacheState,
      s.Reaches args.limits { s with cache := s.cache.touch env.now pid } :=
    fun s => Reaches.step s (.touch env.now pid) trivial
  rw [touchPid_frame]
  exact (Reaches.writes (.single l.metrics (.setTrackedPids _))).trans (htouch _)

/-- A request, then writes to the registry, then a touch: what all arms do for a record. -/
theorem processRecord_reaches (x : Loop × MemDelta) (r : Record) :
    x.1.cacheState.Reaches args.limits (processRecord args env x r).1.cacheState := by
  cases hrequest : r.request with
  | none =>
    rw [processRecord_of_none args env hrequest]
    exact .refl _
  | some key =>
    rw [processRecord_of_some args env hrequest]
    obtain ⟨-, rfl⟩ := Record.request_eq_some.mp hrequest
    have hmatched : r.event.pid = r.metricKey.pid ∧ r.event.eventType = r.metricKey.eventType := by
      cases r <;> exact ⟨rfl, rfl⟩
    have hget := getHandle_reaches args env x.1 hmatched.1 hmatched.2
    let answer := x.1.getHandle args env r.metricKey r.event
    let counted : Loop := { answer.2 with metrics := r.write answer.2.metrics answer.1 }
    have hwrites : answer.2.cacheState.Reaches args.limits counted.cacheState :=
      Reaches.writes (.record answer.2.metrics answer.1 r)
    exact (hget.trans hwrites).trans (touchPid_reaches args env counted r.pid)

theorem registerKernel_reaches (l : Loop) (reg : KernelRegEvent) :
    l.cacheState.Reaches args.limits (registerKernel env l reg).cacheState := by
  unfold registerKernel
  split
  · exact .refl _
  · split
    next name _ => exact Reaches.step l.cacheState (.nameKernel reg.pid reg.hostFun name) trivial
    · exact .refl _

theorem invalidateChanged_reaches (l : Loop) :
    l.cacheState.Reaches args.limits (l.invalidateChanged env).cacheState := by
  rw [invalidateChanged_eq]
  exact Reaches.step l.cacheState (.invalidatePids env.changedPids) trivial

theorem addActiveMemory_reaches (l : Loop) (pid : U32) (delta : I64) :
    l.cacheState.Reaches args.limits (l.addActiveMemory env pid delta).cacheState :=
  Reaches.step l.cacheState (.write (.setActiveMemory (gaugeLabels env pid)
    ((l.activeMemory.lookup pid).getD 0 + delta))) trivial

theorem flushActiveMemory_reaches (l : Loop) (delta : MemDelta) :
    l.cacheState.Reaches args.limits (l.flushActiveMemory env delta).cacheState := by
  exact Reaches.foldl (f := fun l (e : (_ : U32) × I64) => l.addActiveMemory env e.1 e.2)
    (g := cacheState) (fun l e => addActiveMemory_reaches args env l e.1 e.2) l delta.entries

theorem gcTick_reaches (l : Loop) :
    l.cacheState.Reaches args.limits (l.gcTick args env).cacheState := by
  unfold gcTick
  simp only [Cache.gc_stalePids]
  exact Reaches.step l.cacheState (.gc env.now (args.gcInterval * 1000000000)) trivial

end Loop

/-! ## The profiler -/

namespace Sys

variable {args : Args}

theorem armStart_reaches (s : Sys n) (e : Event n) :
    s.loop.cacheState.Reaches args.limits (s.armStart args e).cacheState := by
  cases e with
  | consume env => exact Loop.invalidateChanged_reaches args env s.loop
  | aggTick env =>
    rw [armStart_aggTick]
    exact .refl _
  | gcTick env => exact Loop.gcTick_reaches args env s.loop
  | _ => exact .refl _

theorem armEnd_reaches (s : Sys n) (e : Event n) (x : Loop × MemDelta) :
    x.1.cacheState.Reaches args.limits (s.armEnd args e x).cacheState := by
  cases e with
  | consume env =>
    exact CacheState.Reaches.foldl (g := Loop.cacheState) (Loop.registerKernel_reaches args env)
      x.1 (s.registrations args (.consume env))
  | aggTick env => exact Loop.flushActiveMemory_reaches args env x.1 x.2
  | nameKernel pid addr name =>
    exact CacheState.Reaches.step x.1.cacheState (.nameKernel pid addr name) trivial
  | _ => exact .refl _

theorem step_reaches (s : Sys n) (e : Event n) :
    s.loop.cacheState.Reaches args.limits (s.step args e).loop.cacheState := by
  have hrecords := CacheState.Reaches.foldl (g := fun x : Loop × MemDelta => x.1.cacheState)
    (Loop.processRecord_reaches args e.env) (s.armStart args e, ∅) (s.records args e)
  rw [step_loop]
  exact ((s.armStart_reaches e).trans hrecords).trans (s.armEnd_reaches e (s.handled args e))

/-- What the event loop has made of the cache is a run of the cache. -/
theorem loop_reaches (args : Args) (n : ℕ) (es : List (Event n)) :
    (CacheState.init args.kernelMode).Reaches args.limits (run args n es).loop.cacheState :=
  CacheState.Reaches.foldl (g := fun s : Sys n => s.loop.cacheState) step_reaches
    (Sys.init n args) es

/-- **The cache of the profiler.** What the event loop has made of the cache is a run of the cache.
    In every state the profiler reaches, the table of handles is within the global limit but for one
    handle for each process, the handles of a process are within its limits, and the exported series
    of the families that carry the process are those of the cached handles. -/
theorem cache_sound (args : Args) (n : ℕ) (es : List (Event n)) :
    let s := (run args n es).loop.cacheState
    (CacheState.init args.kernelMode).Reaches args.limits s ∧
      s.Bounded args.limits ∧ CacheState.CapsOk args.limits s ∧ s.Owned := by
  intro s
  refine ⟨loop_reaches args n es, ?_⟩
  obtain ⟨ops, hops, hrun⟩ := loop_reaches args n es
  have hs : s = CacheState.run args.kernelMode args.limits ops := hrun.symm
  rw [hs]
  refine ⟨?_, CacheState.capsOk_run args.kernelMode args.limits ops, ?_⟩
  · exact CacheState.bounded_run args.kernelMode args.limits ops
  · exact CacheState.owned_run (Runs.along_of_forall (fun op hop => (hops op hop).ofProcess) _)

end Sys

end Profi
