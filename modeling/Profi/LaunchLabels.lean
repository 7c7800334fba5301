import Profi.CacheLimits
import Profi.EventLoop

/-!
# The Labels of Launches

A launch handle gets its kernel name and its phase when it is created, and keeps them. Its key
has the address of the kernel and a hash of the marker in it, but neither the name nor the
marker, so later launches may find a handle whose labels are not theirs:

- `uses_names_iff`: known kernel names are used exactly if no name arrives for a kernel that
  already has a handle under another one
- `own_phase_iff`: launches get the phase of their own marker exactly if no two launches that
  share a handle have markers of different phases; `nvtx_hash` does not rule this out
-/

namespace Profi

/-- The `kernel` label of a launch handle. -/
def HandleLabels.kernel (l : HandleLabels) : Option String := l.kernelCounterLabels.bind List.head?

/-- The `phase` label of a launch handle. -/
def HandleLabels.phase (l : HandleLabels) : Option String :=
  l.kernelCounterLabels.bind List.getLast?

/-- The phase of an event's own marker. -/
def CudaEvent.phase (event : CudaEvent) : String :=
  sanitizePhase ((CacheEnv.cStr event.nvtxMarker).getD "")

/-- What a launch handle is labelled with when it is created. -/
theorem handleLabels_launch {key : MetricKey} (hlaunch : key.eventType = .cudaLaunchKernel)
    (mode : KernelMode) (env : CacheEnv) (kernelNames : KernelNames) (event : CudaEvent) :
    (handleLabels mode env kernelNames key event).kernel =
        some (kernelName kernelNames event.pid key.addr) ∧
      (handleLabels mode env kernelNames key event).phase = some event.phase := by
  have hnccl : profiIsNcclEvent .cudaLaunchKernel = false := rfl
  simp [HandleLabels.kernel, HandleLabels.phase, handleLabels, hnccl, hlaunch, CudaEvent.phase]

theorem kernelName_of_lookup {kernelNames : KernelNames} {pid : U32} {addr : U64} {name : String}
    (haddr : addr ≠ 0) (h : kernelNames.lookup (pid, addr) = some name) :
    kernelName kernelNames pid addr = name := by
  rw [kernelName, if_pos haddr, h]
  rfl

theorem KernelNames.lookup_of_forget {kernelNames : KernelNames} {stale : List U32}
    {k : U32 × U64} {name : String} (h : (kernelNames.forget stale).lookup k = some name) :
    kernelNames.lookup k = some name := by
  rw [KernelNames.forget, FinMap.lookup_foldl_erase] at h
  split at h
  · cases h
  · exact h

namespace CacheState

variable {limits : CardinalityLimits} {s : CacheState} {kernelMode : KernelMode}

/-! ## Requests below the limits -/

/-- No limit affects a request for this key. -/
def BelowCaps (limits : CardinalityLimits) (s : CacheState) (key : MetricKey) : Prop :=
  (s.cache.collapseKey limits key).1 = key ∧
    (key ∈ s.cache.handles ∨ s.cache.handles.size < limits.maxTimeSeries)

instance BelowCaps.decidable (limits : CardinalityLimits) (s : CacheState) (key : MetricKey) :
    Decidable (s.BelowCaps limits key) :=
  inferInstanceAs (Decidable (_ ∧ _))

/-- A request creates the handle of its collapsed key with labels made up on the spot, or it
    leaves the table alone. In that case, below the limits, it was a hit. -/
theorem request_cases (limits : CardinalityLimits) (s : CacheState) (r : CacheRequest) :
    ((s.cache.collapseKey limits r.key).1 ∉ s.cache.handles ∧
      (s.serve limits r).1.labels = handleLabels s.metrics.kernelMode r.env s.kernelNames
        (s.cache.collapseKey limits r.key).1 r.event ∧
      (s.step limits (.getOrCreate r)).cache.handles =
        s.cache.handles.insert (s.cache.collapseKey limits r.key).1 (s.serve limits r).1) ∨
    ((s.step limits (.getOrCreate r)).cache.handles = s.cache.handles ∧
      (s.BelowCaps limits r.key →
        s.cache.handles.lookup r.key = some (s.serve limits r).1)) := by
  have hhandles : (s.cache.collapseKey limits r.key).2.handles = s.cache.handles :=
    (s.cache.collapseKey_frame limits r.key).1
  rcases s.cache.getOrCreate_cases r.key s.metrics r.env r.event s.kernelNames limits with
    ⟨h, hhit, heq⟩ | ⟨k, h, hmiss, hfull, -, -, heq⟩ | ⟨m₁, hmiss, hwhy, heq⟩
  · -- a hit: below its caps a request keeps its own key, so the handle is that key's
    right
    simp only [step, serve, heq, hhandles, true_and]
    rintro ⟨hkey, -⟩
    rw [hkey] at hhit
    exact hhit
  · -- the fallback, which below its caps a request never gets
    right
    simp only [step, serve, heq, hhandles, true_and]
    rintro ⟨hkey, hmem | hlt⟩
    · rw [hkey] at hmiss
      exact absurd hmem (AList.lookup_eq_none.mp hmiss)
    · exact absurd hfull (not_le.mpr hlt)
  · -- a new handle
    left
    have hmode : m₁.kernelMode = s.metrics.kernelMode := by
      rcases hwhy with ⟨-, rfl⟩ | ⟨-, rfl⟩ <;> rfl
    refine ⟨AList.lookup_eq_none.mp hmiss, ?_, ?_⟩
    · simp only [serve, heq, Cache.createHandle, createHandles]
      rw [hmode]
    · simp only [step, serve, heq, Cache.createHandle, hhandles]

/-- After a request below the limits, the table maps its key to the answer, and all other keys
    to what it did before. -/
theorem lookup_request {r : CacheRequest} (hr : s.BelowCaps limits r.key) (k : MetricKey) :
    (s.step limits (.getOrCreate r)).cache.handles.lookup k =
      if k = r.key then some (s.serve limits r).1 else s.cache.handles.lookup k := by
  rcases request_cases limits s r with ⟨-, -, hinsert⟩ | ⟨hsame, hhit⟩
  · rw [hinsert, hr.1]
    by_cases hk : k = r.key
    · subst hk
      simp
    · simp [hk, AList.lookup_insert_ne hk]
  · rw [hsame]
    by_cases hk : k = r.key
    · subst hk
      simpa using hhit hr
    · simp [hk]

/-- The answer to a launch below the limits is cached, or has the labels of this launch. -/
theorem serve_launch {r : CacheRequest} (hr : s.BelowCaps limits r.key)
    (hlaunch : r.key.eventType = .cudaLaunchKernel) :
    s.cache.handles.lookup r.key = some (s.serve limits r).1 ∨
      r.key ∉ s.cache.handles ∧
      (s.serve limits r).1.labels.kernel =
        some (kernelName s.kernelNames r.event.pid r.key.addr) ∧
      (s.serve limits r).1.labels.phase = some r.event.phase := by
  rcases request_cases limits s r with ⟨hnew, hlabels, -⟩ | ⟨-, hhit⟩
  · rw [hr.1] at hnew hlabels
    rw [hlabels]
    exact .inr ⟨hnew, handleLabels_launch hlaunch _ _ _ _⟩
  · exact .inl (hhit hr)

/-! ## Kernel names -/

/-- Every launch of a kernel with a known name that no limit affects gets a handle with that
    name. -/
def UsesNames (limits : CardinalityLimits) (s : CacheState) : Prop :=
  ∀ r : CacheRequest, r.Matched → r.key.eventType = .cudaLaunchKernel → r.key.addr ≠ 0 →
    s.BelowCaps limits r.key → ∀ name,
      s.kernelNames.lookup (r.key.pid, r.key.addr) = some name →
        (s.serve limits r).1.labels.kernel = some name

/-- A name arrives before the first handle of its kernel, or is the one the handles have. -/
def NamesInTime (s : CacheState) : CacheOp → Prop
  | .nameKernel pid addr name => addr ≠ 0 → ∀ k h, s.cache.handles.lookup k = some h →
      k.eventType = .cudaLaunchKernel → k.pid = pid → k.addr = addr → h.labels.kernel = some name
  | _ => True

/-- The cached launch handles have the known names of their kernels. -/
def NamesShown (s : CacheState) : Prop :=
  ∀ k h, s.cache.handles.lookup k = some h → k.eventType = .cudaLaunchKernel → k.addr ≠ 0 →
    ∀ name, s.kernelNames.lookup (k.pid, k.addr) = some name → h.labels.kernel = some name

/-- A name that is used for every launch is one the cached handles have, as cached keys are
    below the limits. -/
theorem usesNames_iff (hcaps : CapsOk limits s) : s.UsesNames limits ↔ s.NamesShown := by
  constructor
  · intro huses k h hlookup hlaunch haddr name hname
    have hmem : k ∈ s.cache.handles := FinMap.mem_iff_lookup.mpr ⟨h, hlookup⟩
    have hbelow : s.BelowCaps limits k := ⟨hcaps.collapseKey_of_mem hmem, .inl hmem⟩
    -- any event of the key will do
    let r : CacheRequest :=
      { key := k
        env := ⟨fun _ => none, fun _ => none, fun _ => none, KeyOrder.asListed _⟩
        event := ⟨k.eventType, k.pid, 0, 0, 0, 0, 0, 0, 0, [], [], 0⟩ }
    have hserved := huses r ⟨rfl, rfl⟩ hlaunch haddr hbelow name hname
    rcases serve_launch (r := r) hbelow hlaunch with hhit | ⟨hnew, -⟩
    · rw [← Option.some.inj (hlookup.symm.trans hhit)] at hserved
      exact hserved
    · exact absurd hmem hnew
  · intro hshown r hr hlaunch haddr hbelow name hname
    rcases serve_launch hbelow hlaunch with hhit | ⟨-, hkernel, -⟩
    · exact hshown r.key _ hhit hlaunch haddr name hname
    · rw [hkernel, hr.pid, kernelName_of_lookup haddr hname]

/-- A step keeps the names shown exactly if it brings no name too late. -/
theorem namesShown_step (hs : s.NamesShown) {op : CacheOp} (hop : op.Matched) :
    (s.step limits op).NamesShown ↔ s.NamesInTime op := by
  cases op with
  | getOrCreate r =>
    refine iff_of_true ?_ trivial
    intro k h hlookup hlaunch haddr name hname
    have hname : s.kernelNames.lookup (k.pid, k.addr) = some name := hname
    rcases request_cases limits s r with ⟨-, hlabels, hinsert⟩ | ⟨hsame, -⟩
    · rw [hinsert] at hlookup
      rcases FinMap.lookup_insert_cases hlookup with ⟨rfl, rfl⟩ | ⟨-, hold⟩
      · have hpid : r.event.pid = (s.cache.collapseKey limits r.key).1.pid :=
          (CacheRequest.Matched.pid hop).trans (s.cache.collapseKey_sameCall limits r.key).pid.symm
        rw [hlabels, (handleLabels_launch hlaunch _ _ _ _).1, hpid,
          kernelName_of_lookup haddr hname]
      · exact hs k h hold hlaunch haddr name hname
    · rw [hsame] at hlookup
      exact hs k h hlookup hlaunch haddr name hname
  | nameKernel pid addr name =>
    constructor
    · rintro hshown haddr k h hlookup hlaunch rfl rfl
      exact hshown k h hlookup hlaunch haddr name (AList.lookup_insert _)
    · intro htime k h hlookup hlaunch haddr name' hname
      rcases FinMap.lookup_insert_cases hname with ⟨hk, rfl⟩ | ⟨-, hold⟩
      · obtain ⟨hpid, hkaddr⟩ := Prod.mk.inj hk
        rw [hkaddr] at haddr
        exact htime haddr k h hlookup hlaunch hpid hkaddr
      · exact hs k h hlookup hlaunch haddr name' hold
  | invalidatePids pids =>
    refine iff_of_true ?_ trivial
    intro k h hlookup
    exact hs k h (cached_of_step (by simp) hlookup).2
  | gc now staleAfter =>
    refine iff_of_true ?_ trivial
    intro k h hlookup hlaunch haddr name hname
    -- a name that is still known was known before
    exact hs k h (cached_of_step (by simp) hlookup).2 hlaunch haddr name
      (KernelNames.lookup_of_forget hname)
  | touch now pid => exact iff_of_true hs trivial
  | write w => exact iff_of_true hs trivial

/-- **Kernel names.** In every state of a run, launches of kernels with a known name that no
    limit affects get handles with that name, exactly if every name of the run arrives before the
    first handle of its kernel or is the one the handles have. -/
theorem uses_names_iff (kernelMode : KernelMode) (limits : CardinalityLimits)
    {ops : List CacheOp}
    (hops : Runs.Along (step limits) (fun _ op => op.Matched) (init kernelMode) ops) :
    (∀ n, (run kernelMode limits (ops.take n)).UsesNames limits) ↔
      Runs.Along (step limits) NamesInTime (init kernelMode) ops := by
  have hshown : (∀ n, (run kernelMode limits (ops.take n)).UsesNames limits) ↔
      ∀ n, (run kernelMode limits (ops.take n)).NamesShown :=
    forall_congr' fun n => usesNames_iff (capsOk_run kernelMode limits (ops.take n))
  rw [hshown]
  refine Runs.forall_take_iff_along (I := fun _ => True) (J := NamesShown)
    (fun _ _ _ _ => trivial) (fun _ _ _ hop hs => namesShown_step hs hop) trivial ?_ hops
  intro k h hlookup
  simp [init, Cache.new] at hlookup

/-- A launch of process 7 with this marker, in an environment that knows nothing. -/
def launchRequest (marker : List U8) : CacheRequest where
  key := CudaEvent.metricKey
    ⟨.cudaLaunchKernel, 7, 7, 0, 0, 0, 0, 0x10, 0, marker, List.replicate 16 0, 0⟩
  env := ⟨fun _ => none, fun _ => none, fun _ => none, KeyOrder.asListed _⟩
  event := ⟨.cudaLaunchKernel, 7, 7, 0, 0, 0, 0, 0x10, 0, marker, List.replicate 16 0, 0⟩

/-- A kernel that is registered before it is launched. -/
theorem uses_names_iff_registered :
    let ops := [.nameKernel 7 0x10 "gemm",
      .getOrCreate (launchRequest (List.replicate 16 0))]
    (run .full {} ops).UsesNames {} := by
  intro ops
  have hall : ∀ n, (run .full {} (ops.take n)).UsesNames {} := by
    refine (uses_names_iff .full {} ?_).mpr ?_
    · exact ⟨trivial, ⟨rfl, rfl⟩, trivial⟩
    · refine ⟨fun _ k h hlookup => ?_, trivial, trivial⟩
      simp [init, Cache.new] at hlookup
  exact hall 2

/-- The name of a kernel arrives after its first launch, which is what asks for it. The next
    launch is below all limits and still counts as unknown. -/
theorem late_name_not_used :
    let r := launchRequest (List.replicate 16 0)
    let s := run .full {} [.getOrCreate r, .nameKernel 7 0x10 "gemm"]
    s.BelowCaps {} r.key ∧ s.kernelNames.lookup (r.key.pid, r.key.addr) = some "gemm" ∧
      (s.serve {} r).1.labels.kernel = some "unknown_0x10" := by
  decide

/-! ## Phases -/

/-- The requests for launches are made for detailed events, and no limit affects them. -/
def DetailedLaunches (limits : CardinalityLimits) (s : CacheState) : CacheOp → Prop
  | .getOrCreate r => r.Matched ∧ (r.key.eventType = .cudaLaunchKernel →
      r.key = r.event.metricKey ∧ s.BelowCaps limits r.key)
  | _ => True

/-- A launch gets a handle with the phase of its own marker. -/
def OwnPhase (limits : CardinalityLimits) (s : CacheState) : CacheOp → Prop
  | .getOrCreate r => r.key.eventType = .cudaLaunchKernel →
      (s.serve limits r).1.labels.phase = some r.event.phase
  | _ => True

end CacheState

/-- The launches an operation is made for. -/
def CacheOp.launches : CacheOp → List CudaEvent
  | .getOrCreate r => if r.key.eventType = .cudaLaunchKernel then [r.event] else []
  | _ => []

/-- The cache, with the launches of each process since its handles were last removed. -/
structure LaunchLog where
  state : CacheState
  launches : List CudaEvent

namespace LaunchLog

variable {limits : CardinalityLimits} {l : LaunchLog}

def init (kernelMode : KernelMode) : LaunchLog := ⟨.init kernelMode, []⟩

def step (limits : CardinalityLimits) (l : LaunchLog) (op : CacheOp) : LaunchLog where
  state := l.state.step limits op
  launches := op.launches ++ l.launches.filter fun event => event.pid ∉ op.removes l.state

/-- No launch on record has the key of this one and a marker of another phase. -/
def SamePhase (l : LaunchLog) : CacheOp → Prop
  | .getOrCreate r => r.key.eventType = .cudaLaunchKernel → ∀ event ∈ l.launches,
      event.metricKey = r.key → event.phase = r.event.phase
  | _ => True

instance SamePhase.decidable (l : LaunchLog) : (op : CacheOp) → Decidable (l.SamePhase op)
  | .getOrCreate r => inferInstanceAs (Decidable (r.key.eventType = .cudaLaunchKernel →
      ∀ event ∈ l.launches, event.metricKey = r.key → event.phase = r.event.phase))
  | .touch _ _ | .invalidatePids _ | .gc _ _ | .nameKernel _ _ _ | .write _ =>
      inferInstanceAs (Decidable True)

/-- The launches on record have cached handles with their phases, and there are no other launch
    handles. -/
structure Kept (l : LaunchLog) : Prop where
  cached : ∀ event ∈ l.launches, ∃ h, l.state.cache.handles.lookup event.metricKey = some h ∧
    h.labels.phase = some event.phase
  recorded : ∀ k ∈ l.state.cache.handles, k.eventType = .cudaLaunchKernel →
    ∃ event ∈ l.launches, event.metricKey = k

theorem kept_init (kernelMode : KernelMode) : (init kernelMode).Kept where
  cached := by
    intro event hevent
    cases hevent
  recorded := by
    intro k hk
    simp [init, CacheState.init, Cache.new] at hk

/-- The handle a launch finds is labelled with the phase of the launches on record. -/
theorem ownPhase_iff (hl : l.Kept) {op : CacheOp} (hop : l.state.DetailedLaunches limits op) :
    l.state.OwnPhase limits op ↔ l.SamePhase op := by
  cases op with
  | getOrCreate r =>
    refine forall_congr' fun hlaunch => ?_
    obtain ⟨-, hbelow⟩ := hop.2 hlaunch
    rcases CacheState.serve_launch hbelow hlaunch with hhit | ⟨hnew, -, hphase⟩
    · constructor
      · intro hown event hevent hkey
        obtain ⟨h, hlookup, hphase⟩ := hl.cached event hevent
        rw [hkey, hhit] at hlookup
        cases hlookup
        exact Option.some.inj (hphase.symm.trans hown)
      · intro hsame
        -- a cached handle has a launch on record
        obtain ⟨event, hevent, hkey⟩ :=
          hl.recorded r.key (FinMap.mem_iff_lookup.mpr ⟨_, hhit⟩) hlaunch
        obtain ⟨h, hlookup, hphase⟩ := hl.cached event hevent
        rw [hkey, hhit] at hlookup
        cases hlookup
        rw [hphase, hsame event hevent hkey]
    · refine iff_of_true hphase ?_
      intro event hevent hkey
      obtain ⟨h, hlookup, -⟩ := hl.cached event hevent
      rw [hkey] at hlookup
      exact absurd (FinMap.mem_iff_lookup.mpr ⟨h, hlookup⟩) hnew
  | _ => exact Iff.rfl

/-- A launch that gets its own phase goes on record with it. -/
theorem kept_launch (hl : l.Kept) {r : CacheRequest}
    (hop : l.state.DetailedLaunches limits (.getOrCreate r))
    (hlaunch : r.key.eventType = .cudaLaunchKernel)
    (hown : l.state.OwnPhase limits (.getOrCreate r)) :
    (l.step limits (.getOrCreate r)).Kept := by
  obtain ⟨hkey, hbelow⟩ := hop.2 hlaunch
  have hlaunches : (l.step limits (.getOrCreate r)).launches = r.event :: l.launches := by
    simp [step, CacheOp.launches, CacheOp.removes, hlaunch]
  have hlookup : ∀ k, (l.step limits (.getOrCreate r)).state.cache.handles.lookup k = _ :=
    CacheState.lookup_request hbelow
  -- `hown` says the handle shows this phase, which the other launches of the key then share
  have hsame := (ownPhase_iff hl hop).mp hown hlaunch
  refine ⟨?_, ?_⟩
  · intro event hevent
    rw [hlaunches, List.mem_cons] at hevent
    rw [hlookup]
    by_cases hk : event.metricKey = r.key
    · -- this launch, or an earlier one with its key and so with its phase
      have hphase : event.phase = r.event.phase := by
        rcases hevent with rfl | hevent
        · rfl
        · exact hsame event hevent hk
      rw [if_pos hk, hphase]
      exact ⟨_, rfl, hown hlaunch⟩
    · rw [if_neg hk]
      rcases hevent with rfl | hevent
      · exact absurd hkey.symm hk
      · exact hl.cached event hevent
  · intro k hmem hklaunch
    obtain ⟨h, hk⟩ := FinMap.mem_iff_lookup.mp hmem
    rw [hlaunches]
    rw [hlookup] at hk
    by_cases hkr : k = r.key
    · exact ⟨r.event, List.mem_cons_self, hkey.symm.trans hkr.symm⟩
    · rw [if_neg hkr] at hk
      obtain ⟨event, hevent, heq⟩ :=
        hl.recorded k (FinMap.mem_iff_lookup.mpr ⟨h, hk⟩) hklaunch
      exact ⟨event, List.mem_cons_of_mem _ hevent, heq⟩

/-- Requests of other operations leave the launch handles alone. -/
theorem kept_other (hl : l.Kept) {r : CacheRequest} (hother : r.key.eventType ≠ .cudaLaunchKernel) :
    (l.step limits (.getOrCreate r)).Kept := by
  have hlaunches : (l.step limits (.getOrCreate r)).launches = l.launches := by
    simp [step, CacheOp.launches, CacheOp.removes, hother]
  rcases CacheState.request_cases limits l.state r with ⟨hnew, -, hinsert⟩ | ⟨hsame, -⟩
  · have hinsert : (l.step limits (.getOrCreate r)).state.cache.handles = _ := hinsert
    refine ⟨?_, ?_⟩
    · intro event hevent
      rw [hlaunches] at hevent
      obtain ⟨h, hlookup, hphase⟩ := hl.cached event hevent
      -- the inserted key was not cached, so it hides no launch's handle
      have hne : event.metricKey ≠ (l.state.cache.collapseKey limits r.key).1 := by
        intro heq
        rw [heq] at hlookup
        exact hnew (FinMap.mem_iff_lookup.mpr ⟨h, hlookup⟩)
      refine ⟨h, ?_, hphase⟩
      rw [hinsert, AList.lookup_insert_ne hne]
      exact hlookup
    · intro k hmem hlaunch
      rw [hinsert, AList.mem_insert] at hmem
      rcases hmem with rfl | hmem
      · -- collapsing keeps the event type: the new key is not a launch
        exact absurd hlaunch hother
      · rw [hlaunches]
        exact hl.recorded k hmem hlaunch
  · have hsame : (l.step limits (.getOrCreate r)).state.cache.handles = _ := hsame
    refine ⟨?_, ?_⟩
    · rw [hlaunches, hsame]
      exact hl.cached
    · rw [hlaunches, hsame]
      exact hl.recorded

/-- A removal takes the launches of its processes off the record. -/
theorem kept_removal (hl : l.Kept) {op : CacheOp} (hop : ∀ r, op ≠ .getOrCreate r) :
    (l.step limits op).Kept := by
  have hlaunches : (l.step limits op).launches =
      l.launches.filter fun event => event.pid ∉ op.removes l.state := by
    cases op with
    | getOrCreate r => exact absurd rfl (hop r)
    | _ => rfl
  refine ⟨?_, ?_⟩
  · intro event hevent
    rw [hlaunches, List.mem_filter, decide_eq_true_eq] at hevent
    obtain ⟨h, hlookup, hphase⟩ := hl.cached event hevent.1
    have hspared : event.metricKey.pid ∉ op.removes l.state := hevent.2
    refine ⟨h, ?_, hphase⟩
    rw [step, CacheState.step_lookup limits l.state hop, if_neg hspared]
    exact hlookup
  · -- a handle that is left was there before, and so was its launch
    intro k hmem hlaunch
    obtain ⟨h, hlookup⟩ := FinMap.mem_iff_lookup.mp hmem
    obtain ⟨hspared, hlookup⟩ := CacheState.cached_of_step hop hlookup
    obtain ⟨event, hevent, rfl⟩ :=
      hl.recorded k (FinMap.mem_iff_lookup.mpr ⟨h, hlookup⟩) hlaunch
    refine ⟨event, ?_, rfl⟩
    rw [hlaunches, List.mem_filter, decide_eq_true_eq]
    exact ⟨hevent, hspared⟩

theorem kept_step (hl : l.Kept) {op : CacheOp} (hop : l.state.DetailedLaunches limits op)
    (hown : l.state.OwnPhase limits op) : (l.step limits op).Kept := by
  by_cases hreq : ∃ r, op = .getOrCreate r
  · obtain ⟨r, rfl⟩ := hreq
    by_cases hlaunch : r.key.eventType = .cudaLaunchKernel
    · exact kept_launch hl hop hlaunch hown
    · exact kept_other hl hlaunch
  · exact kept_removal hl fun r hr => hreq ⟨r, hr⟩

/-- **Phases.** In a run whose launches are detailed and below the limits, every launch gets a
    handle with the phase of its own marker, exactly if no launch has the key of an earlier one
    with a marker of another phase. Launches of a process whose handles were removed since do not
    count. -/
theorem own_phase_iff (kernelMode : KernelMode) (limits : CardinalityLimits)
    {ops : List CacheOp}
    (hops : Runs.Along (CacheState.step limits) (CacheState.DetailedLaunches limits)
      (.init kernelMode) ops) :
    Runs.Along (CacheState.step limits) (CacheState.OwnPhase limits) (.init kernelMode) ops ↔
      Runs.Along (step limits) SamePhase (init kernelMode) ops :=
  Runs.along_iff_of_map (f := state) (I := Kept) (fun _ _ => rfl)
    (fun _ _ hl hop => ownPhase_iff hl hop) (fun _ _ hl hop hown => kept_step hl hop hown)
    (kept_init kernelMode) hops

/-- The markers "decode" and "dfDode", padded with zeros. -/
def decodeMarker : List U8 := [100, 101, 99, 111, 100, 101, 0, 0, 0, 0, 0, 0, 0, 0, 0, 0]

def dfDodeMarker : List U8 := [100, 102, 68, 111, 100, 101, 0, 0, 0, 0, 0, 0, 0, 0, 0, 0]

/-- Launches with equal markers, and one without a marker. -/
theorem own_phase_iff_decode :
    Runs.Along (CacheState.step {}) (CacheState.OwnPhase {}) (.init .full)
      [.getOrCreate (CacheState.launchRequest decodeMarker),
        .getOrCreate (CacheState.launchRequest (List.replicate 16 0)),
        .getOrCreate (CacheState.launchRequest decodeMarker)] := by
  refine (own_phase_iff .full {} ?_).mpr (by decide)
  refine ⟨⟨⟨rfl, rfl⟩, fun _ => ⟨rfl, by decide⟩⟩, ⟨⟨rfl, rfl⟩, fun _ => ⟨rfl, by decide⟩⟩,
    ⟨⟨rfl, rfl⟩, fun _ => ⟨rfl, by decide⟩⟩, trivial⟩

/-- The two markers have one hash, as 31 * 101 + 99 = 31 * 102 + 68. A launch marked "dfDode" after
    one marked "decode" is counted in the phase "decode". -/
theorem colliding_marker_takes_phase :
    let r := CacheState.launchRequest dfDodeMarker
    let s := CacheState.run .full {} [.getOrCreate (CacheState.launchRequest decodeMarker)]
    s.BelowCaps {} r.key ∧ r.key = r.event.metricKey ∧ r.event.phase = "other" ∧
      (s.serve {} r).1.labels.phase = some "decode" := by
  decide

end LaunchLog

end Profi
